import Beads.Create.Persist
import Beads.Data.Columns
import Beads.Data.KeyedTable

/-! The statement behind every create is an `INSERT … ON DUPLICATE KEY UPDATE`. Its insert half
names every column of the row, its update half the columns of `issueUpsertColumns`, which the import
guard assigns only where the incoming row is strictly newer. -/

namespace Beads

inductive TextColumn where
  | contentHash | title | description | design | acceptanceCriteria | notes
  | priority | issueType | assignee | estimatedMinutes
  | createdAt | createdBy | owner | startedAt | closedAt | externalRef | specId
  | compactionLevel | compactedAt | compactedAtCommit | originalSize
  | sender | ephemeral | noHistory | wispType | pinned | isTemplate
  | molType | workType | sourceSystem | sourceRepo | closeReason | closedBySession
  | eventKind | actor | target | payload
  | awaitType | awaitId | timeoutNs | waiters
  | dueAt | deferUntil | metadata | storageClass
  deriving DecidableEq, Repr

/-- The columns that the INSERT writes next to `id`. -/
inductive IssueColumn where
  | status | updatedAt | rowLock
  | text (column : TextColumn)
  deriving DecidableEq, Repr

namespace IssueColumn

/-- `updated_at` is stored in whole seconds. -/
def Value : IssueColumn → Type
  | status => Status
  | updatedAt => Nat
  | rowLock => Nat
  | text _ => Option String

instance : (column : IssueColumn) → DecidableEq column.Value
  | status => inferInstanceAs (DecidableEq Status)
  | updatedAt | rowLock => inferInstanceAs (DecidableEq Nat)
  | text _ => inferInstanceAs (DecidableEq (Option String))

/-- What is written once, when the row is created, or drawn anew with every write. -/
def bookkeeping : IssueColumn → Bool
  | rowLock | text .createdAt | text .createdBy => true
  | _ => false

end IssueColumn

def IssueRow : Type := (column : IssueColumn) → column.Value

def issueUpsertColumns : List IssueColumn :=
  [.text .contentHash, .text .title, .text .description, .text .design, .text .acceptanceCriteria,
   .text .notes, .status, .text .priority, .text .issueType, .text .assignee,
   .text .estimatedMinutes, .text .startedAt, .text .closedAt, .text .externalRef,
   .text .sourceRepo, .text .closeReason, .text .closedBySession, .text .metadata,
   .rowLock, .updatedAt]

namespace IssueRow

def seconds (row : IssueRow) : Nat := row .updatedAt

def insertArgs (token : Nat) (issue : IssueRow) : IssueRow := Function.update issue .rowLock token

def upsertAssignments (stored : IssueRow) (rejectStaleUpdate : Bool) (incoming : IssueRow) : IssueRow :=
  Columns.assign (fun row => !rejectStaleUpdate || decide (seconds row < incoming.seconds)) incoming issueUpsertColumns stored

end IssueRow

/-- `isNew` and `staleRejected`, with the table they leave. -/
structure InsertResult where
  isNew : Bool
  staleRejected : Bool
  table : KeyedTable Id IssueRow

def insertIssueIntoTable (rejectStaleUpdate : Bool) (table : KeyedTable Id IssueRow) (id : Id)
    (incoming : IssueRow) : KeyedTable Id IssueRow :=
  table.insert id (match table.get? id with
    | none => incoming
    | some stored => stored.upsertAssignments rejectStaleUpdate incoming)

def insertIssueIfNew (opts : BatchCreateOptions) (token : Nat) (table : KeyedTable Id IssueRow)
    (id : Id) (issue : IssueRow) : Except CreateError InsertResult :=
  let existing := table.get? id
  let incoming := issue.insertArgs token
  if opts.conflictSkip && existing.isSome then .ok ⟨false, false, table⟩
  else if opts.createOnly then
    if existing.isSome then .error (.alreadyExists id) else .ok ⟨true, false, table.insert id incoming⟩
  else if opts.rejectStaleUpserts && existing.any (fun stored => decide (incoming.seconds < stored.seconds)) then
    .ok ⟨false, true, table⟩
  else .ok ⟨existing.isNone, false, insertIssueIntoTable opts.rejectStaleUpserts table id incoming⟩

def importSnapshots (id : Id) (table : KeyedTable Id IssueRow) (imports : List (Nat × IssueRow)) :
    Except CreateError (KeyedTable Id IssueRow) :=
  imports.foldlM (fun table snapshot => (insertIssueIfNew { rejectStaleUpserts := true } snapshot.1 table id snapshot.2).map
    InsertResult.table) table

namespace IssueRow

variable {stored incoming first latest : IssueRow} {token : Nat} {column : IssueColumn}

@[simp] theorem seconds_insertArgs : (incoming.insertArgs token).seconds = incoming.seconds := rfl

theorem insertArgs_apply (kept : column.bookkeeping = false) : incoming.insertArgs token column = incoming column := by
  refine Function.update_of_ne ?_ _ _
  rintro rfl
  exact Bool.noConfusion kept

theorem upsertAssignments_newer (newer : stored.seconds < incoming.seconds) :
    stored.upsertAssignments true incoming = Columns.overlay issueUpsertColumns incoming stored := by
  refine Columns.assign_of_guard (by simpa using newer) fun row column listed => ?_
  have apart : IssueColumn.updatedAt ≠ column := by
    rintro rfl
    exact absurd listed (by decide)
  have compared : seconds (Function.update row column (incoming column)) = seconds row := Function.update_of_ne apart _ _
  rw [compared]

theorem upsertAssignments_tie (tie : ¬ stored.seconds < incoming.seconds) :
    stored.upsertAssignments true incoming = stored :=
  Columns.assign_of_not (by simpa using tie)

/-- A stored row whose upserted columns are those of the latest snapshot and whose other columns are
still those of the first. -/
structure Between (first latest stored : IssueRow) : Prop where
  upserted : ∀ column ∈ issueUpsertColumns, column.bookkeeping = false → stored column = latest column
  inserted : ∀ column ∉ issueUpsertColumns, column.bookkeeping = false → stored column = first column

theorem Between.seconds_eq (between : Between first latest stored) : stored.seconds = latest.seconds :=
  between.upserted .updatedAt (by decide) rfl

theorem Between.insertArgs : Between first first (first.insertArgs token) where
  upserted _ _ kept := insertArgs_apply kept
  inserted _ _ kept := insertArgs_apply kept

theorem Between.newer (between : Between first latest stored) (newer : stored.seconds < incoming.seconds) :
    Between first incoming (stored.upsertAssignments true (incoming.insertArgs token)) := by
  rw [upsertAssignments_newer (by simpa using newer)]
  refine ⟨fun column listed kept => ?_, fun column unlisted kept => ?_⟩
  · exact (Columns.overlay_of_mem listed).trans (insertArgs_apply kept)
  · exact (Columns.overlay_of_not_mem unlisted).trans (between.inserted column unlisted kept)

theorem Between.eq_latest_iff (between : Between first latest stored) :
    (∀ column, column.bookkeeping = false → stored column = latest column) ↔
      ∀ column ∉ issueUpsertColumns, column.bookkeeping = false → first column = latest column := by
  refine ⟨fun same column unlisted kept => ?_, fun agree column kept => ?_⟩
  · exact (between.inserted column unlisted kept).symm.trans (same column kept)
  · by_cases listed : column ∈ issueUpsertColumns
    · exact between.upserted column listed kept
    · exact (between.inserted column listed kept).trans (agree column listed kept)

end IssueRow

variable {table : KeyedTable Id IssueRow} {id : Id} {first latest stored : IssueRow}

theorem insertIssueIfNew_guarded (found : table.get? id = some stored) (between : IssueRow.Between first latest stored)
    (token : Nat) (snapshot : IssueRow) :
    ∃ result stored newest, insertIssueIfNew { rejectStaleUpserts := true } token table id snapshot = .ok result ∧
      result.table.get? id = some stored ∧ IssueRow.Between first newest stored ∧
      (newest = latest ∨ newest = snapshot) ∧ latest.seconds ≤ newest.seconds ∧ snapshot.seconds ≤ newest.seconds := by
  have stamped := between.seconds_eq
  unfold insertIssueIfNew
  simp only [found, Bool.false_and, Bool.true_and, Bool.false_eq_true, if_false, Option.any_some, IssueRow.seconds_insertArgs]
  split
  · rename_i stale
    have older : snapshot.seconds < stored.seconds := of_decide_eq_true stale
    exact ⟨_, stored, latest, rfl, found, between, .inl rfl, le_rfl, by omega⟩
  · have written : (insertIssueIntoTable true table id (snapshot.insertArgs token)).get? id =
        some (stored.upsertAssignments true (snapshot.insertArgs token)) := by
      simp only [insertIssueIntoTable, found, KeyedTable.get?_insert, if_true]
    by_cases newer : stored.seconds < snapshot.seconds
    · exact ⟨_, _, snapshot, rfl, written, between.newer newer, .inr rfl, by omega, le_rfl⟩
    · have tied : stored.upsertAssignments true (snapshot.insertArgs token) = stored := IssueRow.upsertAssignments_tie newer
      rw [tied] at written
      exact ⟨_, stored, latest, rfl, written, between, .inl rfl, le_rfl, by omega⟩

theorem importSnapshots_stored (found : table.get? id = some stored)
    (between : IssueRow.Between first latest stored) (imports : List (Nat × IssueRow)) :
    ∃ imported stored newest, importSnapshots id table imports = .ok imported ∧ imported.get? id = some stored ∧
      IssueRow.Between first newest stored ∧ (newest = latest ∨ newest ∈ imports.map Prod.snd) ∧
      latest.seconds ≤ newest.seconds ∧ ∀ snapshot ∈ imports.map Prod.snd, snapshot.seconds ≤ newest.seconds := by
  induction imports generalizing table latest stored with
  | nil => exact ⟨table, stored, latest, rfl, found, between, .inl rfl, le_rfl, nofun⟩
  | cons snapshot rest ih =>
    obtain ⟨token, issue⟩ := snapshot
    obtain ⟨result, next, newer, wrote, kept, between, either, above, reached⟩ :=
      insertIssueIfNew_guarded found between token issue
    obtain ⟨imported, final, newest, ran, held, between, chosen, later, bound⟩ := ih kept between
    refine ⟨imported, final, newest, ?_, held, between, ?_, above.trans later, ?_⟩
    · rw [importSnapshots, List.foldlM_cons, wrote]
      exact ran
    · obtain rfl | member := chosen
      · exact either.imp_right fun same => List.mem_cons.mpr (.inl same)
      · exact .inr (.tail _ member)
    · exact List.forall_mem_cons.mpr ⟨reached.trans later, bound⟩

/-- Over any order and any repetition of the imports the stored row ends up equal to the latest
snapshot exactly if the first one imported agrees with it on the columns that the update half leaves
out. -/
theorem importSnapshots_latest_iff {imports : List (Nat × IssueRow)} (absent : table.get? id = none)
    (started : (imports.map Prod.snd).head? = some first) (member : latest ∈ imports.map Prod.snd)
    (distinct : ∀ one ∈ imports.map Prod.snd, ∀ other ∈ imports.map Prod.snd, one.seconds = other.seconds → one = other)
    (newest : ∀ snapshot ∈ imports.map Prod.snd, snapshot.seconds ≤ latest.seconds) :
    (∃ imported stored, importSnapshots id table imports = .ok imported ∧ imported.get? id = some stored ∧
      ∀ column, column.bookkeeping = false → stored column = latest column) ↔
    ∀ column ∉ issueUpsertColumns, column.bookkeeping = false → first column = latest column := by
  cases imports with
  | nil => cases member
  | cons snapshot rest =>
    obtain ⟨token, issue⟩ := snapshot
    obtain rfl : issue = first := Option.some.inj started
    have inserted : insertIssueIfNew { rejectStaleUpserts := true } token table id issue =
        .ok ⟨true, false, table.insert id (issue.insertArgs token)⟩ := by
      simp [insertIssueIfNew, insertIssueIntoTable, absent]
    have held : (table.insert id (issue.insertArgs token)).get? id = some (issue.insertArgs token) := by simp
    obtain ⟨imported, stored, last, ran, found, between, chosen, later, bound⟩ :=
      importSnapshots_stored held IssueRow.Between.insertArgs rest
    have listed := List.mem_cons.mpr chosen
    have above : ∀ snapshot ∈ ((token, issue) :: rest).map Prod.snd, snapshot.seconds ≤ last.seconds :=
      List.forall_mem_cons.mpr ⟨later, bound⟩
    obtain rfl : last = latest := distinct last listed latest member (le_antisymm (newest last listed) (above latest member))
    have whole : importSnapshots id table ((token, issue) :: rest) = .ok imported := by
      rw [importSnapshots, List.foldlM_cons, inserted]
      exact ran
    rw [← between.eq_latest_iff]
    refine ⟨?_, fun same => ⟨imported, stored, whole, found, same⟩⟩
    rintro ⟨other, row, done, at', same⟩
    obtain rfl : imported = other := Except.ok.inj (whole.symm.trans done)
    obtain rfl : stored = row := Option.some.inj (found.symm.trans at')
    exact same

namespace IssueRow

def only (column : TextColumn) (value : String) (second : Nat) : IssueRow
  | .status => Status.opened
  | .updatedAt => second
  | .rowLock => (0 : Nat)
  | .text other => if other = column then some value else none

end IssueRow

theorem importSnapshots_latest_owned :
    let imports := [(7, IssueRow.only .owner "ann" 5), (8, IssueRow.only .owner "ann" 3), (9, IssueRow.only .owner "ann" 6)]
    ∃ imported stored, importSnapshots "bd-1" {} imports = .ok imported ∧ imported.get? "bd-1" = some stored ∧
      ∀ column, column.bookkeeping = false → stored column = IssueRow.only .owner "ann" 6 column := by
  refine (importSnapshots_latest_iff rfl rfl (List.mem_of_getElem? (i := 2) rfl) ?_ (by decide)).mpr ?_
  · exact fun one here other there => List.inj_on_of_nodup_map (f := IssueRow.seconds) (by decide) here there
  · intro column unlisted _
    cases column with
    | updatedAt => exact absurd unlisted (by decide)
    | status | rowLock => rfl
    | text column => cases column <;> rfl

/-- An owner given up between the two exports stays. -/
theorem importSnapshots_keeps_owner :
    ∃ imported stored, importSnapshots "bd-1"
      {} [(7, IssueRow.only .owner "ann" 5), (8, IssueRow.only .owner "bob" 6)] = .ok imported ∧
      imported.get? "bd-1" = some stored ∧ stored.seconds = 6 ∧
        stored (.text .owner) ≠ IssueRow.only .owner "bob" 6 (.text .owner) :=
  ⟨_, _, rfl, rfl, rfl, by decide⟩

end Beads
