import Beads.Data.Fallible
import Beads.Merge.Exchange
import Beads.Merge.Settle

namespace Beads

open Interruption List Option

variable {γ : Type} {engine : DoltEngine γ} {fails : DoltStatement → Bool} {s before : DoltState γ} {working : WorkingSet γ}

def DoltRoot.Intact (root : DoltRoot γ) (table : TableName) : Prop :=
  ∀ row ∈ root.children table, root.dangling row = false

/-- A synced table with a dangling row has recorded violations. -/
def WorkingSet.Recorded (working : WorkingSet γ) : Prop :=
  ∀ table ∈ fkCascadeTables, working.root.Intact table ∨ ∃ entry ∈ working.violations, entry.table = table

/-- The statements that rewrite rows are checked against the foreign keys. -/
structure DoltEngine.KeepsReferences (engine : DoltEngine γ) : Prop where
  resolve : ∀ theirs table conflicts root, ∀ child ∈ fkCascadeTables, root.Intact child →
    (engine.resolve theirs table conflicts root).Intact child
  backfill : ∀ version hash root, ∀ child ∈ fkCascadeTables, root.Intact child →
    (engine.backfill version hash root).Intact child
  writeMerged : ∀ merge root, ∀ child ∈ fkCascadeTables, root.Intact child → (engine.writeMerged merge root).Intact child

/-- A merge on a clean working set. While it is open its abort restores the working set, a head that
it moved is its result, `dolt_conflicts` has one named entry for each table, and its violations are
recorded. -/
structure MergeEffect.Lands (merge : MergeEffect γ) (before : DoltState γ) : Prop where
  clean : before.working = ⟨before.head, [], [], none⟩
  opened : ∀ root ∈ merge.after.working.merging, root = before.working.root
  head : merge.after.head = before.head ∨ merge.after.head = merge.after.working.root
  distinct : (merge.after.working.conflicts.map TableConflicts.table).Nodup
  named : ∀ entry ∈ merge.after.working.conflicts, entry.table ≠ ""
  recorded : merge.after.working.Recorded

/-- Nothing is left to settle: no conflict, no violation, and every synced child row refers to
issues that exist. -/
structure WorkingSet.Settled (working : WorkingSet γ) : Prop where
  conflicts : working.conflicts = []
  violations : working.violations = []
  intact : ∀ table ∈ fkCascadeTables, working.root.Intact table

theorem WorkingSet.Recorded.intact (recorded : working.Recorded) (none : working.violations = []) :
    ∀ table ∈ fkCascadeTables, working.root.Intact table := by
  intro table synced
  refine (recorded table synced).resolve_right fun ⟨entry, listed, _⟩ => ?_
  rw [none] at listed
  exact nomatch listed

section

variable {α : Type} {done : α → DoltState γ → Prop} {ran : Unit → DoltState γ → Prop}
  {failed : DoltState γ → Prop} {statement : DoltStatement}

theorem ends_ask {answer : DoltState γ → α} (answered : fails statement = false → done (answer s) s)
    (lost : fails statement = true → failed s) : Ends (ask fails statement answer) done failed s := by
  unfold Ends ask
  cases outcome : fails statement with
  | true => simpa using lost outcome
  | false => simpa using answered outcome

theorem ends_exec {effect : WorkingSet γ → WorkingSet γ}
    (executed : fails statement = false → ran () { s with working := effect s.working })
    (lost : fails statement = true → failed s) : Ends (exec fails statement effect) ran failed s := by
  unfold Ends exec
  cases outcome : fails statement with
  | true => simpa using lost outcome
  | false => simpa using executed outcome

theorem ends_commit (executed : s.working.violations = [] → ran () ⟨s.working.root, { s.working with merging := none }⟩)
    (lost : failed s) : Ends (commit fails) ran failed s := by
  unfold Ends commit
  by_cases refused : (fails .commit || !s.working.violations.isEmpty) = true
  · simpa [refused] using lost
  · simp only [refused]
    exact executed (by simp_all)

end

/-- An abort restores the working set: the merge is open, or nothing has changed. -/
def Undoable (before s : DoltState γ) : Prop :=
  s.working.merging = some before.working.root ∨ s.working = before.working ∧ s.head = before.working.root

theorem ends_refuse {α : Type} {done : α → DoltState γ → Prop} (clean : before.working = ⟨before.working.root, [], [], none⟩)
    (undoable : Undoable before s) (preMergeClean : Bool) (error : SettleError) :
    Ends (refuse preMergeClean error) done (fun after => after.working = before.working) s := by
  refine ends_bind ?_
  unfold Ends abortMerge
  obtain opened | ⟨unchanged, head⟩ := undoable
  · rw [opened]
    exact clean.symm
  · have closed : s.working.merging = none := by rw [unchanged, clean]
    rw [closed]
    cases preMergeClean with
    | true =>
      change (⟨s.head, [], [], none⟩ : WorkingSet γ) = before.working
      rw [head, ← clean]
    | false => exact unchanged

variable {table : TableName} {entry : TableConflicts} {conflicts : List TableConflicts}

variable {settled : ConflictRecord → Bool} {keyCols : List Column} {keys : List (List ConflictCell)}
  {statement : DoltStatement} {left last : List TableConflicts → Prop}

theorem clearConflicts_apart (apart : table ∉ conflicts.map TableConflicts.table) :
    clearConflicts table settled conflicts = conflicts := by
  rw [clearConflicts]
  refine (filterMap_congr fun entry listed => ?_).trans (filterMap_some)
  rw [if_neg fun same => apart (mem_map.mpr ⟨entry, listed, same⟩)]

theorem clearConflicts_cons (apart : entry.table ∉ conflicts.map TableConflicts.table) :
    clearConflicts entry.table settled (entry :: conflicts) = (entry.without settled).toList ++ conflicts := by
  have others : clearConflicts entry.table settled conflicts = conflicts := clearConflicts_apart apart
  unfold clearConflicts at others ⊢
  rw [filterMap_cons, if_pos rfl, others]
  cases entry.without settled <;> rfl

theorem of_mem_without {left : TableConflicts} (remains : entry.without settled = some left) :
    left.table = entry.table ∧ ∀ row ∈ left.rows, row ∈ entry.rows ∧ settled row = false := by
  unfold TableConflicts.without at remains
  split at remains
  · cases remains
    refine ⟨rfl, fun row listed => ?_⟩
    obtain ⟨member, open'⟩ := mem_filter.mp listed
    exact ⟨member, by simpa using open'⟩
  · exact nomatch remains

theorem clearConflicts_whole (apart : entry.table ∉ conflicts.map TableConflicts.table) :
    clearConflicts entry.table (fun _ => true) (entry :: conflicts) = conflicts := by
  rw [clearConflicts_cons apart]
  cases left : entry.without fun _ => true with
  | none => rfl
  | some left' =>
    obtain ⟨row, listed⟩ := exists_mem_of_ne_nil _ left'.live
    exact nomatch ((of_mem_without left).2 row listed).2

def Clearing (table : TableName) (keyCols : List Column) (keys : List (List ConflictCell))
    (rest conflicts : List TableConflicts) : Prop :=
  conflicts = rest ∨ ∃ entry, entry.table = table ∧ conflicts = entry :: rest ∧ ∀ row ∈ entry.rows, row.ourKey keyCols ∈ keys

theorem Clearing.done {rest : List TableConflicts}
    (clearing : Clearing table keyCols [] rest conflicts) : conflicts = rest := by
  obtain cleared | ⟨entry, _, _, keyed⟩ := clearing
  · exact cleared
  · obtain ⟨row, listed⟩ := exists_mem_of_ne_nil _ entry.live
    exact absurd (keyed row listed) not_mem_nil

theorem Clearing.step {key : List ConflictCell} {rest : List TableConflicts}
    (apart : table ∉ rest.map TableConflicts.table) (clearing : Clearing table keyCols (key :: keys) rest conflicts) :
    Clearing table keyCols keys rest (clearConflicts table (fun row => row.ourKey keyCols == key) conflicts) := by
  obtain rfl | ⟨entry, rfl, rfl, keyed⟩ := clearing
  · exact .inl (clearConflicts_apart apart)
  · rw [clearConflicts_cons apart]
    cases left : entry.without fun row => row.ourKey keyCols == key with
    | none => exact .inl rfl
    | some left' =>
      obtain ⟨same, rows⟩ := of_mem_without left
      refine .inr ⟨left', same, rfl, fun row listed => ?_⟩
      obtain ⟨member, other⟩ := rows row listed
      exact (mem_cons.mp (keyed row member)).resolve_left fun same => by simp [same] at other

/-- The merge is open and its dangling references are recorded. -/
structure Midway (before s : DoltState γ) : Prop where
  opened : s.working.merging = some before.working.root
  recorded : s.working.Recorded

theorem Midway.undoable (midway : Midway before s) : Undoable before s := .inl midway.opened

/-- Midway with the conflicts of this table to be settled next. -/
structure Facing (before s : DoltState γ) (entry : TableConflicts) (rest : List TableConflicts) : Prop where
  midway : Midway before s
  listed : s.working.conflicts = entry :: rest
  apart : entry.table ∉ rest.map TableConflicts.table

/-- A pass that ends midway, with these conflicts left and the violations untouched. -/
def Passes (before s : DoltState γ) (left : List TableConflicts → Prop) (prog : DoltM γ Unit) : Prop :=
  Ends prog (fun _ after => Midway before after ∧ left after.working.conflicts ∧ after.working.violations = s.working.violations)
    (Midway before) s

theorem recorded_rewrite {rewritten : DoltRoot γ}
    (keeps : ∀ child ∈ fkCascadeTables, working.root.Intact child → rewritten.Intact child)
    (recorded : working.Recorded) (left : List TableConflicts) :
    WorkingSet.Recorded { working with root := rewritten, conflicts := left } :=
  fun table synced => (recorded table synced).imp_left (keeps table synced)

theorem passes_rewrite {rewrite : WorkingSet γ → DoltRoot γ} {clear : WorkingSet γ → List TableConflicts}
    (midway : Midway before s)
    (keeps : ∀ child ∈ fkCascadeTables, s.working.root.Intact child →
      (rewrite s.working).Intact child) (cleared : left (clear s.working)) :
    Passes before s left (exec fails statement
      fun working => { working with root := rewrite working, conflicts := clear working }) :=
  ends_exec (fun _ => ⟨⟨midway.opened, recorded_rewrite keeps midway.recorded _⟩, cleared, rfl⟩) fun _ => midway

theorem passes_stage (midway : Midway before s)
    (holds : left s.working.conflicts) : Passes before s left (exec fails statement id) :=
  ends_exec (fun _ => ⟨midway, holds, rfl⟩) fun _ => midway

theorem Passes.andThen {first : DoltM γ Unit} {second : Unit → DoltM γ Unit}
    (passes : Passes before s left first)
    (next : ∀ middle, Midway before middle → left middle.working.conflicts →
    Passes before middle last (second ())) : Passes before s last (first >>= second) := by
  refine ends_bind (Ends.imp passes (fun _ middle ⟨midway, holds, same⟩ => ?_) fun _ lost => lost)
  exact Ends.imp (next middle midway holds)
    (fun _ _ ⟨still, final, unchanged⟩ => ⟨still, final, unchanged.trans same⟩) fun _ lost => lost

theorem Passes.imp {prog : DoltM γ Unit} (passes : Passes before s left prog)
    (less : ∀ conflicts, left conflicts → last conflicts) : Passes before s last prog :=
  Ends.imp passes (fun _ after ⟨still, holds, same⟩ => ⟨still, less after.working.conflicts holds, same⟩) fun _ lost => lost

theorem passes_forM {α : Type} {inputs : List α} {body : α → DoltM γ Unit}
    (rounds : List α → List TableConflicts → Prop) (midway : Midway before s)
    (start : rounds inputs s.working.conflicts) (round : ∀ input rest state, Midway before state →
      rounds (input :: rest) state.working.conflicts → Passes before state (rounds rest)
    (body input)) : Passes before s (rounds []) (inputs.forM body) := by
  refine ends_forM (fun rest after => Midway before after ∧ rounds rest after.working.conflicts ∧
    after.working.violations = s.working.violations) ⟨midway, start, rfl⟩ fun input rest state ⟨still, holds, same⟩ => ?_
  exact Ends.imp (round input rest state still holds)
    (fun _ _ ⟨next, final, unchanged⟩ => ⟨next, final, unchanged.trans same⟩) fun _ lost => lost

variable {rest : List TableConflicts}

theorem passes_clearRow {key : List ConflictCell}
    (midway : Midway before s) (apart : table ∉ rest.map TableConflicts.table)
    (clearing : Clearing table keyCols (key :: keys) rest s.working.conflicts) :
    Passes before s (Clearing table keyCols keys rest) (clearRow fails table keyCols key) := by
  unfold Passes Ends clearRow
  cases fails (.clearRow table key) with
  | true => exact midway
  | false =>
    by_cases found : (s.working.conflicts.any fun entry => entry.table == table &&
      entry.rows.any (·.ourKey keyCols == key)) = true
    · simpa [found] using ⟨⟨midway.opened, midway.recorded⟩, clearing.step apart⟩
    · simpa [found] using midway

theorem ourKey_mergeRecord {row : ConflictRecord} {merge : IssuesRowMerge} (merged : mergeRecord engine row = some merge) :
    row.ourKey [issuesKeyColumn] = [merge.ourKey] := by
  cases row with
  | raw row => cases merged
  | issue row =>
    rw [mergeRecord, ConflictRow.mergeIssuesConflictRow_eq] at merged
    split at merged
    · cases merged
      rw [ConflictRow.stamp]
      split
      · rfl
      · dsimp only
        split <;> rfl
    · cases merged

theorem passes_union (facing : Facing before s entry rest)
    (keyed : ∀ row ∈ entry.rows, row.ourKey keyCols ∈ keys) :
    Passes before s (· = rest) (keys.forM (clearRow fails entry.table keyCols)) := by
  have loop : Passes before s (Clearing entry.table keyCols [] rest) (keys.forM (clearRow fails entry.table keyCols)) :=
    passes_forM (fun left => Clearing entry.table keyCols left rest) facing.midway (.inr ⟨entry, rfl, facing.listed, keyed⟩)
      fun _ _ _ still clearing => passes_clearRow still facing.apart clearing
  exact loop.imp fun _ clearing => clearing.done

section

variable (references : engine.KeepsReferences)
include references

section

variable (facing : Facing before s entry rest)
include facing

theorem passes_resolveWhole {theirs : Bool} :
    Passes before s (· = rest) (resolveWhole engine fails statement theirs entry.table) := by
  refine passes_rewrite facing.midway (references.resolve theirs entry.table s.working.conflicts s.working.root) ?_
  rw [facing.listed, clearConflicts_whole facing.apart]

theorem passes_fields {plan : List IssuesRowMerge}
    (issues : entry.table = "issues") (planned : entry.rows.mapM (mergeRecord engine) = some plan) :
    Passes before s (· = rest) (plan.forM (writeMergedRow engine fails)) := by
  have keyed : ∀ row ∈ entry.rows, row.ourKey [issuesKeyColumn] ∈ plan.map fun merge => [merge.ourKey] := by
    intro row member
    obtain ⟨merge, found, merged⟩ := Fallible.exists_of_mapM planned member
    exact mem_map.mpr ⟨merge, found, (ourKey_mergeRecord merged).symm⟩
  have loop : Passes before s (Clearing "issues" [issuesKeyColumn] [] rest) (plan.forM (writeMergedRow engine fails)) := by
    refine passes_forM (fun left => Clearing "issues" [issuesKeyColumn] (left.map fun merge => [merge.ourKey]) rest) facing.midway
      (.inr ⟨entry, issues, facing.listed, keyed⟩) fun merge left state still clearing => ?_
    have written : Passes before state (Clearing "issues" [issuesKeyColumn] ([merge.ourKey] ::
      left.map fun merge => [merge.ourKey]) rest)
        (if merge.columns.isEmpty then pure ()
          else exec fails (.writeMerged merge.ourKey) fun working =>
            { working with root := engine.writeMerged merge working.root }) := by
      split
      · exact ⟨still, clearing, rfl⟩
      · exact passes_rewrite still (references.writeMerged merge state.working.root) clearing
    exact written.andThen fun middle midway clearing => passes_clearRow midway (issues ▸ facing.apart) clearing
  exact loop.imp fun _ clearing => clearing.done

theorem passes_vintage {rows : List ConflictRecord} (cursor : entry.table = "schema_migrations") :
    Passes before s (· = rest) (do
      ask fails .vintageRows fun _ => ()
      rows.forM (backfillHash engine fails)
      resolveWhole engine fails (.resolve "schema_migrations") false "schema_migrations") := by
  have asked : Passes before s (· = entry :: rest) (ask fails .vintageRows fun _ => ()) :=
    ends_ask (fun _ => ⟨facing.midway, facing.listed, rfl⟩) fun _ => facing.midway
  refine asked.andThen fun middle still unresolved => ?_
  have filled : Passes before middle (· = entry :: rest) (rows.forM (backfillHash engine fails)) := by
    refine passes_forM (fun _ => (· = entry :: rest)) still unresolved fun row _ state midway unresolved => ?_
    rw [backfillHash]
    split
    · exact passes_rewrite midway (references.backfill _ _ state.working.root) unresolved
    · exact ⟨midway, unresolved, rfl⟩
  exact filled.andThen fun _ midway unresolved => cursor ▸ passes_resolveWhole references ⟨midway, unresolved, facing.apart⟩

theorem passes_settleTable {resolution : Resolution} (screened : screenTable engine entry = some resolution) :
    Passes before s (· = rest) (settleTable engine fails resolution) := by
  have whole : ∀ table, entry.table = table → Passes before s (· = rest) (settleTable engine fails (.theirs table)) := by
    rintro _ rfl
    exact passes_resolveWhole references facing
  rw [screenTable] at screened
  split at screened
  · cases screened
    exact whole _ ‹_›
  split at screened
  · cases (ite_none_right_eq_some.mp screened).2
    exact whole _ ‹_›
  split at screened
  · cases (ite_none_right_eq_some.mp screened).2
    exact passes_vintage references facing ‹_›
  split at screened
  · cases (ite_none_right_eq_some.mp screened).2
    exact whole _ ‹_›
  split at screened
  · obtain ⟨plan, mergeable, rfl⟩ := map_eq_some_iff.mp screened
    rw [issuesConflictsAreFieldMergeable, ite_none_left_eq_some] at mergeable
    exact passes_fields references facing ‹_› mergeable.2
  · obtain ⟨keys, safe, rfl⟩ := map_eq_some_iff.mp (ite_none_right_eq_some.mp screened).2
    simp only [unionConflictsAreSafe, ite_none_left_eq_some, ite_none_right_eq_some] at safe
    refine passes_union facing fun row member => ?_
    rw [← Option.some.inj safe.2.2]
    exact mem_map_of_mem member

end

theorem passes_resolveTables {resolutions : List Resolution} (midway : Midway before s)
    (distinct : (s.working.conflicts.map TableConflicts.table).Nodup)
    (screened : s.working.conflicts.mapM (screenTable engine) = some resolutions) :
    Passes before s (· = []) (resolutions.forM (resolveTable engine fails)) := by
  have loop : Passes before s (fun left => (left.map TableConflicts.table).Nodup ∧ left.mapM (screenTable engine) = some [])
      (resolutions.forM (resolveTable engine fails)) := by
    refine passes_forM (fun rest left => (left.map TableConflicts.table).Nodup ∧
      left.mapM (screenTable engine) = some rest) midway
      ⟨distinct, screened⟩ fun resolution rest state still ⟨distinct, screened⟩ => ?_
    cases listed : state.working.conflicts with
    | nil =>
      rw [listed] at screened
      exact nomatch screened
    | cons entry others =>
      rw [listed] at distinct screened
      obtain ⟨first, more, here, later, same⟩ := Fallible.mapM_cons_eq_some screened
      obtain ⟨rfl, rfl⟩ := List.cons.inj same
      obtain ⟨apart, distinct⟩ := nodup_cons.mp distinct
      refine (passes_settleTable references ⟨still, listed, apart⟩ here).andThen fun middle midway left => ?_
      exact passes_stage midway (left ▸ ⟨distinct, later⟩)
  refine loop.imp fun conflicts left => ?_
  cases conflicts with
  | nil => rfl
  | cons entry others =>
    obtain ⟨first, more, _, _, same⟩ := Fallible.mapM_cons_eq_some left.2
    exact nomatch same

end

theorem ends_screenTables {done : Option (List Resolution) → DoltState γ → Prop} {failed : DoltState γ → Prop}
    (answered : done (conflicts.mapM (screenTable engine)) s) (lost : (∃ table, fails (.conflictRows table) = true) → failed s) :
    Ends (screenTables engine fails conflicts) done failed s := by
  induction conflicts generalizing done with
  | nil => exact answered
  | cons entry rest ih =>
    rw [screenTables]
    have query : ∀ {asked : Unit → DoltState γ → Prop}, asked () s →
        Ends (if screenedTables.contains entry.table then ask fails (.conflictRows entry.table)
          fun _ => () else pure ()) asked failed s := by
      intro asked holds
      split
      · exact ends_ask (fun _ => holds) fun failing => lost ⟨_, failing⟩
      · exact holds
    refine ends_bind (query ?_)
    rw [mapM_cons] at answered
    cases here : screenTable engine entry with
    | none =>
      rw [here] at answered
      exact answered
    | some resolution =>
      refine ends_bind (ih ?_)
      rw [here] at answered
      cases more : rest.mapM (screenTable engine) <;> rw [more] at answered <;> exact answered

end Beads
