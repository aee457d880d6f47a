import Beads.Lifecycle.Outcomes

namespace Beads

open Fallible LifecycleWrite List Option

/-- The status is closed iff `closed_at` is not `NULL`. -/
def ItemRow.ClosedCoherent (row : ItemRow) : Prop := row.status = .closed ↔ row.closedAt ≠ none

def LifecycleStore.ClosedCoherent (store : LifecycleStore) : Prop :=
  ∀ ref row, store.row ref = some row → row.ClosedCoherent

def ItemRow.Unclosed (row : ItemRow) : Prop := row.status ≠ .closed ∧ row.closedAt = none

variable {row : ItemRow} {holds : ItemRow → Prop} {clauses : RowPatch}

theorem ItemRow.Unclosed.coherent (unclosed : row.Unclosed) : row.ClosedCoherent :=
  iff_of_false unclosed.1 fun stamped => stamped unclosed.2

theorem ItemRow.ClosedCoherent.unclosed (coherent : row.ClosedCoherent)
    (status : row.status ≠ .closed) : row.Unclosed :=
  ⟨status, Classical.not_not.mp fun stamped => status (coherent.mpr stamped)⟩

def RowWrite.Keeps (holds : ItemRow → Prop) (write : RowWrite) : Prop :=
  ∀ row after, holds row → write.on (some row) = some after → holds after

theorem RowWrite.keeps_delete : RowWrite.Keeps holds .delete := fun _ _ _ left => absurd left nofun

theorem RowWrite.keeps_patch (each : ∀ row, holds row → holds (clauses.apply row)) :
    RowWrite.Keeps holds (.patch clauses) :=
  fun row _ before left => Option.some.inj left ▸ each row before

theorem RowWrite.on_none (write : RowWrite) : write.on none = none := by
  cases write <;> rfl

theorem foldl_keeps {rows : List RowWrite} (each : ∀ write ∈ rows, write.Keeps holds)
    {before : Option ItemRow} {after : ItemRow} (start : ∀ row, before = some row → holds row)
    (left : rows.foldl (fun row write => write.on row) before = some after) : holds after := by
  induction rows generalizing before with
  | nil => exact start after left
  | cons write rest ih =>
    refine ih (fun other member => each other (.tail _ member)) (fun row middle => ?_) left
    cases before with
    | none => exact absurd (write.on_none.symm.trans middle) nofun
    | some stored => exact each write (.head _) stored row (start stored rfl) middle

namespace LifecycleStore

variable {store : LifecycleStore} {config : LifecycleConfig} {now rowLock : Nat} {id : Id}
  {actor : String} {writes : List LifecycleWrite}

section

variable (coherent : store.ClosedCoherent)
include coherent

theorem ClosedCoherent.writeAll
    (each : ∀ ref, (∀ write, .row ref write ∈ writes → write.Keeps ItemRow.ClosedCoherent) ∨
      (∃ row, store.row ref = some row ∧ row.status ≠ .closed) ∧
        ∀ write, .row ref write ∈ writes → write.Keeps ItemRow.Unclosed) :
    (store.writeAll writes).ClosedCoherent := by
  intro ref after left
  rw [row_writeAll] at left
  obtain keeps | ⟨⟨row, found, status⟩, keeps⟩ := each ref
  · exact foldl_keeps (fun write member => keeps write (mem_onRow.mp member)) (coherent ref) left
  · refine (foldl_keeps (fun write member => keeps write (mem_onRow.mp member)) (fun stored here => ?_) left).coherent
    obtain rfl : row = stored := Option.some.inj (found.symm.trans here)
    exact (coherent ref row found).unclosed status

theorem closedCoherent_cons_iff {target : ItemRef}
    {leases : List LifecycleWrite} (found : store.row target = some row)
    (unwritten : ∀ ref, leases.flatMap (onRow ref) = []) :
    (store.writeAll (.row target (.patch clauses) :: leases)).ClosedCoherent ↔ (clauses.apply row).ClosedCoherent := by
  have after (ref : ItemRef) : (store.writeAll (.row target (.patch clauses) :: leases)).row ref =
      if target = ref then some (clauses.apply row) else store.row ref := by
    rw [row_writeAll, onRow_cons _ (unwritten ref)]
    split
    · rename_i here
      rw [← here, found]
      rfl
    · rfl
  refine ⟨fun kept => kept target _ ((after target).trans (if_pos rfl)), fun patched ref stored left => ?_⟩
  rw [after] at left
  split at left
  · exact Option.some.inj left ▸ patched
  · exact coherent ref stored left

theorem claimIssue_closedCoherent (claimed : store.claimIssue config now rowLock id actor = .ok writes) :
    (store.writeAll writes).ClosedCoherent := by
  obtain rfl | ⟨oldIssue, _, _, ⟨row, found, _, claimable⟩, rfl⟩ := claimIssue_ok claimed
  · exact coherent
  have unclosed : row.status ≠ .closed := fun closed => by
    rw [closed] at claimable
    simp [LifecycleConfig.claimableSourceStatuses] at claimable
  rw [closedCoherent_cons_iff coherent found fun _ => grantLease_onRow]
  exact ItemRow.Unclosed.coherent ⟨nofun, ((coherent _ row found).unclosed unclosed).2⟩

theorem release_closedCoherent {oldIssue : ItemRow}
    (released : store.release now rowLock id oldIssue = .ok writes) : (store.writeAll writes).ClosedCoherent := by
  obtain ⟨⟨row, found, status⟩, rfl⟩ := release_ok released
  have unclosed : row.status ≠ .closed := fun closed => by
    rw [closed] at status
    exact absurd status nofun
  rw [closedCoherent_cons_iff coherent found fun _ => deleteLease_onRow]
  exact ItemRow.Unclosed.coherent ⟨nofun, ((coherent _ row found).unclosed unclosed).2⟩

theorem ClosedCoherent.setBoth {target : ItemRef} (both : ∀ row, (clauses.apply row).ClosedCoherent) :
    (store.writeAll (.row target (.patch clauses) :: store.deleteLease id)).ClosedCoherent := by
  refine coherent.writeAll fun ref => .inl fun write member => ?_
  rw [← mem_onRow, onRow_cons _ deleteLease_onRow, mem_ite_nil_right, mem_singleton] at member
  exact member.2 ▸ RowWrite.keeps_patch fun row _ => both row

theorem closeIssue_closedCoherent {reason session : String}
    (closed : store.closeIssue now rowLock id reason session = .ok writes) : (store.writeAll writes).ClosedCoherent := by
  obtain rfl | rfl := closeIssue_ok closed
  · exact coherent
  · exact coherent.setBoth fun row => iff_of_true rfl nofun

theorem reopenIssue_closedCoherent (reopened : store.reopenIssue config now rowLock id = .ok writes) :
    (store.writeAll writes).ClosedCoherent := by
  obtain rfl | rfl := reopenIssue_ok reopened
  · exact coherent
  · exact coherent.setBoth fun row => iff_of_false nofun fun stamped => stamped rfl

theorem reclaimExpiredLeases_closedCoherent {rowLock : Id → Nat} {cutoff : Nat} {filter : ReclaimFilter} :
    (store.writeAll (store.reclaimExpiredLeases config now rowLock cutoff filter)).ClosedCoherent := by
  refine coherent.writeAll fun ref => ?_
  by_cases listed : ref.plane = .issue ∧ ref.id ∈ store.staleLeases config cutoff filter
  · refine .inr ⟨?_, fun write member => ?_⟩
    · obtain ⟨⟨stale, lease⟩, member, same⟩ := mem_map.mp listed.2
      obtain ⟨_, tested⟩ := mem_filter.mp member
      obtain ⟨row, found, status⟩ := (any_eq_true _ _).mp (Bool.and_eq_true_iff.mp tested).2
      have progress : row.status = .inProgress := beq_iff_eq.mp (Bool.and_eq_true_iff.mp status).1
      refine ⟨row, ?_, fun closed => absurd (progress.symm.trans closed) nofun⟩
      rw [← found, ← listed.1]
      subst same
      rfl
    · obtain ⟨stale, _, here⟩ := mem_flatMap.mp member
      cases (mem_pair.mp here).resolve_left nofun
      exact RowWrite.keeps_patch fun row before => ⟨nofun, before.2⟩
  · refine .inl fun write member => ?_
    obtain ⟨stale, due, here⟩ := mem_flatMap.mp member
    cases (mem_pair.mp here).resolve_left nofun
    exact absurd ⟨rfl, due⟩ listed

theorem deleteIssues_closedCoherent {ids : List Id} :
    (store.writeAll (store.deleteIssues ids)).ClosedCoherent := by
  refine coherent.writeAll fun ref => .inl fun write member => ?_
  obtain ⟨id, _, here⟩ := mem_flatMap.mp member
  split at here
  · cases mem_singleton.mp here
    exact RowWrite.keeps_delete
  · obtain row | lease := mem_append.mp here
    · cases mem_singleton.mp (mem_ite_nil_right.mp row).2
      exact RowWrite.keeps_delete
    · cases mem_singleton.mp (mem_ite_nil_right.mp lease).2

theorem renewLease_closedCoherent {refusal : Option LifecycleError}
    (renewed : store.renewLease config now rowLock id actor = .ok (writes, refusal)) : (store.writeAll writes).ClosedCoherent :=
  coherent.writeAll fun _ => .inl fun write member =>
    renewLease_onRow renewed write (mem_onRow.mpr member) ▸ RowWrite.keeps_patch fun _ before => before

end

end LifecycleStore

namespace TimeValue

variable {value : TimeValue}

theorem stored_of_clears (clears : value.clearsClosedAt = true) : value.stored = none := by
  cases value with
  | nil => rfl
  | pointer time => exact isNone_iff_eq_none.mp clears
  | time time | other stored => cases clears

theorem matchesTimePointer_none : value.matchesTimePointer none = value.clearsClosedAt := by
  cases value with
  | pointer time => cases time <;> rfl
  | _ => rfl

end TimeValue

namespace IssueUpdates

variable {updates : IssueUpdates} {id : Id} {oldIssue row : ItemRow} {now rowLock : Nat} {status : Status} {value : TimeValue}

theorem validateClosedAtCoherence_ok (valid : updates.validateClosedAtCoherence id oldIssue = .ok ())
    (given : updates.closedAt = some value) (landed : updates.landedStatus oldIssue = some status) :
    status = .closed ↔ value.clearsClosedAt = false := by
  rw [validateClosedAtCoherence, given, landed] at valid
  dsimp only at valid
  split at valid
  · cases valid
  rename_i kept
  split at valid
  · cases valid
  rename_i unset
  simp only [Bool.and_eq_true, decide_eq_true_eq, not_and, bne_iff_ne, Bool.not_eq_true',
    Bool.not_eq_true, Bool.not_eq_false] at kept unset
  refine ⟨kept, fun stamped => ?_⟩
  by_contra opened
  exact Bool.false_ne_true (stamped.symm.trans (unset opened))

theorem newStatus_discardNoop (changed : (updates.discardNoop oldIssue).newStatus = some status) :
    updates.landedStatus oldIssue = some status ∧ oldIssue.status ≠ status := by
  simp only [newStatus, discardNoop] at changed
  split at changed
  · rename_i readable filtered
    obtain ⟨given, differs⟩ := filter_eq_some_iff.mp filtered
    cases changed
    exact ⟨by rw [landedStatus, given], by simpa [matchesStatus] using differs⟩
  · cases changed

/-- When an update of the routed row, judged on the row that was read, leaves a close time with a
closed status only: closing with a given time, if one is stored of it; leaving another status for
one that is not closed, unless only the routed row was closed; and setting the time alone, if what
is stored fits the routed row. -/
def KeepsClosedAt (updates : IssueUpdates) (oldIssue row : ItemRow) : Prop :=
  match (updates.discardNoop oldIssue).newStatus with
  | some .closed => ∀ value, updates.closedAt = some value → value.stored ≠ none
  | some _ => oldIssue.status = .closed ∨ row.status ≠ .closed
  | none => ∀ value, (updates.discardNoop oldIssue).closedAt = some value → (row.status = .closed ↔ value.stored ≠ none)

theorem closedAt_discardNoop (unstamped : oldIssue.closedAt = none) :
    (updates.discardNoop oldIssue).closedAt = updates.closedAt.filter fun value => !value.clearsClosedAt := by
  rw [discardNoop, unstamped]
  simp only [TimeValue.matchesTimePointer_none]

section Clauses

variable (coherent : oldIssue.ClosedCoherent) (valid : updates.validateClosedAtCoherence id oldIssue = .ok ())

include coherent valid

theorem setClauses_closes (changed : (updates.discardNoop oldIssue).newStatus = some .closed) :
    (((updates.discardNoop oldIssue).setClauses oldIssue now rowLock).apply row).ClosedCoherent ↔
      ∀ value, updates.closedAt = some value → value.stored ≠ none := by
  obtain ⟨landed, differs⟩ := newStatus_discardNoop changed
  have filtered : (updates.discardNoop oldIssue).closedAt = _ := closedAt_discardNoop (coherent.unclosed differs).2
  simp only [ItemRow.ClosedCoherent, RowPatch.apply, setClauses, closeDefault, changed, getD_some, true_iff]
  cases given : updates.closedAt with
  | none =>
    rw [given] at filtered
    simp [filtered]
  | some value =>
    have stamps := (validateClosedAtCoherence_ok valid given landed).mp rfl
    rw [given, filter_some, stamps] at filtered
    simp [filtered]

theorem setClauses_leaves (changed : (updates.discardNoop oldIssue).newStatus = some status) (opened : status ≠ .closed)
    (routed : row.ClosedCoherent) :
    (((updates.discardNoop oldIssue).setClauses oldIssue now rowLock).apply row).ClosedCoherent ↔
      oldIssue.status = .closed ∨ row.status ≠ .closed := by
  obtain ⟨landed, _⟩ := newStatus_discardNoop changed
  have cleared (value : TimeValue) (given : updates.closedAt = some value) : value.clearsClosedAt = true :=
    (Bool.not_eq_false _).mp fun stamps => opened ((validateClosedAtCoherence_ok valid given landed).mpr stamps)
  simp only [ItemRow.ClosedCoherent, RowPatch.apply, setClauses, closeDefault, changed, getD_some, opened, false_iff]
  by_cases closed : oldIssue.status = .closed
  · -- reopened: the time is cleared by the caller or by default
    simp only [closed, if_true, true_or, iff_true, not_not]
    cases given : (updates.discardNoop oldIssue).closedAt with
    | none => simp [opened]
    | some value => exact TimeValue.stored_of_clears (cleared value (filter_eq_some_iff.mp given).1)
  · -- the caller can only have restated that there is no time, so the column is left alone
    have filtered : (updates.discardNoop oldIssue).closedAt = none := by
      rw [closedAt_discardNoop (coherent.unclosed closed).2, filter_eq_none_iff]
      intro value given
      simp [cleared value given]
    simp only [filtered, closed, opened, map_none, if_false, getD_none, false_or]
    exact not_congr routed.symm

omit coherent valid in
theorem setClauses_restates (unchanged : (updates.discardNoop oldIssue).newStatus = none) (routed : row.ClosedCoherent) :
    (((updates.discardNoop oldIssue).setClauses oldIssue now rowLock).apply row).ClosedCoherent ↔
      ∀ value, (updates.discardNoop oldIssue).closedAt = some value → (row.status = .closed ↔ value.stored ≠ none) := by
  simp only [ItemRow.ClosedCoherent, RowPatch.apply, setClauses, closeDefault, unchanged, getD_none]
  cases (updates.discardNoop oldIssue).closedAt with
  | none => simpa [ItemRow.ClosedCoherent] using routed
  | some value => simp

theorem setClauses_closedCoherent_iff (routed : row.ClosedCoherent) :
    (((updates.discardNoop oldIssue).setClauses oldIssue now rowLock).apply row).ClosedCoherent ↔
      updates.KeepsClosedAt oldIssue row := by
  rw [KeepsClosedAt]
  split
  · exact setClauses_closes coherent valid ‹_›
  · rename_i opened changed
    exact setClauses_leaves coherent valid changed opened routed
  · exact setClauses_restates ‹_› routed

end Clauses

end IssueUpdates

def LifecycleVerb.KeepsClosedAt (store : LifecycleStore) : LifecycleVerb → Prop
  | .update id updates _ => ∀ oldIssue row, store.getIssue id = some oldIssue →
      store.row (store.routed id) = some row → updates.KeepsClosedAt oldIssue row
  | _ => True

open LifecycleStore

theorem LifecycleStore.updateIssue_closedCoherent_iff {store : LifecycleStore}
    {config : LifecycleConfig} {now rowLock : Nat} {id : Id}
    {updates : IssueUpdates} {refuses : Bool} {writes : List LifecycleWrite} (coherent : store.ClosedCoherent)
    (updated : store.updateIssue config now rowLock id updates refuses = .ok writes) :
    (store.writeAll writes).ClosedCoherent ↔ (LifecycleVerb.update id updates refuses).KeepsClosedAt store := by
  obtain ⟨oldIssue, read, valid, outcome⟩ := updateIssue_ok updated
  obtain ⟨row, found⟩ := routed_row read
  have judged : (LifecycleVerb.update id updates refuses).KeepsClosedAt store ↔ updates.KeepsClosedAt oldIssue row := by
    simp [LifecycleVerb.KeepsClosedAt, read, found]
  have readCoherent : oldIssue.ClosedCoherent := by
    rw [getIssue, or_eq_some_iff] at read
    exact read.elim (coherent _ _) fun wisp => coherent _ _ wisp.2
  rw [judged]
  obtain ⟨empty, rfl⟩ | ⟨_, rfl⟩ := outcome
  · have same : updates.discardNoop oldIssue = {} := beq_iff_eq.mp empty
    refine iff_of_true coherent ?_
    simp [IssueUpdates.KeepsClosedAt, same, IssueUpdates.newStatus]
  · rw [closedCoherent_cons_iff coherent found fun _ => ?_]
    · exact IssueUpdates.setClauses_closedCoherent_iff readCoherent valid (coherent _ _ found)
    · split
      · exact deleteLease_onRow
      · rfl

/-- A verb that succeeds on a store whose close times go with closed statuses leaves such a store
exactly under the condition, which only the generic update can miss. -/
theorem LifecycleTask.execute_closedCoherent_iff {config : LifecycleConfig} {task : LifecycleTask} {store : LifecycleStore}
    {writes : List LifecycleWrite} (coherent : store.ClosedCoherent) (executed : task.execute config store = .ok writes) :
    (store.writeAll writes).ClosedCoherent ↔ task.verb.KeepsClosedAt store := by
  obtain ⟨verb, now, rowLock⟩ := task
  cases verb with
  | update id updates refuses => exact updateIssue_closedCoherent_iff coherent executed
  | claim id actor => exact iff_of_true (claimIssue_closedCoherent coherent executed) trivial
  | unclaim id actor force =>
    obtain ⟨oldIssue, released⟩ := unclaimIssue_ok executed
    exact iff_of_true (release_closedCoherent coherent released) trivial
  | unclaimIfAssignee id expected =>
    obtain ⟨oldIssue, released⟩ := unclaimIssueIfAssignee_ok executed
    exact iff_of_true (release_closedCoherent coherent released) trivial
  | close id reason session => exact iff_of_true (closeIssue_closedCoherent coherent executed) trivial
  | reopen id => exact iff_of_true (reopenIssue_closedCoherent coherent executed) trivial
  | renewLease id actor =>
    obtain ⟨⟨renewed, refusal⟩, found, rfl⟩ := map_eq_ok executed
    exact iff_of_true (renewLease_closedCoherent coherent found) trivial
  | reclaim cutoff filter =>
    exact iff_of_true (Except.ok.inj executed ▸ reclaimExpiredLeases_closedCoherent coherent) trivial
  | delete ids => exact iff_of_true (Except.ok.inj executed ▸ deleteIssues_closedCoherent coherent) trivial

def LifecycleStore.finished : LifecycleStore where
  items
    | .issue => { entries := [("bd-1", { status := .closed, closedAt := some 5 })] }
    | .wisp => {}
  leases := {}

theorem LifecycleStore.finished_closedCoherent : finished.ClosedCoherent := by
  intro ref row found
  obtain ⟨plane, id⟩ := ref
  cases plane with
  | wisp => cases found
  | issue =>
    have listed : (id, row) = ("bd-1", _) := mem_singleton.mp (KeyedTable.get?_eq_some.mp found)
    rw [(Prod.mk.inj listed).2]
    exact iff_of_true rfl nofun

theorem LifecycleTask.corrected_closedCoherent :
    ∃ writes, LifecycleTask.execute {} ⟨.update "bd-1"
      { closedAt := some (.time 7) } false, 10, fun _ => 1⟩ finished = .ok writes ∧
      (finished.writeAll writes).ClosedCoherent := by
  have succeeds : ∃ writes,
      LifecycleTask.execute {} ⟨.update "bd-1"
        { closedAt := some (.time 7) } false, 10, fun _ => 1⟩ finished = .ok writes := ⟨_, rfl⟩
  obtain ⟨writes, executed⟩ := succeeds
  refine ⟨writes, executed, (execute_closedCoherent_iff finished_closedCoherent executed).mpr fun oldIssue row read found => ?_⟩
  cases read
  cases found
  intro value given
  cases given
  exact iff_of_true rfl nofun

/-- The close time of a closed issue is set to a nil pointer of another type than `*time.Time`. -/
theorem LifecycleTask.foreignNil_clears : finished.ClosedCoherent ∧
    ∃ writes, LifecycleTask.execute {} ⟨.update "bd-1"
      { closedAt := some (.other none) } false, 10, fun _ => 1⟩ finished = .ok writes ∧
      ¬ (finished.writeAll writes).ClosedCoherent := by
  refine ⟨finished_closedCoherent, _, rfl, fun coherent => ?_⟩
  have stamped := (coherent ⟨.issue, "bd-1"⟩ _ rfl).mp rfl
  exact stamped rfl

end Beads
