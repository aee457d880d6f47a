import Beads.Data.Fallible
import Beads.Lifecycle.Verbs

namespace Beads

open Fallible LifecycleStore List

namespace LifecycleStore

variable {store : LifecycleStore} {config : LifecycleConfig} {now rowLock : Nat} {id : Id}
  {actor : String} {writes : List LifecycleWrite}

theorem routed_issue (durable : store.isActiveWisp id = false) : store.routed id = ⟨.issue, id⟩ := by
  rw [routed, wispTableRouting, durable]
  rfl

theorem routed_wisp (active : store.isActiveWisp id = true) : store.routed id = ⟨.wisp, id⟩ := by
  rw [routed, wispTableRouting, active]
  rfl

variable {oldIssue : ItemRow}

theorem getIssue_durable (durable : store.isActiveWisp id = false)
    (read : store.getIssue id = some oldIssue) : store.row ⟨.issue, id⟩ = some oldIssue := by
  have absent : store.row ⟨.wisp, id⟩ = none := by simpa [isActiveWisp] using durable
  rwa [getIssue, absent, Option.or_none] at read

theorem routed_row (read : store.getIssue id = some oldIssue) : ∃ row, store.row (store.routed id) = some row := by
  cases durable : store.isActiveWisp id with
  | false =>
    rw [routed_issue durable]
    exact ⟨oldIssue, getIssue_durable durable read⟩
  | true =>
    rw [routed_wisp durable]
    exact Option.isSome_iff_exists.mp durable

theorem claimIssue_ok (claimed : store.claimIssue config now rowLock id actor = .ok writes) :
    writes = [] ∨ ∃ oldIssue, store.getIssue id = some oldIssue ∧ assigneeOK config oldIssue actor = true ∧
      (∃ row, store.row (store.routed id) = some row ∧ row.rowLock = oldIssue.rowLock ∧
        row.status ∈ config.claimableSourceStatuses) ∧
      writes = .row (store.routed id) (.patch (claimPatch now rowLock oldIssue actor)) ::
        store.grantLease config now id actor := by
  simp only [claimIssue] at claimed
  split at claimed
  · cases claimed
  split at claimed
  · rename_i oldIssue row read found
    split_ifs at claimed with matched
    · simp only [claimMatches, read, Option.any_some, Option.any_eq_true, Bool.and_eq_true,
        beq_iff_eq, contains_iff_mem] at matched
      exact .inr ⟨oldIssue, read, matched.1, matched.2, (Except.ok.inj claimed).symm⟩
    · exact .inl (Except.ok.inj claimed).symm
  · cases claimed

theorem release_ok (released : store.release now rowLock id oldIssue = .ok writes) :
    (∃ row, store.row (store.routed id) = some row ∧ (row.status = .opened ∨ row.status = .inProgress)) ∧
      writes = .row (store.routed id) (.patch (releasePatch now rowLock)) :: store.deleteLease id := by
  simp only [release] at released
  split at released
  · rename_i matched
    obtain ⟨row, found, holds⟩ := (Option.any_eq_true _ _).mp matched
    exact ⟨⟨row, found, by simpa using (Bool.and_eq_true_iff.mp holds).1⟩, (Except.ok.inj released).symm⟩
  · cases released

theorem unclaimIssue_ok {force : Bool} (released : store.unclaimIssue now rowLock id actor force = .ok writes) :
    ∃ oldIssue, store.release now rowLock id oldIssue = .ok writes := by
  simp only [unclaimIssue] at released
  split at released
  · cases released
  · split_ifs at released
    exact ⟨_, released⟩

theorem unclaimIssueIfAssignee_ok {expected : String}
    (released : store.unclaimIssueIfAssignee now rowLock id expected = .ok writes) :
    ∃ oldIssue, store.release now rowLock id oldIssue = .ok writes := by
  simp only [unclaimIssueIfAssignee] at released
  split_ifs at released
  split at released
  · cases released
  · split_ifs at released
    exact ⟨_, released⟩

theorem closeIssue_ok {reason session : String} (closed : store.closeIssue now rowLock id reason session = .ok writes) :
    writes = [] ∨ writes = .row (store.routed id) (.patch (closePatch now rowLock reason session)) :: store.deleteLease id := by
  simp only [closeIssue] at closed
  split at closed
  · cases closed
  · split_ifs at closed
    · exact .inl (Except.ok.inj closed).symm
    · exact .inr (Except.ok.inj closed).symm

theorem reopenIssue_ok (reopened : store.reopenIssue config now rowLock id = .ok writes) :
    writes = [] ∨ writes = .row (store.routed id) (.patch (reopenPatch now rowLock)) :: store.deleteLease id := by
  simp only [reopenIssue] at reopened
  split at reopened
  · cases reopened
  · split_ifs at reopened
    · exact .inl (Except.ok.inj reopened).symm
    · exact .inr (Except.ok.inj reopened).symm

theorem updateIssue_ok {updates : IssueUpdates} {refuses : Bool}
    (updated : store.updateIssue config now rowLock id updates refuses = .ok writes) :
    ∃ oldIssue, store.getIssue id = some oldIssue ∧ updates.validateClosedAtCoherence id oldIssue =
      .ok () ∧ ((updates.discardNoop oldIssue).isEmpty = true ∧ writes = [] ∨
        (updates.discardNoop oldIssue).check config id oldIssue refuses = .ok () ∧
        writes = .row (store.routed id) (.patch ((updates.discardNoop oldIssue).setClauses oldIssue now rowLock)) ::
          if (updates.discardNoop oldIssue).manageLeaseOnUpdate oldIssue then store.deleteLease id else []) := by
  simp only [updateIssue] at updated
  split at updated
  · cases updated
  · rename_i oldIssue read
    obtain ⟨_, coherent, rest⟩ := bind_eq_ok updated
    refine ⟨oldIssue, read, coherent, ?_⟩
    split at rest
    · rename_i empty
      exact .inl ⟨empty, (Except.ok.inj rest).symm⟩
    · obtain ⟨_, checked, same⟩ := bind_eq_ok rest
      exact .inr ⟨checked, (Except.ok.inj same).symm⟩

theorem renewLease_ok {refusal : Option LifecycleError}
    (renewed : store.renewLease config now rowLock id actor = .ok (writes, refusal)) :
    ∃ rest, writes = store.renewHeld config now id actor ++ rest ∧ (rest = [] ∨ rest = store.deleteOrphan id actor ∨
      ∃ row, store.row ⟨.issue, id⟩ = some row ∧ actorMatches row.holder actor = true ∧
        row.status = .inProgress ∧ rest = store.renewClaimed config now rowLock id actor) := by
  simp only [renewLease] at renewed
  split_ifs at renewed
  · exact ⟨[], by simpa using (Prod.mk.inj (Except.ok.inj renewed)).1.symm, .inl rfl⟩
  split at renewed
  · cases renewed
  · rename_i row found
    split_ifs at renewed with stranger claimed
    · exact ⟨_, (Prod.mk.inj (Except.ok.inj renewed)).1.symm, .inr (.inl rfl)⟩
    · simp only [Bool.and_eq_true, Bool.not_eq_true', beq_iff_eq] at claimed
      rw [routed_issue claimed.1.1] at found
      exact ⟨_, (Prod.mk.inj (Except.ok.inj renewed)).1.symm, .inr (.inr ⟨row, found, claimed.1.2, claimed.2, rfl⟩)⟩
    · exact ⟨_, (Prod.mk.inj (Except.ok.inj renewed)).1.symm, .inr (.inl rfl)⟩

end LifecycleStore

def RowWrite.on : RowWrite → Option ItemRow → Option ItemRow
  | .patch clauses, row => row.map clauses.apply
  | .delete, _ => none

def LeaseWrite.on : LeaseWrite → Option Lease → Option Lease
  | .insert lease, _ => some lease
  | .regrant lease, stored => stored.map fun _ => lease
  | .refresh leaseExpiresAt heartbeatAt grantedNode holder, stored =>
    stored.map fun lease => lease.refreshed leaseExpiresAt heartbeatAt grantedNode holder
  | .delete, _ => none

def LeaseWrite.quiet : LeaseWrite → Bool
  | .refresh _ _ _ none => true
  | .delete => true
  | _ => false

namespace LifecycleWrite

def onRow (ref : ItemRef) : LifecycleWrite → List RowWrite
  | .row other write => if other = ref then [write] else []
  | .lease _ _ => []

def onLease (id : Id) : LifecycleWrite → List LeaseWrite
  | .row _ _ => []
  | .lease other write => if other = id then [write] else []

variable {writes : List LifecycleWrite}

theorem mem_onRow {ref : ItemRef} {write : RowWrite} : write ∈ writes.flatMap (onRow ref) ↔ .row ref write ∈ writes := by
  refine mem_flatMap.trans ⟨fun ⟨source, listed, here⟩ => ?_, fun listed => ⟨_, listed, by simp [onRow]⟩⟩
  cases source with
  | lease id other => cases here
  | row target other =>
    obtain ⟨rfl, same⟩ := mem_ite_nil_right.mp here
    exact mem_singleton.mp same ▸ listed

theorem mem_onLease {id : Id} {write : LeaseWrite} : write ∈ writes.flatMap (onLease id) ↔ .lease id write ∈ writes := by
  refine mem_flatMap.trans ⟨fun ⟨source, listed, here⟩ => ?_, fun listed => ⟨_, listed, by simp [onLease]⟩⟩
  cases source with
  | row ref other => cases here
  | lease target other =>
    obtain ⟨rfl, same⟩ := mem_ite_nil_right.mp here
    exact mem_singleton.mp same ▸ listed

end LifecycleWrite

open LifecycleWrite

namespace LifecycleStore

variable {store : LifecycleStore} {ref : ItemRef} {id : Id}

theorem row_setItems {plane : Plane} {table : KeyedTable Id ItemRow} :
    (store.setItems plane table).row ref = if ref.plane = plane then table.get? ref.id else store.row ref := by
  simp only [row, setItems, Function.update_apply]
  split <;> rfl

theorem row_write (write : LifecycleWrite) :
    (store.write write).row ref = (write.onRow ref).foldl (fun row write => write.on row) (store.row ref) := by
  cases write with
  | lease other write => cases write <;> rfl
  | row other write =>
    by_cases own : other = ref
    · subst own
      have stored : store.row other = (store.items other.plane).get? other.id := rfl
      cases write <;> simp [write, row_setItems, LifecycleWrite.onRow, RowWrite.on, stored]
    · have apart : ref.plane = other.plane → ref.id ≠ other.id := by
        intro plane id
        cases ref
        cases other
        simp_all
      cases write <;>
        simp only [write, row_setItems, LifecycleWrite.onRow, own, if_false, foldl_nil] <;>
        split <;> simp_all [row]

theorem lease_write (write : LifecycleWrite) :
    (store.write write).leases.get? id = (write.onLease id).foldl (fun lease write => write.on lease) (store.leases.get? id) := by
  cases write with
  | row other write => cases write <;> rfl
  | lease other write =>
    by_cases own : other = id
    · subst own
      cases write <;> simp [write, LifecycleWrite.onLease, LeaseWrite.on]
    · cases write <;> simp [write, LifecycleWrite.onLease, own, Ne.symm own]

theorem row_writeAll (writes : List LifecycleWrite) : (store.writeAll writes).row ref =
    (writes.flatMap (onRow ref)).foldl (fun row write => write.on row) (store.row ref) := by
  induction writes generalizing store with
  | nil => rfl
  | cons first rest ih => rw [writeAll, foldl_cons, ← writeAll, ih, row_write, flatMap_cons, foldl_append]

theorem lease_writeAll (writes : List LifecycleWrite) : (store.writeAll writes).leases.get? id =
    (writes.flatMap (onLease id)).foldl (fun lease write => write.on lease) (store.leases.get? id) := by
  induction writes generalizing store with
  | nil => rfl
  | cons first rest ih => rw [writeAll, foldl_cons, ← writeAll, ih, lease_write, flatMap_cons, foldl_append]

variable {config : LifecycleConfig} {now : Nat} {actor : String} {target : ItemRef} {leases : List LifecycleWrite}

theorem deleteLease_onRow : (store.deleteLease id).flatMap (onRow ref) = [] := by
  rw [deleteLease]
  split <;> rfl

theorem grantLease_onRow : (store.grantLease config now id actor).flatMap (onRow ref) = [] := by
  rw [grantLease]
  split <;> rfl

/-- The writes are on the lease alone, and none of them grants it or names another holder. -/
def QuietOn (id : Id) (writes : List LifecycleWrite) : Prop :=
  ∃ held : List LeaseWrite, writes = held.map (.lease id) ∧ ∀ write ∈ held, write.quiet = true

theorem QuietOn.nil : QuietOn id [] := ⟨[], rfl, nofun⟩

theorem QuietOn.single {write : LeaseWrite} (quiet : write.quiet = true) : QuietOn id [.lease id write] :=
  ⟨[write], rfl, fun _ member => mem_singleton.mp member ▸ quiet⟩

theorem map_lease_onRow {ref : ItemRef} (held : List LeaseWrite) :
    (held.map (.lease id)).flatMap (onRow ref) = [] := by
  simp [flatMap_map, onRow]

theorem renewHeld_quiet (store : LifecycleStore) (config : LifecycleConfig) (now : Nat) (id : Id)
    (actor : String) : QuietOn id (store.renewHeld config now id actor) := by
  rw [renewHeld]
  split
  · split
    · exact .single rfl
    · exact .nil
  · exact .nil

theorem deleteOrphan_quiet (store : LifecycleStore) (id : Id) (actor : String) : QuietOn id (store.deleteOrphan id actor) := by
  rw [deleteOrphan]
  split
  · exact .nil
  split
  · split
    · exact .single rfl
    · exact .nil
  · exact .nil

theorem renewLease_onRow {rowLock : Nat} {writes : List LifecycleWrite} {refusal : Option LifecycleError}
    (renewed : store.renewLease config now rowLock id actor = .ok (writes, refusal)) :
    ∀ write ∈ writes.flatMap (onRow ref), write = .patch { updatedAt := now, rowLock } := by
  obtain ⟨held, renewed_held, _⟩ := renewHeld_quiet store config now id actor
  obtain ⟨orphaned, orphan, _⟩ := deleteOrphan_quiet store id actor
  have rearmed : ∀ write ∈ (store.rearm config now rowLock id actor).flatMap (onRow ref),
      write = .patch { updatedAt := now, rowLock } := by
    simp [rearm, upsertLease, onRow]
  intro write member
  obtain ⟨rest, rfl, outcome⟩ := renewLease_ok renewed
  rw [renewed_held, flatMap_append, map_lease_onRow, nil_append] at member
  obtain rfl | rfl | ⟨_, _, _, _, rfl⟩ := outcome
  · cases member
  · rw [orphan, map_lease_onRow] at member
    cases member
  · rw [renewClaimed] at member
    split at member
    · split at member
      · cases member
      · exact rearmed write member
    · exact rearmed write member

theorem onRow_cons (write : RowWrite) (unwritten : leases.flatMap (onRow ref) = []) :
    (.row target write :: leases).flatMap (onRow ref) = if target = ref then [write] else [] := by
  rw [flatMap_cons, unwritten, append_nil]
  rfl

end LifecycleStore

namespace LifecycleCell

open SnapshotTransactions

variable {ref : ItemRef} {writes : List LifecycleWrite}

def lock (ref : ItemRef) : LifecycleCell := .row ref (some .rowLock)

theorem rowLock_mem_columns (clauses : RowPatch) : .rowLock ∈ clauses.columns := by
  simp [RowPatch.columns]

theorem onRow_eq_nil (apart : ∀ theirs ∈ writes.flatMap written, (lock ref).clash theirs = false) :
    writes.flatMap (onRow ref) = [] := by
  refine eq_nil_iff_forall_not_mem.mpr fun write listed => ?_
  have clean (cell : LifecycleCell) (member : cell ∈ written (.row ref write)) :=
    apart cell (mem_flatMap_of_mem (mem_onRow.mp listed) member)
  cases write with
  | patch clauses =>
    have clash := clean (lock ref) (mem_map_of_mem (rowLock_mem_columns clauses))
    simp [lock, LifecycleCell.clash] at clash
  | delete =>
    have clash := clean _ (.head _)
    simp [lock, LifecycleCell.clash] at clash

theorem unwritten_lock {config : LifecycleConfig} {system : System LifecycleStore LifecycleTask LifecycleCell} {since : Nat}
    (free : system.conflicts (lifecycleProtocol config) since writes = false)
    (touched : writes.flatMap (onRow ref) ≠ []) :
    system.Unwritten (lifecycleProtocol config) since (lock ref) := by
  obtain ⟨write, member⟩ := exists_mem_of_ne_nil _ touched
  have listed := mem_onRow.mp member
  cases write with
  | patch clauses =>
    have own : lock ref ∈ written (.row ref (.patch clauses)) := mem_map_of_mem (rowLock_mem_columns clauses)
    exact System.unwritten_of_not_conflicts free (mem_flatMap_of_mem listed own)
  | delete =>
    have own : LifecycleCell.row ref none ∈ written (.row ref .delete) := mem_singleton_self _
    have whole := System.unwritten_of_not_conflicts free (mem_flatMap_of_mem listed own)
    -- what clashes with one cell of the row clashes with the row
    intro commit logged theirs member
    have apart := whole commit logged theirs member
    cases theirs with
    | lease id column => rfl
    | row their column =>
      have away : (ref == their) = false := by simpa [lifecycleProtocol, LifecycleCell.clash] using apart
      simp [lifecycleProtocol, lock, LifecycleCell.clash, away]

end LifecycleCell

end Beads
