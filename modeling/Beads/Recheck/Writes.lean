import Beads.Data.SnapshotTransactions
import Beads.Deletion.Delete
import Beads.Dependencies.Edit
import Beads.Status.Change

/-! A write that takes a blocker away recomputes the items it affects on its own snapshot and
records them. Once it has committed, a second transaction recomputes the recorded items on a fresh
snapshot. Transactions conflict on the cells they write; an item's row and its status columns,
`row_lock` among them, are taken together. -/

namespace Beads

open SnapshotTransactions

abbrev InactiveStatus := {status : Status // status.active = false}

structure BlockedRecheck where
  issueIds : List Id := []
  wispIds : List Id := []
  issuesDistinct : issueIds.Nodup := by decide
  wispsDistinct : wispIds.Nodup := by decide
  deriving DecidableEq

def appendRecheckIds (pending ids exclude : List Id) : List Id :=
  ids.foldl (fun pending id => if pending.contains id || exclude.contains id then pending else pending ++ [id]) pending

theorem appendRecheckIds_nodup {pending : List Id} (ids exclude : List Id)
    (distinct : pending.Nodup) : (appendRecheckIds pending ids exclude).Nodup := by
  induction ids generalizing pending with
  | nil => exact distinct
  | cons id rest ih =>
    rw [appendRecheckIds, List.foldl_cons]
    split
    · exact ih distinct
    · rename_i fresh
      simp only [Bool.or_eq_true, List.contains_iff_mem, not_or] at fresh
      exact ih (List.nodup_append.mpr ⟨distinct, List.nodup_singleton id, by simpa using fun _ member => by grind⟩)

theorem mem_appendRecheckIds {pending ids exclude : List Id} {id : Id} :
    id ∈ appendRecheckIds pending ids exclude ↔ id ∈ pending ∨ id ∈ ids ∧ id ∉ exclude := by
  induction ids generalizing pending with
  | nil => simp [appendRecheckIds]
  | cons first rest ih =>
    rw [appendRecheckIds, List.foldl_cons]
    refine ih.trans ?_
    split <;> rename_i known <;> simp only [Bool.or_eq_true, List.contains_iff_mem] at known <;> grind

namespace BlockedRecheck

def note (pending : BlockedRecheck) (exclude : List Id) (affected : Seeds) : BlockedRecheck where
  issueIds := appendRecheckIds pending.issueIds (affected.queue .issue) exclude
  wispIds := appendRecheckIds pending.wispIds (affected.queue .wisp) exclude
  issuesDistinct := appendRecheckIds_nodup _ _ pending.issuesDistinct
  wispsDistinct := appendRecheckIds_nodup _ _ pending.wispsDistinct

variable (recheck : BlockedRecheck)

def isEmpty : Bool := recheck.issueIds.isEmpty && recheck.wispIds.isEmpty

def seeds : Seeds := .start (idsOf recheck.issueIds recheck.wispIds)

def listed : Set ItemRef := recheck.seeds.listed

end BlockedRecheck

inductive UnblockingWrite where
  | close (id : Id)
  | updateStatus (id : Id) (status : InactiveStatus)
  | removeDependency (issueId dependsOnId : Id)
  | delete (ids : List Id)

inductive TableChange where
  | none
  | setStatus (ref : ItemRef) (status : InactiveStatus)
  | deleteDependency (plane : Plane) (row : Dependency)
  | deleteItems (deletedIssues deletedWisps : List Id)
  deriving DecidableEq

def TableChange.apply (tables : Tables) : TableChange → Tables
  | .none => tables
  | .setStatus ref status => tables.setStatus ref status
  | .deleteDependency plane row => tables.deleteDependency plane row.key
  | .deleteItems deletedIssues deletedWisps => tables.deleteItems deletedIssues deletedWisps

structure Edit where
  change : TableChange := .none
  affected : Seeds := .start fun _ => []
  exclude : List Id := []

namespace Tables

variable (tables : Tables)

def routed (id : Id) : ItemRef := ⟨tables.wispTableRouting id, id⟩

/-- An id that is missing or closed already is left alone. -/
def closeIssue (id : Id) : Edit :=
  let ref := tables.routed id
  if tables.hasStatus ref (· != .closed)
  then ⟨.setStatus ref ⟨.closed, rfl⟩, tables.affectedByStatusChangeIn ref.plane ref.id, [id]⟩ else {}

def updateIssueStatus (id : Id) (status : InactiveStatus) : Edit :=
  let ref := tables.routed id
  if tables.hasStatus ref (· != status.1) then
    if tables.active ref
    then ⟨.setStatus ref status, (tables.setStatus ref status).affectedByStatusChangeIn ref.plane ref.id, [id]⟩
    else { change := .setStatus ref status }
  else {}

def removeDependencyRow (issueId dependsOnId : Id) : Edit :=
  let source := tables.routed issueId
  match tables.existingDependency source.plane issueId dependsOnId with
  | none => {}
  | some row =>
    { change := .deleteDependency source.plane row
      affected := (tables.deleteDependency source.plane row.key).affectedByDepChangeOf source dependsOnId row.type }

def partitionWispIds (ids : List Id) : List Id × List Id :=
  (ids.filter fun id => !tables.isActiveWisp id, ids.filter tables.isActiveWisp)

def deleteIssues (ids : List Id) : Edit :=
  let split := tables.partitionWispIds ids
  ⟨.deleteItems split.1 split.2, tables.affectedByDeletion split.1 split.2, ids⟩

def edit : UnblockingWrite → Edit
  | .close id => tables.closeIssue id
  | .updateStatus id status => tables.updateIssueStatus id status
  | .removeDependency issueId dependsOnId => tables.removeDependencyRow issueId dependsOnId
  | .delete ids => tables.deleteIssues ids

end Tables

inductive Cell where
  | row (ref : ItemRef)
  | status (ref : ItemRef)
  | isBlocked (ref : ItemRef)
  | dependency (plane : Plane) (key : Id × Id)
  deriving DecidableEq

def Cell.item : Cell → Option ItemRef
  | .row ref => some ref
  | .status ref => some ref
  | .isBlocked ref => some ref
  | .dependency _ _ => none

/-- A deleted row takes every cell of its item with it. -/
def Cell.clash : Cell → Cell → Bool
  | .row ref, theirs => theirs.item == some ref
  | ours, .row ref => ours.item == some ref
  | ours, theirs => ours == theirs

/-- The cells of the rows and columns that the change writes, the `is_blocked` column apart. -/
def TableChange.cells (tables : Tables) : TableChange → List Cell
  | .none => []
  | .setStatus ref _ => [.status ref]
  | .deleteDependency plane row => [.dependency plane row.key]
  | .deleteItems deletedIssues deletedWisps =>
    (tables.refs.filter (Tables.isDeleted deletedIssues deletedWisps)).map Cell.row ++ planes.flatMap fun plane =>
      ((tables.dependencies plane).filter fun row => !Tables.spared deletedIssues deletedWisps plane row).map fun row =>
        Cell.dependency plane row.key

/-- What a transaction writes: its change of the tables and the bits it flips. -/
structure Effect where
  change : TableChange
  flips : List (ItemRef × Bool)
  cells : List Cell
  recheck : BlockedRecheck

def Tables.flips (tables : Tables) (before after : Bits) : List (ItemRef × Bool) :=
  (tables.refs.filter fun ref => after ref != before ref).map fun ref => (ref, after ref)

/-- A transaction on its snapshot: the edit, and the recompute of what it affects. -/
def Store.transact (store : Store) (session : Session) (edit : Edit) : Option Effect :=
  let changed := edit.change.apply store.toTables
  (changed.recomputeSeeds session false edit.affected store.isBlocked).map fun bits =>
    let flips := changed.flips store.isBlocked bits
    ⟨edit.change, flips, edit.change.cells store.toTables ++ flips.map fun flip =>
      .isBlocked flip.1, BlockedRecheck.note {} edit.exclude edit.affected⟩

inductive Task where
  | write (action : UnblockingWrite)
  | recheck (pending : BlockedRecheck)

namespace Task

def listed : Task → Set ItemRef
  | .write _ => ∅
  | .recheck pending => pending.listed

def execute (session : Session) (store : Store) : Task → Option Effect
  | .write action => store.transact session (store.edit action)
  | .recheck pending => (store.transact session { affected := pending.seeds }).map fun effect =>
    { effect with recheck := {} }

end Task

namespace Effect

def bits (effect : Effect) (bits : Bits) : Bits :=
  fun ref => (effect.flips.lookup ref).getD (bits ref)

def install (effect : Effect) (store : Store) : Store :=
  ⟨effect.change.apply store.toTables, effect.bits store.isBlocked⟩

def followUp (effect : Effect) : List Task := if effect.recheck.isEmpty then [] else [.recheck effect.recheck]

end Effect

def recheckProtocol (session : Session) : Protocol Store Task Effect Cell where
  execute task store := task.execute session store
  install := Effect.install
  cells := Effect.cells
  clash := Cell.clash
  followUp := Effect.followUp

def Store.concurrently (store : Store) (writes : List UnblockingWrite) : System Store Task Cell where
  head := store
  waiting := writes.map Task.write

end Beads
