import Beads.Data.KeyedTable
import Beads.Store.Types

/-! The columns of `issues` and `wisps` that say where an item is in its life and who holds it, and
the node's table of leases. -/

namespace Beads

def isSeparator (char : Char) : Bool := char == '.' || char == '_' || char == '-'

def separatorOf (run : List Char) : Char := if run == ['-', '-'] then '/' else '_'

def canonicalChars (run : List Char) : List Char → List Char
  | [] => if run.isEmpty then [] else [separatorOf run]
  | char :: rest =>
    if isSeparator char then canonicalChars (run ++ [char]) rest
    else (if run.isEmpty then [] else [separatorOf run]) ++ char :: canonicalChars [] rest

def canonicalActor (name : String) : String := String.ofList (canonicalChars [] name.toList)

def actorMatches (one other : String) : Bool :=
  one == other || canonicalActor one == canonicalActor other

theorem actorMatches_iff {one other : String} : actorMatches one other = true ↔ canonicalActor one = canonicalActor other := by
  rw [actorMatches, Bool.or_eq_true, beq_iff_eq, beq_iff_eq]
  exact or_iff_right_of_imp (congrArg canonicalActor)

theorem actorMatches_self (actor : String) : actorMatches actor actor = true :=
  actorMatches_iff.mpr rfl

inductive StatusCategory where
  | active
  | wip
  | done
  | frozen
  | unspecified
  deriving DecidableEq, Repr

def builtInStatusCategory : Status → StatusCategory
  | .opened => .active
  | .inProgress => .wip
  | .blocked => .wip
  | .hooked => .wip
  | .closed => .done
  | .deferred => .frozen
  | .pinned => .frozen
  | .custom _ => .unspecified

/-- What the node and the database configure. The name of a custom status
collides with no built-in one. -/
structure LifecycleConfig where
  customStatuses : List (String × StatusCategory) := []
  claimPools : List String := []
  leaseTTL : Nat := 300
  nodeId : String := ""
  validOthers : List (String × Option String) → Bool := fun _ => true

def maxFieldLen : Nat := 255

namespace LifecycleConfig

variable (config : LifecycleConfig)

def reopenCategory : Status → StatusCategory
  | .custom name => (config.customStatuses.lookup name).getD .unspecified
  | status => builtInStatusCategory status

def claimableSourceStatuses : List Status :=
  .opened :: (config.customStatuses.filter fun custom => custom.2 == .active).map fun custom => .custom custom.1

end LifecycleConfig

structure ItemRow where
  status : Status
  assignee : Option String := none
  startedAt : Option Nat := none
  closedAt : Option Nat := none
  closeReason : Option String := none
  closedBySession : Option String := none
  pinned : Bool := false
  fields : String → Option String := fun _ => none
  updatedAt : Nat := 0
  rowLock : Nat := 0

def ItemRow.holder (row : ItemRow) : String := row.assignee.getD ""

inductive RowColumn where
  | status
  | assignee
  | startedAt
  | closedAt
  | closeReason
  | closedBySession
  | pinned
  | field (name : String)
  | updatedAt
  | rowLock
  deriving DecidableEq, Repr

/-- The `SET` clauses of an update. Each stamps `updated_at` and draws a fresh lock token. -/
structure RowPatch where
  status : Option Status := none
  assignee : Option (Option String) := none
  startedAt : Option (Option Nat) := none
  closedAt : Option (Option Nat) := none
  closeReason : Option (Option String) := none
  closedBySession : Option (Option String) := none
  pinned : Option Bool := none
  fields : List (String × Option String) := []
  updatedAt : Nat
  rowLock : Nat

namespace RowPatch

variable (patch : RowPatch)

def apply (row : ItemRow) : ItemRow where
  status := patch.status.getD row.status
  assignee := patch.assignee.getD row.assignee
  startedAt := patch.startedAt.getD row.startedAt
  closedAt := patch.closedAt.getD row.closedAt
  closeReason := patch.closeReason.getD row.closeReason
  closedBySession := patch.closedBySession.getD row.closedBySession
  pinned := patch.pinned.getD row.pinned
  fields name := (patch.fields.lookup name).getD (row.fields name)
  updatedAt := patch.updatedAt
  rowLock := patch.rowLock

def columns : List RowColumn :=
  [column .status patch.status, column .assignee patch.assignee, column .startedAt patch.startedAt,
    column .closedAt patch.closedAt,
    column .closeReason patch.closeReason, column .closedBySession patch.closedBySession, column .pinned patch.pinned,
    patch.fields.map fun field => .field field.1, [.updatedAt, .rowLock]].flatten
where
  column {α : Type} (name : RowColumn) (clause : Option α) : List RowColumn := if clause.isSome then [name] else []

end RowPatch

structure Lease where
  holder : String
  grantedAt : Nat
  leaseExpiresAt : Nat
  heartbeatAt : Nat
  grantedNode : String := ""
  deriving DecidableEq, Repr

inductive LeaseColumn where
  | holder
  | grantedAt
  | leaseExpiresAt
  | heartbeatAt
  | grantedNode
  deriving DecidableEq, Repr

structure LifecycleStore where
  items : Plane → KeyedTable Id ItemRow
  leases : KeyedTable Id Lease

namespace LifecycleStore

variable (store : LifecycleStore)

def row (ref : ItemRef) : Option ItemRow := (store.items ref.plane).get? ref.id

def isActiveWisp (id : Id) : Bool := (store.row ⟨.wisp, id⟩).isSome

def wispTableRouting (id : Id) : Plane := if store.isActiveWisp id then .wisp else .issue

def routed (id : Id) : ItemRef := ⟨store.wispTableRouting id, id⟩

/-- The row a write reads: that of `issues` if there is one. -/
def getIssue (id : Id) : Option ItemRow := (store.row ⟨.issue, id⟩).or (store.row ⟨.wisp, id⟩)

end LifecycleStore

inductive RowWrite where
  | patch (clauses : RowPatch)
  | delete

inductive LeaseWrite where
  | insert (lease : Lease)
  | regrant (lease : Lease)
  | refresh (leaseExpiresAt heartbeatAt : Nat) (grantedNode : Option String) (holder : Option String)
  | delete

inductive LifecycleWrite where
  | row (ref : ItemRef) (write : RowWrite)
  | lease (id : Id) (write : LeaseWrite)

/-- A heartbeat moves the lease forward and fills in a node that is not known. -/
def Lease.refreshed (lease : Lease) (leaseExpiresAt heartbeatAt : Nat) (grantedNode holder : Option String) : Lease :=
  { lease with leaseExpiresAt, heartbeatAt, grantedNode := grantedNode.getD lease.grantedNode,
               holder := holder.getD lease.holder }

namespace LifecycleStore

variable (store : LifecycleStore)

def setItems (plane : Plane) (table : KeyedTable Id ItemRow) : LifecycleStore :=
  { store with items := Function.update store.items plane table }

def write : LifecycleWrite → LifecycleStore
  | .row ref (.patch clauses) => store.setItems ref.plane ((store.items ref.plane).modify ref.id clauses.apply)
  | .row ref .delete => store.setItems ref.plane ((store.items ref.plane).erase ref.id)
  | .lease id (.insert lease) => { store with leases := store.leases.insert id lease }
  | .lease id (.regrant lease) => { store with leases := store.leases.modify id fun _ => lease }
  | .lease id (.refresh leaseExpiresAt heartbeatAt grantedNode holder) =>
    { store with leases := store.leases.modify id fun lease => lease.refreshed leaseExpiresAt heartbeatAt grantedNode holder }
  | .lease id .delete => { store with leases := store.leases.erase id }

def writeAll (writes : List LifecycleWrite) : LifecycleStore := writes.foldl write store

end LifecycleStore

end Beads
