import Beads.Lifecycle.Rows

/-! `updateIssueInTx` on a map whose merge operations are resolved and whose override of the close
policy is taken out. The map is a record of the keys the function knows by name, and the list of the
others. A key holds a Go value of any type: what is told apart by type is a constructor, and a value
of another type is what `fmt` prints of it and what the driver stores for it. -/

namespace Beads

inductive StatusValue where
  /-- A `string` or a `types.Status`. -/
  | readable (status : Status)
  | unreadable
  deriving DecidableEq, Repr

inductive TextValue where
  | nil
  | text (value : String)
  | other (printed : String) (stored : Option String)
  deriving DecidableEq, Repr

inductive TimeValue where
  | nil
  | pointer (value : Option Nat)
  | time (value : Nat)
  | other (stored : Option Nat)
  deriving DecidableEq, Repr

namespace TextValue

def stored : TextValue → Option String
  | .nil => none
  | .text value => some value
  | .other _ stored => stored

def matchesString (current : String) : TextValue → Bool
  | .nil => current == ""
  | .text value => current == value
  | .other _ _ => false

end TextValue

namespace TimeValue

def stored : TimeValue → Option Nat
  | .nil => none
  | .pointer value => value
  | .time value => some value
  | .other stored => stored

def matchesTimePointer (current : Option Nat) : TimeValue → Bool
  | .nil => current == none
  | .pointer value => current == value
  | .time value => current == some value
  | .other _ => false

def clearsClosedAt : TimeValue → Bool
  | .nil => true
  | .pointer value => value.isNone
  | .time _ => false
  | .other _ => false

end TimeValue

def matchesStatus (current : Status) : StatusValue → Bool
  | .readable status => current == status
  | .unreadable => false

structure IssueUpdates where
  status : Option StatusValue := none
  assignee : Option TextValue := none
  startedAt : Option TimeValue := none
  closedAt : Option TimeValue := none
  closeReason : Option TextValue := none
  closedBySession : Option TextValue := none
  pinned : Option Bool := none
  others : List (String × Option String) := []
  deriving DecidableEq, Repr

inductive LifecycleError where
  | notFound (id : Id)
  | clearsClosedAt (id : Id) (status : Status)
  | setsClosedAt (id : Id) (status : Status)
  | unreadableStatus
  | closePolicy (id : Id)
  | invalidScalar
  | fieldTooLong (name : String)
  | invalidField (name : String)
  | alreadyClaimed (id : Id) (assignee : String)
  | notClaimable (id : Id) (status : Status)
  | closedIssue (id : Id)
  | notAssigned (id : Id)
  | notOwner (id : Id) (assignee : String)
  | assigneeMismatch (id : Id) (assignee expected : String)
  | emptyExpectedAssignee (id : Id)
  | noMatchingRow (id : Id)
  deriving DecidableEq, Repr

namespace IssueUpdates

variable (updates : IssueUpdates)

def isEmpty : Bool := updates == {}

/-- `IsAllowedUpdateField` of the keys that have no field of their own. -/
def allowedOthers : List String :=
  ["priority", "title", "owner", "description", "design", "acceptance_criteria", "notes", "issue_type", "estimated_minutes",
    "external_ref", "spec_id", "source_repo", "sender", "wisp", "wisp_type", "no_history", "mol_type", "event_category",
    "event_actor", "event_target", "event_payload", "due_at", "defer_until", "await_id", "waiters", "metadata"]

variable (oldIssue : ItemRow)

/-- The status the update lands; a value nobody can read is left to the refusal it meets later. -/
def landedStatus : Option Status :=
  match updates.status with
  | none => some oldIssue.status
  | some (.readable status) => some status
  | some .unreadable => none

def validateClosedAtCoherence (id : Id) (oldIssue : ItemRow) : Except LifecycleError Unit :=
  match updates.closedAt, updates.landedStatus oldIssue with
  | some value, some status =>
    if status = .closed && value.clearsClosedAt then .error (.clearsClosedAt id status)
    else if status != .closed && !value.clearsClosedAt then .error (.setsClosedAt id status)
    else .ok ()
  | _, _ => .ok ()

def discardNoop : IssueUpdates where
  status := updates.status.filter fun value => !matchesStatus oldIssue.status value
  assignee := updates.assignee.filter fun value => !value.matchesString oldIssue.holder
  startedAt := updates.startedAt.filter fun value => !value.matchesTimePointer oldIssue.startedAt
  closedAt := updates.closedAt.filter fun value => !value.matchesTimePointer oldIssue.closedAt
  closeReason := updates.closeReason.filter fun value => !value.matchesString (oldIssue.closeReason.getD "")
  closedBySession := updates.closedBySession.filter fun value => !value.matchesString (oldIssue.closedBySession.getD "")
  pinned := updates.pinned.filter fun value => oldIssue.pinned != value
  others := updates.others.filter fun other => oldIssue.fields other.1 != other.2

def newStatus : Option Status :=
  match updates.status with
  | some (.readable status) => some status
  | _ => none

variable (config : LifecycleConfig)

def crossesIntoDoneCategory (oldStatus : Status) : Except LifecycleError Bool :=
  match updates.status with
  | none => .ok false
  | some .unreadable => .error .unreadableStatus
  | some (.readable status) =>
    .ok (config.reopenCategory status == .done && config.reopenCategory oldStatus != .done)

/-- The issue type and the owner, then the length of an assignee that is given as a string. -/
def validateScalarUpdates : Except LifecycleError Unit :=
  if !config.validOthers updates.others then .error .invalidScalar
  else match updates.assignee with
    | some (.text value) => if value.length > maxFieldLen then .error (.fieldTooLong "assignee") else .ok ()
    | _ => .ok ()

/-- What an update that changes something is refused for. -/
def check (id : Id) (oldIssue : ItemRow) (closePolicyRefuses : Bool) : Except LifecycleError Unit := do
  let crossing ← updates.crossesIntoDoneCategory config oldIssue.status
  if crossing && closePolicyRefuses then throw (.closePolicy id)
  updates.validateScalarUpdates config
  match updates.others.find? fun other => !allowedOthers.contains other.1 with
  | some other => throw (.invalidField other.1)
  | none => return ()

/-- The value a status change gives a close column that the map does not name itself. -/
def closeDefault {α : Type} (explicit : Option α) (closing reopening : α) : Option α :=
  match explicit, updates.newStatus with
  | some value, _ => some value
  | none, some status =>
    if status = .closed then some closing else if oldIssue.status = .closed then some reopening else none
  | none, none => none

def startedDefault (now : Nat) : Option (Option Nat) :=
  match updates.startedAt with
  | some value => some value.stored
  | none => if updates.newStatus = some .inProgress && oldIssue.startedAt.isNone then some (some now) else none

def pinnedDefault : Option Bool :=
  match updates.pinned with
  | some value => some value
  | none => if updates.status.isSome && oldIssue.pinned && updates.newStatus != some .pinned then some false else none

def setClauses (now rowLock : Nat) : RowPatch where
  status := updates.newStatus
  assignee := updates.assignee.map TextValue.stored
  startedAt := updates.startedDefault oldIssue now
  closedAt := updates.closeDefault oldIssue (updates.closedAt.map TimeValue.stored) (some now) none
  closeReason := updates.closeDefault oldIssue (updates.closeReason.map TextValue.stored) (some "") (some "")
  closedBySession := updates.closeDefault oldIssue (updates.closedBySession.map TextValue.stored) (some "") (some "")
  pinned := updates.pinnedDefault oldIssue
  fields := updates.others
  updatedAt := now
  rowLock := rowLock

def newAssignee : String :=
  match updates.assignee with
  | none => oldIssue.holder
  | some .nil => ""
  | some (.text value) => value
  | some (.other printed _) => printed

def manageLeaseOnUpdate : Bool :=
  if updates.status.isNone && updates.assignee.isNone then false
  else match updates.landedStatus oldIssue with
    | none => false
    | some status =>
      let newAssignee := updates.newAssignee oldIssue
      !(status == .inProgress && newAssignee != "" && oldIssue.status == .inProgress && newAssignee == oldIssue.holder)

end IssueUpdates

namespace LifecycleStore

variable (store : LifecycleStore)

def deleteLease (id : Id) : List LifecycleWrite := if (store.leases.get? id).isSome then [.lease id .delete] else []

/-- `updateIssueInTx`. The close policy reads the hierarchy and the blockers, which are not part of
this store; what it would answer is given. -/
def updateIssue (config : LifecycleConfig) (now rowLock : Nat) (id : Id) (updates : IssueUpdates)
    (closePolicyRefuses : Bool) : Except LifecycleError (List LifecycleWrite) :=
  match store.getIssue id with
  | none => .error (.notFound id)
  | some oldIssue => do
      updates.validateClosedAtCoherence id oldIssue
      let updates := updates.discardNoop oldIssue
      if updates.isEmpty then return []
      else
        updates.check config id oldIssue closePolicyRefuses
        return .row (store.routed id) (.patch (updates.setClauses oldIssue now rowLock)) ::
          if updates.manageLeaseOnUpdate oldIssue then store.deleteLease id else []

end LifecycleStore

end Beads
