import Beads.Data.SnapshotTransactions
import Beads.Lifecycle.Update

/-! Claim, release, close, reopen, heartbeat, reclaim and deletion, each by what it writes on the
snapshot it reads, and the transactions made of them. Events, journal, versions and the `is_blocked`
column are not part of the model. -/

namespace Beads

open SnapshotTransactions

namespace LifecycleStore

variable (store : LifecycleStore) (config : LifecycleConfig) (now rowLock : Nat) (id : Id)

def upsertLease (holder : String) : LifecycleWrite :=
  let lease : Lease := ⟨holder, now, now + config.leaseTTL, now, config.nodeId⟩
  .lease id (if (store.leases.get? id).isSome then .regrant lease else .insert lease)

def assigneeOK (oldIssue : ItemRow) (actor : String) : Bool :=
  oldIssue.holder == "" || actorMatches oldIssue.holder actor || config.claimPools.contains oldIssue.holder

variable (actor : String)

/-- The compare-and-set of the claim: the assignee is judged on the row that was read, the status on
the row that is written, and the two are tied by the lock token. -/
def claimMatches : Bool :=
  (store.getIssue id).any fun oldIssue => assigneeOK config oldIssue actor &&
    (store.row (store.routed id)).any fun row => row.rowLock == oldIssue.rowLock &&
      config.claimableSourceStatuses.contains row.status

def claimPatch (oldIssue : ItemRow) (actor : String) : RowPatch where
  status := some .inProgress
  assignee := some (some actor)
  startedAt := if oldIssue.startedAt.isNone then some (some now) else none
  updatedAt := now
  rowLock := rowLock

def grantLease : List LifecycleWrite :=
  if store.isActiveWisp id then [] else [store.upsertLease config now id actor]

/-- `claimIssueInTx`. A claim that its actor already holds succeeds without a write. -/
def claimIssue : Except LifecycleError (List LifecycleWrite) :=
  let ref := store.routed id
  if actor.length > maxFieldLen then .error (.fieldTooLong "actor")
  else match store.getIssue id, store.row ref with
    | some oldIssue, some row =>
      if store.claimMatches config id actor then
        .ok (.row ref (.patch (claimPatch now rowLock oldIssue actor)) :: store.grantLease config now id actor)
      else if actorMatches row.holder actor && row.status == .inProgress then .ok []
      else if row.holder != "" && !actorMatches row.holder actor && !config.claimPools.contains row.holder then
        .error (.alreadyClaimed id row.holder)
      else .error (.notClaimable id row.status)
    | _, _ => .error (.notFound id)

def releasePatch : RowPatch where
  status := some .opened
  assignee := some (some "")
  startedAt := some none
  updatedAt := now
  rowLock := rowLock

def release (oldIssue : ItemRow) : Except LifecycleError (List LifecycleWrite) :=
  let ref := store.routed id
  if (store.row ref).any fun row => (row.status == .opened || row.status == .inProgress) && row.rowLock == oldIssue.rowLock then
    .ok (.row ref (.patch (releasePatch now rowLock)) :: store.deleteLease id)
  else .error (.noMatchingRow id)

def unclaimIssue (force : Bool) : Except LifecycleError (List LifecycleWrite) :=
  match store.getIssue id with
  | none => .error (.notFound id)
  | some oldIssue =>
    if oldIssue.status = .closed then .error (.closedIssue id)
    else if oldIssue.holder == "" then .error (.notAssigned id)
    else if !force && !actorMatches oldIssue.holder actor then .error (.notOwner id oldIssue.holder)
    else store.release now rowLock id oldIssue

def unclaimIssueIfAssignee (expectedAssignee : String) : Except LifecycleError (List LifecycleWrite) :=
  if expectedAssignee == "" then .error (.emptyExpectedAssignee id)
  else match store.getIssue id with
    | none => .error (.notFound id)
    | some oldIssue =>
      if oldIssue.status = .closed then .error (.closedIssue id)
      else if !actorMatches oldIssue.holder expectedAssignee then
        .error (.assigneeMismatch id oldIssue.holder expectedAssignee)
      else store.release now rowLock id oldIssue

def closePatch (reason session : String) : RowPatch where
  status := some .closed
  closedAt := some (some now)
  closeReason := some (some reason)
  closedBySession := some (some session)
  updatedAt := now
  rowLock := rowLock

def closeIssue (reason session : String) : Except LifecycleError (List LifecycleWrite) :=
  let ref := store.routed id
  match store.row ref with
  | none => .error (.notFound id)
  | some row =>
    if row.status = .closed then .ok []
    else .ok (.row ref (.patch (closePatch now rowLock reason session)) :: store.deleteLease id)

def reopenPatch : RowPatch where
  status := some .opened
  closedAt := some none
  closeReason := some (some "")
  closedBySession := some (some "")
  fields := [("defer_until", none)]
  updatedAt := now
  rowLock := rowLock

/-- `reopenIssueInTx`. The conditional update runs on the row it has just read,
so it does not miss. -/
def reopenIssue : Except LifecycleError (List LifecycleWrite) :=
  let ref := store.routed id
  match store.row ref with
  | none => .error (.notFound id)
  | some row =>
    if config.reopenCategory row.status != .done then .ok []
    else .ok (.row ref (.patch (reopenPatch now rowLock)) :: store.deleteLease id)

/-- What a heartbeat writes on the lease; a holder is given when it is respelled. -/
def heartbeat (lease : Lease) (holder : Option String) : LeaseWrite :=
  .refresh (now + config.leaseTTL) now (if lease.grantedNode == "" then some config.nodeId else none) holder

/-- The update of the lease that the caller holds under this very spelling. -/
def renewHeld : List LifecycleWrite :=
  match store.leases.get? id with
  | some lease => if lease.holder == actor then [.lease id (heartbeat config now lease none)] else []
  | none => []

/-- That update changes a value; one that changes none counts no row. -/
def renewCounts : Bool :=
  (store.leases.get? id).any fun lease => lease.holder == actor &&
    (lease.leaseExpiresAt != now + config.leaseTTL || lease.heartbeatAt != now || lease.grantedNode == "" && config.nodeId != "")

/-- A refusal takes the caller's own lease away, under whatever spelling. -/
def deleteOrphan : List LifecycleWrite :=
  if store.isActiveWisp id then []
  else match store.leases.get? id with
    | some lease => if actorMatches lease.holder actor then [.lease id .delete] else []
    | none => []

/-- A lease for a live claim that has none the caller holds. It remints the lock
token of the item. -/
def rearm : List LifecycleWrite :=
  [.row ⟨.issue, id⟩ (.patch { updatedAt := now, rowLock }), store.upsertLease config now id actor]

/-- The caller holds a live claim: its lease is refreshed under the caller's
spelling, or granted. -/
def renewClaimed : List LifecycleWrite :=
  match store.leases.get? id with
  | some lease =>
    if actorMatches lease.holder actor then [.lease id (heartbeat config now lease (some actor))]
    else store.rearm config now rowLock id actor
  | none => store.rearm config now rowLock id actor

/-- `RenewLeaseInTx`. A refusal that has read the item's row is reported after its transaction has
committed. -/
def renewLease : Except LifecycleError (List LifecycleWrite × Option LifecycleError) :=
  let held := store.renewHeld config now id actor
  let ref := store.routed id
  if store.renewCounts config now id actor &&
      (store.row ⟨.issue, id⟩).any fun row => row.status == .inProgress && row.assignee == some actor then .ok (held, none)
  else match store.row ref with
    | none => .error (.notFound id)
    | some row =>
      let orphan := store.deleteOrphan id actor
      if row.holder != "" && !actorMatches row.holder actor then .ok (held ++ orphan, some (.alreadyClaimed id row.holder))
      else if !store.isActiveWisp id && actorMatches row.holder actor && row.status == .inProgress then
        .ok (held ++ store.renewClaimed config now rowLock id actor, none)
      else .ok (held ++ orphan, some (.notClaimable id row.status))

end LifecycleStore

/-- Which stale leases are eligible: by id, assignee and labels, and by the
replica that granted them. -/
structure ReclaimFilter where
  inScope : Id → ItemRow → Bool := fun _ _ => true
  anyReplica : Bool := false

def ReclaimFilter.replica (filter : ReclaimFilter) (config : LifecycleConfig) (lease : Lease) : Bool :=
  filter.anyReplica || config.nodeId == "" || lease.grantedNode == "" || lease.grantedNode == config.nodeId

namespace LifecycleStore

variable (store : LifecycleStore)

def staleLeases (config : LifecycleConfig) (cutoff : Nat) (filter : ReclaimFilter) : List Id :=
  (store.leases.entries.filter fun entry => entry.2.leaseExpiresAt < cutoff && filter.replica config entry.2 &&
    (store.row ⟨.issue, entry.1⟩).any fun row => row.status == .inProgress && filter.inScope entry.1 row).map Prod.fst

/-- `ReclaimExpiredLeasesInTx`. The statements that check the lease and the status again run on the
same snapshot. -/
def reclaimExpiredLeases (config : LifecycleConfig) (now : Nat) (rowLock : Id → Nat) (cutoff : Nat)
    (filter : ReclaimFilter) : List LifecycleWrite :=
  (store.staleLeases config cutoff filter).flatMap fun id =>
    [.lease id .delete, .row ⟨.issue, id⟩ (.patch
      { status := some .opened, assignee := some none, startedAt := some none, updatedAt := now, rowLock := rowLock id })]

def deleteIssues (ids : List Id) : List LifecycleWrite :=
  ids.flatMap fun id =>
    if store.isActiveWisp id then [.row ⟨.wisp, id⟩ .delete]
    else (if (store.row ⟨.issue, id⟩).isSome then [.row ⟨.issue, id⟩ .delete] else []) ++ store.deleteLease id

end LifecycleStore

inductive LifecycleVerb where
  | claim (id : Id) (actor : String)
  | unclaim (id : Id) (actor : String) (force : Bool)
  | unclaimIfAssignee (id : Id) (expectedAssignee : String)
  | close (id : Id) (reason session : String)
  | reopen (id : Id)
  | update (id : Id) (updates : IssueUpdates) (closePolicyRefuses : Bool)
  | renewLease (id : Id) (actor : String)
  | reclaim (cutoff : Nat) (filter : ReclaimFilter)
  | delete (ids : List Id)

/-- A verb with the clock it reads and the lock tokens it draws. -/
structure LifecycleTask where
  verb : LifecycleVerb
  now : Nat := 0
  rowLock : Id → Nat

/-- What the task writes on the store; an error rolls it back. -/
def LifecycleTask.execute (config : LifecycleConfig) (task : LifecycleTask)
    (store : LifecycleStore) : Except LifecycleError (List LifecycleWrite) :=
  match task.verb with
  | .claim id actor => store.claimIssue config task.now (task.rowLock id) id actor
  | .unclaim id actor force => store.unclaimIssue task.now (task.rowLock id) id actor force
  | .unclaimIfAssignee id expectedAssignee => store.unclaimIssueIfAssignee task.now (task.rowLock id) id expectedAssignee
  | .close id reason session => store.closeIssue task.now (task.rowLock id) id reason session
  | .reopen id => store.reopenIssue config task.now (task.rowLock id) id
  | .update id updates closePolicyRefuses => store.updateIssue config task.now (task.rowLock id) id updates closePolicyRefuses
  | .renewLease id actor => (store.renewLease config task.now (task.rowLock id) id actor).map Prod.fst
  | .reclaim cutoff filter => .ok (store.reclaimExpiredLeases config task.now task.rowLock cutoff filter)
  | .delete ids => .ok (store.deleteIssues ids)

inductive LifecycleCell where
  | row (ref : ItemRef) (column : Option RowColumn)
  | lease (id : Id) (column : Option LeaseColumn)
  deriving DecidableEq, Repr

namespace LifecycleCell

/-- An inserted or deleted row takes every cell of its own. -/
def clash : LifecycleCell → LifecycleCell → Bool
  | .row ref column, .row otherRef other => ref == otherRef && (column.isNone || other.isNone || column == other)
  | .lease id column, .lease otherId other => id == otherId && (column.isNone || other.isNone || column == other)
  | _, _ => false

def heartbeatColumns : List LeaseColumn := [.leaseExpiresAt, .heartbeatAt, .grantedNode]

def written : LifecycleWrite → List LifecycleCell
  | .row ref (.patch clauses) => clauses.columns.map fun column => .row ref (some column)
  | .row ref .delete => [.row ref none]
  | .lease id (.insert _) => [.lease id none]
  | .lease id (.regrant _) => (LeaseColumn.holder :: .grantedAt :: heartbeatColumns).map fun column => .lease id (some column)
  | .lease id (.refresh _ _ _ holder) =>
    (heartbeatColumns ++ if holder.isSome then [LeaseColumn.holder] else []).map fun column => .lease id (some column)
  | .lease id .delete => [.lease id none]

end LifecycleCell

def lifecycleProtocol (config : LifecycleConfig) :
    Protocol LifecycleStore LifecycleTask (List LifecycleWrite) LifecycleCell where
  execute task store := (task.execute config store).toOption
  install writes store := store.writeAll writes
  cells writes := writes.flatMap LifecycleCell.written
  clash := LifecycleCell.clash
  followUp _ := []

def LifecycleStore.concurrently (store : LifecycleStore) (tasks : List LifecycleTask) :
    System LifecycleStore LifecycleTask LifecycleCell where
  head := store
  waiting := tasks

end Beads
