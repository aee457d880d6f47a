import Beads.Create.Batch
import Beads.Recheck.Writes
import Beads.Store.Ids

/-! `ApplyBatchInTx`: creates, updates, closes and new edges in the caller's order, and an end gate
that checks the edges the request itself has added against the graph all items have built. Refs are
resolved ids here. What the single verbs refuse for reasons outside the dependency rows (versions,
close policy, field values) is a parameter of the plan. -/

namespace Beads

inductive ApplyItem where
  | create (issue : NewIssue)
  | update (id : Id) (parent : Option Id)
  | close (id : Id)
  | depAdd (request : DependencyRequest)

structure ApplyBatchPlan where
  items : List ApplyItem
  skipPerEdgeCycleCheck : Bool := false
  refuses : Store → ApplyItem → Bool := fun _ _ => false

inductive ApplyItemError where
  | refused
  | create (error : CreateError)
  | selfDependency (issueId : Id)
  | dottedChildDependency (issueId dependsOnId : Id)
  | crossPlaneBatchEdge (issueId dependsOnId : Id)
  | dependency (error : DependencyError)
  | closeUnfinished
  deriving DecidableEq, Repr

/-- A cycle belongs to the whole request, every other error to the item at an index. -/
inductive ApplyBatchError where
  | item (index : Nat) (error : ApplyItemError)
  | dependencyCycle
  deriving DecidableEq, Repr

/-- What a request accumulates: the planes of the issues it created and the edges it added, each
with its item. -/
structure ApplyBatchRun where
  store : Store
  planes : List (Id × Plane) := []
  edges : List (Nat × DependencyRequest) := []

namespace Store

variable (store : Store) (session : Session)

def parentsOf (id : Id) : List Id :=
  ((store.dependencies (store.wispTableRouting id)).filter fun row => row.issueId == id && row.type == .parentChild).map
    fun row => row.target.id

/-- The parents the patch does not keep go first, then the new one is added. -/
def applyParentPatch (id parent : Id) : Except DependencyError Store := do
  let existing := store.parentsOf id
  let target := if parent == "" then [] else [parent]
  let cleared ← ((existing.filter fun other => !target.contains other).mergeSort fun one other => decide (one ≤ other)).foldlM
    (fun store other => store.removeDependency session id other) store
  (target.filter fun other => !existing.contains other).foldlM
    (fun store other => store.addDependency session ⟨id, other, .parentChild, {}, ""⟩ {}) cleared

def close (id : Id) : Option Store := (store.transact session (store.closeIssue id)).map fun effect => effect.install store

end Store

namespace ApplyBatchRun

variable (run : ApplyBatchRun) (session : Session) (plan : ApplyBatchPlan) (index : Nat)

def applyCreate (issue : NewIssue) : Except ApplyItemError ApplyBatchRun :=
  match run.store.createIssues session { opts := { createOnly := true } } (fun _ => 0) [{ issue with dependencies := [] }] with
  | .ok store => .ok { run with store, planes := (issue.id, issue.plane) :: run.planes }
  | .error error => .error (.create error)

def applyUpdate (id : Id) : Option Id → Except ApplyItemError ApplyBatchRun
  | none => .ok run
  | some parent =>
    match run.store.applyParentPatch session id parent with
    | .ok store => .ok { run with store }
    | .error error => .error (.dependency error)

def applyClose (id : Id) : Except ApplyItemError ApplyBatchRun :=
  match run.store.close session id with
  | some store => .ok { run with store }
  | none => .error .closeUnfinished

def crossesPlanes (request : DependencyRequest) : Bool :=
  match run.planes.lookup request.issueId, run.planes.lookup request.dependsOnId with
  | some source, some target => source != target
  | _, _ => false

def applyDepAdd (request : DependencyRequest) : Except ApplyItemError ApplyBatchRun :=
  if request.issueId == request.dependsOnId then .error (.selfDependency request.issueId)
  else if isDottedChildDependency request.issueId request.dependsOnId request.type
  then .error (.dottedChildDependency request.issueId request.dependsOnId)
  else if run.crossesPlanes request then .error (.crossPlaneBatchEdge request.issueId request.dependsOnId)
  else
    let isCrossPrefix := extractPrefix request.issueId != extractPrefix request.dependsOnId
    match run.store.addDependency session request { isCrossPrefix, skipCycleCheck := plan.skipPerEdgeCycleCheck } with
    | .ok store => .ok { run with store, edges := run.edges ++ [(index, request)] }
    | .error error => .error (.dependency error)

def applyItem (item : ApplyItem) : Except ApplyItemError ApplyBatchRun :=
  if plan.refuses run.store item then .error .refused
  else match item with
    | .create issue => run.applyCreate session issue
    | .update id parent => run.applyUpdate session id parent
    | .close id => run.applyClose session id
    | .depAdd request => run.applyDepAdd session plan index request

/-- `checkAddedEdgesForCycles`: a scheduling edge of the request lies on a cycle. -/
def closesCycle : Bool :=
  run.edges.any fun edge => edge.2.type.scheduling &&
    (edge.2.issueId == edge.2.dependsOnId || run.store.wouldCreateSchedulingCycle edge.2.issueId edge.2.dependsOnId)

def runEndGate : Except ApplyBatchError Unit := do
  if run.closesCycle then throw .dependencyCycle
  run.edges.forM fun edge =>
    if isExternalDepTarget edge.2.issueId edge.2.dependsOnId then pure ()
    else match run.store.checkBlockingHierarchy edge.2 with
      | .ok () => pure ()
      | .error error => throw (.item edge.1 (.dependency error))

end ApplyBatchRun

def ApplyBatchPlan.step (plan : ApplyBatchPlan) (session : Session) (run : ApplyBatchRun)
    (item : ApplyItem × Nat) : Except ApplyBatchError ApplyBatchRun :=
  match run.applyItem session plan item.2 item.1 with
  | .ok next => .ok next
  | .error error => .error (.item item.2 error)

def Store.applyBatch (store : Store) (session : Session) (plan : ApplyBatchPlan) : Except ApplyBatchError Store := do
  let run ← plan.items.zipIdx.foldlM (plan.step session) { store }
  run.runEndGate
  return run.store

end Beads
