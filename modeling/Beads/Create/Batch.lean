import Beads.Create.Persist
import Beads.Status.Change

/-! `CreateIssuesInTxWithContext`: the rows of a batch are inserted or upserted one after the other,
its edges are persisted, and the ids of the batch and what its new edges reach are recomputed.
Labels, comments, events, leases, child counters and version rows are not part of the model. -/

namespace Beads

def Plane.sibling : Plane → Plane
  | .issue => .wisp
  | .wisp => .issue

/-- An issue of a batch with the id it is given or, if it came without one, the id that was
generated for it. An edge without a source is its own. -/
structure NewIssue where
  id : Id
  plane : Plane
  status : Status
  updatedAt : Nat := 0
  dependencies : List DependencyRequest := []
  generatedId : Bool := false
  named : id ≠ "" := by decide

namespace NewIssue

def ref (issue : NewIssue) : ItemRef := ⟨issue.plane, issue.id⟩

def requests (issue : NewIssue) : List DependencyRequest :=
  issue.dependencies.map fun request => if request.issueId == "" then { request with issueId := issue.id } else request

end NewIssue

/-- The options of the batch, the validation of a single issue (field values, id prefix), and
whether the connection counts found rows as affected. -/
structure BatchContext where
  opts : BatchCreateOptions := {}
  valid : NewIssue → Bool := fun _ => true
  clientFoundRows : Bool := false

/-- The plane of an id that the batch itself names; a later issue of that id wins. -/
def batchPlane (issues : List NewIssue) (id : Id) : Option Plane :=
  ((issues.filter fun issue => !issue.generatedId && issue.id == id).getLast?).map NewIssue.plane

/-- A strict batch may not connect two of its own issues across the planes. -/
def validateCreateIssuesMixedBucketDependencies (issues : List NewIssue) : Except CreateError Unit :=
  let crossing := issues.flatMap fun issue => issue.dependencies.filterMap fun request =>
    let sourceId := if request.issueId != "" then request.issueId else if issue.generatedId then "" else issue.id
    let sourcePlane := if request.issueId != "" then (batchPlane issues request.issueId).getD issue.plane else issue.plane
    if (batchPlane issues request.dependsOnId).any (· != sourcePlane) then some (sourceId, request.dependsOnId) else none
  match crossing with
  | [] => .ok ()
  | edge :: _ => .error (.crossPlaneBatchEdge edge.1 edge.2)

/-- `INSERT` of a row that no stored row shares its id with. -/
def Tables.insertItem (tables : Tables) (ref : ItemRef) (status : Status) : Tables :=
  if absent : tables.stored ref = false then
    { items := Function.update tables.items ref.plane (⟨ref.id, status⟩ :: tables.items ref.plane)
      dependencies := tables.dependencies
      itemsKeyed := by
        intro plane
        by_cases same : plane = ref.plane
        · subst same
          rw [Function.update_self, List.map_cons, List.nodup_cons]
          refine ⟨fun member => ?_, tables.itemsKeyed _⟩
          obtain ⟨row, listed, named⟩ := List.mem_map.mp member
          exact Bool.false_ne_true (absent.symm.trans (Tables.stored_iff.mpr ⟨row, listed, named⟩))
        · rw [Function.update_of_ne same]
          exact tables.itemsKeyed plane
      dependenciesKeyed := tables.dependenciesKeyed }
  else tables

structure BatchState where
  tables : Tables
  isBlocked : Bits
  updatedAt : ItemRef → Nat
  accepted : List NewIssue := []

namespace BatchState

variable (state : BatchState)

def accept (issue : NewIssue) : BatchState := { state with accepted := state.accepted ++ [issue] }

def insert (issue : NewIssue) : BatchState :=
  { state with
    tables := state.tables.insertItem issue.ref issue.status
    isBlocked := Function.update state.isBlocked issue.ref false
    updatedAt := Function.update state.updatedAt issue.ref issue.updatedAt }

def overwrite (issue : NewIssue) : BatchState :=
  { state with
    tables := state.tables.setStatus issue.ref issue.status
    updatedAt := Function.update state.updatedAt issue.ref issue.updatedAt }

end BatchState

def createIssue (context : BatchContext) (state : BatchState) (issue : NewIssue) : Except CreateError BatchState :=
  let sibling : ItemRef := ⟨issue.plane.sibling, issue.id⟩
  if !context.valid issue then .error (.invalidIssue issue.id)
  else if context.opts.createOnly && (state.tables.stored issue.ref || state.tables.stored sibling) then
    .error (.alreadyExists issue.id)
  else if state.tables.stored sibling then
    -- The row is left out, and yet its edges are persisted with the batch.
    if context.opts.conflictSkip then .ok (state.accept issue) else .error (.crossTableIdCollision issue.id sibling.plane)
  else if !state.tables.stored issue.ref then .ok ((state.insert issue).accept issue)
  else if context.opts.conflictSkip then .ok (state.accept issue)
  else if context.opts.rejectStaleUpserts && issue.updatedAt < state.updatedAt issue.ref then .ok state
  -- A tie keeps the stored columns and merges the rest.
  else if context.opts.rejectStaleUpserts && issue.updatedAt == state.updatedAt issue.ref then .ok (state.accept issue)
  else .ok ((state.overwrite issue).accept issue)

def PersistedDependency.maintained (dependency : PersistedDependency) : Bool :=
  dependency.type.scheduling || dependency.type == .waitsFor

/-- The ids of the batch, and the sources of its edges with the waiters on the targets of its
parent-child edges, the latter two with their descendants. -/
def Tables.createBlockedRecomputeIds (tables : Tables) (issues : List NewIssue)
    (dependencies : List PersistedDependency) : Seeds :=
  let maintained := dependencies.filter PersistedDependency.maintained
  let sources : Seeds := maintained.foldl (fun seeds dependency => seeds.add dependency.source.plane dependency.source.id)
    (.start fun _ => [])
  let spawnerIds := ((maintained.filter fun dependency => dependency.type == .parentChild && dependency.target != "").map
    PersistedDependency.target).eraseDups
  let batch : Seeds := issues.foldl (fun seeds issue => seeds.add issue.plane issue.id) (.start fun _ => [])
  batch.join (tables.expandByParentChildDescendants (tables.loadWaitersOnSpawnerIds spawnerIds sources))

structure Written where
  tables : Tables
  isBlocked : Bits
  accepted : List NewIssue
  persisted : List PersistedDependency

def Written.recompute (written : Written) (session : Session) : Except CreateError Store :=
  match written.tables.recomputeSeeds session true
      (written.tables.createBlockedRecomputeIds written.accepted written.persisted) written.isBlocked with
  | some bits => .ok ⟨written.tables, bits⟩
  | none => .error .recomputeUnfinished

namespace Store

variable (store : Store)

def writeBatch (context : BatchContext) (updatedAt : ItemRef → Nat) (createFastPathsDisabled : Bool)
    (issues : List NewIssue) : Except CreateError Written := do
  if !context.opts.skipDependencyValidationErrors then validateCreateIssuesMixedBucketDependencies issues
  let rows ← issues.foldlM (createIssue context) { tables := store.toTables, isBlocked := store.isBlocked, updatedAt }
  let edges ← persistDependencies context.opts context.clientFoundRows createFastPathsDisabled rows.tables
    (rows.accepted.flatMap NewIssue.requests)
  return ⟨edges.tables, rows.isBlocked, rows.accepted, edges.persisted⟩

def createIssues (session : Session) (context : BatchContext) (updatedAt : ItemRef → Nat)
    (issues : List NewIssue) : Except CreateError Store := do
  let written ← store.writeBatch context updatedAt session.createFastPathsDisabled issues
  written.recompute session

end Store

end Beads
