import Beads.Affected.Recompute

/-! Both edits change one dependency row of the source's own table and then maintain the
`is_blocked` column of the items the change reaches. Audit events, journal entries and version rows
are not part of the model. -/

namespace Beads

/-- A dependency as a caller asks for it. An empty thread names none. -/
structure DependencyRequest where
  issueId : Id
  dependsOnId : Id
  type : DependencyType
  metadata : Metadata := {}
  threadId : String := ""

structure AddDependencyOpts where
  isCrossPrefix : Bool := false
  skipCycleCheck : Bool := false

inductive DependencyError where
  | externalParentChild
  | missingSource (issueId dependsOnId : Id)
  | missingTarget (issueId dependsOnId : Id)
  | hierarchyConflict (issueId blockerId : Id) (blockerIsAncestor : Bool)
  | selfDependency (issueId : Id)
  | dependencyCycle
  | typeConflict (issueId dependsOnId : Id) (existingType requestedType : DependencyType)
  | recomputeUnfinished
  deriving DecidableEq, Repr

def hasExternalPrefix (id : Id) : Bool := "external:".toList.isPrefixOf id.toList

def extractPrefix (id : Id) : List Char :=
  if id.toList.contains '-' then id.toList.takeWhile (· != '-') ++ ['-'] else []

def isExternalDepTarget (sourceId targetId : Id) : Bool :=
  hasExternalPrefix targetId || extractPrefix sourceId != extractPrefix targetId

def reAddedDependencyThread (stored : Option String) (requested : String) : Option String × Bool :=
  if requested == "" || requested == stored.getD "" then (stored, false) else (some requested, true)

namespace Tables

variable (tables : Tables)

def isActiveWisp (id : Id) : Bool := tables.stored ⟨.wisp, id⟩

def wispTableRouting (id : Id) : Plane := if tables.isActiveWisp id then .wisp else .issue

variable (request : DependencyRequest)

def classifyDepTarget (isCrossPrefix : Bool) : Target :=
  if isCrossPrefix || isExternalDepTarget request.issueId request.dependsOnId then .external request.dependsOnId
  else .item ⟨tables.wispTableRouting request.dependsOnId, request.dependsOnId⟩

def checkBlockingHierarchy : Except DependencyError Unit :=
  if !request.type.blocking || request.issueId == request.dependsOnId then .ok ()
  else if tables.isAncestor request.issueId request.dependsOnId
  then .error (.hierarchyConflict request.issueId request.dependsOnId true)
  else if tables.isAncestor request.dependsOnId request.issueId
  then .error (.hierarchyConflict request.issueId request.dependsOnId false)
  else .ok ()

def checkDependencyCycle : Except DependencyError Unit :=
  if request.issueId == request.dependsOnId then .error (.selfDependency request.issueId)
  else if request.type.scheduling && tables.wouldCreateSchedulingCycle request.issueId request.dependsOnId
  then .error .dependencyCycle
  else .ok ()

/-- The target row must exist, and a blocking edge may not follow the hierarchy. Both checks are for
targets of this database; every stored row has an issue type. -/
def checkDependencyTarget : Except DependencyError Unit :=
  if tables.stored ⟨tables.wispTableRouting request.dependsOnId, request.dependsOnId⟩
  then tables.checkBlockingHierarchy request
  else .error (.missingTarget request.issueId request.dependsOnId)

def admitDependency (opts : AddDependencyOpts) : Except DependencyError Unit := do
  if hasExternalPrefix request.dependsOnId && request.type == .parentChild then throw .externalParentChild
  if !tables.stored ⟨tables.wispTableRouting request.issueId, request.issueId⟩ then
    throw (.missingSource request.issueId request.dependsOnId)
  if !hasExternalPrefix request.dependsOnId && !opts.isCrossPrefix then tables.checkDependencyTarget request
  if !opts.skipCycleCheck then tables.checkDependencyCycle request

variable (plane : Plane)

def withDependencies (rows : List Dependency) (keyed : (rows.map Dependency.key).Nodup) : Tables where
  items := tables.items
  dependencies := Function.update tables.dependencies plane rows
  itemsKeyed := tables.itemsKeyed
  dependenciesKeyed other := by
    by_cases same : other = plane
    · subst same
      simpa using keyed
    · simpa [same] using tables.dependenciesKeyed other

def existingDependency (issueId dependsOnId : Id) : Option Dependency :=
  (tables.dependencies plane).find? fun row => row.key == (issueId, dependsOnId)

def newDependency (opts : AddDependencyOpts) : Dependency :=
  ⟨request.issueId, tables.classifyDepTarget request opts.isCrossPrefix, request.type, request.metadata, some request.threadId⟩

/-- `INSERT`; a row with the key of a stored one is refused. -/
def insertDependency (row : Dependency) : Tables :=
  if absent : row.key ∉ (tables.dependencies plane).map Dependency.key then
    tables.withDependencies plane (row :: tables.dependencies plane)
      (List.nodup_cons.mpr ⟨absent, tables.dependenciesKeyed plane⟩)
  else tables

/-- `UPDATE ... SET metadata, thread_id` of the row with the key. -/
def refreshDependency (key : Id × Id) (metadata : Metadata) (threadId : Option String) : Tables :=
  tables.withDependencies plane
    ((tables.dependencies plane).map fun row => if row.key = key then { row with metadata, threadId } else row) <| by
    rw [List.map_map]
    have same : (Dependency.key ∘ fun row => if row.key = key then
        { row with metadata, threadId } else row) = Dependency.key := by
      funext row
      simp only [Function.comp_apply]
      split <;> rfl
    rw [same]
    exact tables.dependenciesKeyed plane

def deleteDependency (key : Id × Id) : Tables :=
  tables.withDependencies plane ((tables.dependencies plane).filter fun row => row.key != key)
    ((tables.dependenciesKeyed plane).sublist (List.filter_sublist.map _))

/-- A new edge onto an open target blocks its source, which is marked without a
read of its other rows. -/
def markDirectBlockingDependencySource (source : ItemRef) (target : Target) (bits : Bits) : Bits :=
  match target with
  | .external _ => bits
  | .item ref => (tables.setBlocked source.plane true
      (fun row => row.id == source.id && !bits ⟨source.plane, row.id⟩ && row.status.active && tables.active ref) bits).1

end Tables

def removeSourceFromAffected (source : ItemRef) (ids : Plane → List Id) : Plane → List Id :=
  Function.update ids source.plane ((ids source.plane).filter (· != source.id))

namespace Tables

variable (tables : Tables)

/-- After the insert: parent-child edges are recomputed, since a closed child can open an
any-children gate; every other edge can only block. -/
def maintainNewDependency (session : Session) (source : ItemRef) (row : Dependency) (bits : Bits) : Option Bits :=
  let affected := tables.affectedByDepChangeOf source row.target.id row.type
  if row.type == .parentChild then tables.recomputeSeeds session false affected bits
  else if row.type.blocking then
    let rest := removeSourceFromAffected source affected.queue
    tables.markIsBlocked (rest .issue) (rest .wisp) session.fuel
      (tables.markDirectBlockingDependencySource source row.target bits)
  else tables.markIsBlocked (affected.queue .issue) (affected.queue .wisp) session.fuel bits

end Tables

namespace Store

variable (store : Store)

def withColumn (tables : Tables) : Option Bits → Except DependencyError Store
  | some bits => .ok ⟨tables, bits⟩
  | none => .error .recomputeUnfinished

/-- The same pair again: the same type refreshes the row in place, another type is a conflict. -/
def readdDependency (plane : Plane) (request : DependencyRequest) (row : Dependency) : Except DependencyError Store :=
  if row.type = request.type then
    let thread := reAddedDependencyThread row.threadId request.threadId
    if !thread.2 && dependencyMetadataEqual row.metadata request.metadata then .ok store
    else .ok ⟨store.refreshDependency plane row.key request.metadata thread.1, store.isBlocked⟩
  else .error (.typeConflict request.issueId request.dependsOnId row.type request.type)

def addDependency (session : Session) (request : DependencyRequest)
    (opts : AddDependencyOpts) : Except DependencyError Store := do
  store.admitDependency request opts
  let plane := store.wispTableRouting request.issueId
  match store.existingDependency plane request.issueId request.dependsOnId with
  | some row => store.readdDependency plane request row
  | none =>
    let row := store.newDependency request opts
    let inserted := store.insertDependency plane row
    withColumn inserted (inserted.maintainNewDependency session ⟨plane, request.issueId⟩ row store.isBlocked)

def removeDependency (session : Session) (issueId dependsOnId : Id) : Except DependencyError Store :=
  let plane := store.wispTableRouting issueId
  match store.existingDependency plane issueId dependsOnId with
  | none => .ok store
  | some row =>
    let deleted := store.deleteDependency plane row.key
    withColumn deleted
      (deleted.recomputeSeeds session false (deleted.affectedByDepChangeOf ⟨plane, issueId⟩ dependsOnId row.type) store.isBlocked)

end Store

namespace Tables

variable {tables : Tables} {request : DependencyRequest} {opts : AddDependencyOpts}

theorem admitDependency_ok : tables.admitDependency request opts = .ok () ↔
    (hasExternalPrefix request.dependsOnId && request.type == .parentChild) = false ∧
    tables.stored ⟨tables.wispTableRouting request.issueId, request.issueId⟩ = true ∧
    ((!hasExternalPrefix request.dependsOnId && !opts.isCrossPrefix) = true → tables.checkDependencyTarget request = .ok ()) ∧
    (opts.skipCycleCheck = false → tables.checkDependencyCycle request = .ok ()) := by
  unfold admitDependency
  generalize (hasExternalPrefix request.dependsOnId && request.type == .parentChild) = external
  generalize (!hasExternalPrefix request.dependsOnId && !opts.isCrossPrefix) = validated
  generalize tables.stored ⟨tables.wispTableRouting request.issueId, request.issueId⟩ = present
  cases external <;> cases present <;> cases validated <;> cases opts.skipCycleCheck <;>
    cases tables.checkDependencyTarget request <;>
    simp [bind, Except.bind, throw, throwThe, MonadExceptOf.throw, pure, Except.pure]

theorem admitDependency_finished : tables.admitDependency request opts ≠ .error .recomputeUnfinished := by
  have hierarchy : tables.checkBlockingHierarchy request ≠ .error .recomputeUnfinished := by
    unfold checkBlockingHierarchy
    split_ifs <;> simp
  have target : tables.checkDependencyTarget request ≠ .error .recomputeUnfinished := by
    unfold checkDependencyTarget
    split_ifs
    · exact hierarchy
    · simp
  have cycle : tables.checkDependencyCycle request ≠ .error .recomputeUnfinished := by
    unfold checkDependencyCycle
    split_ifs <;> simp
  unfold admitDependency
  generalize tables.checkDependencyTarget request = targetCheck at target
  generalize tables.checkDependencyCycle request = cycleCheck at cycle
  cases targetCheck <;> split_ifs <;>
    simp_all [bind, Except.bind, throw, throwThe, MonadExceptOf.throw, pure, Except.pure]

theorem checkDependencyCycle_ok : tables.checkDependencyCycle request = .ok () ↔
    request.issueId ≠ request.dependsOnId ∧ (request.type.scheduling = true →
      ¬Relation.ReflTransGen (tables.Linked DependencyType.scheduling) request.dependsOnId request.issueId) := by
  rw [← wouldCreateSchedulingCycle_iff]
  unfold checkDependencyCycle
  by_cases same : request.issueId = request.dependsOnId
  · simp [same]
  · cases request.type.scheduling <;> simp [same]

theorem checkDependencyCycle_cycle (refused : tables.checkDependencyCycle request = .error .dependencyCycle) :
    request.type.scheduling = true ∧
      Relation.ReflTransGen (tables.Linked DependencyType.scheduling) request.dependsOnId request.issueId := by
  rw [← wouldCreateSchedulingCycle_iff]
  unfold checkDependencyCycle at refused
  by_cases same : request.issueId = request.dependsOnId
  · simp [same] at refused
  · simpa [same] using refused

theorem newDependency_id : (tables.newDependency request opts).target.id = request.dependsOnId := by
  unfold newDependency classifyDepTarget
  split <;> rfl

theorem newDependency_key : (tables.newDependency request opts).key = (request.issueId, request.dependsOnId) :=
  Prod.ext rfl newDependency_id

end Tables

end Beads
