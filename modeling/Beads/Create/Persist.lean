import Beads.Data.Fallible
import Beads.Dependencies.BatchLookups
import Beads.Dependencies.Rewiring

namespace Beads

open Fallible Tables DepBatchLookups

structure BatchCreateOptions where
  createOnly : Bool := false
  conflictSkip : Bool := false
  rejectStaleUpserts : Bool := false
  skipDependencyValidationErrors : Bool := false

structure PersistedDependency where
  source : ItemRef
  target : Id
  type : DependencyType
  deriving DecidableEq, Repr

inductive CreateError where
  | crossPlaneBatchEdge (sourceId dependsOnId : Id)
  | invalidIssue (id : Id)
  | alreadyExists (id : Id)
  | crossTableIdCollision (id : Id) (sibling : Plane)
  | invalidDependency (issueId dependsOnId : Id) (refusal : DependencyError)
  | missingSource (issueId dependsOnId : Id)
  | recomputeUnfinished
  deriving DecidableEq, Repr

def Tables.missing (tables : Tables) : Target → Bool
  | .external _ => false
  | .item ref => !tables.stored ref

structure PersistState where
  tables : Tables
  lookups : DepBatchLookups
  persisted : List PersistedDependency := []

/-- The hierarchy check is for targets of this database, whose ids share the source's prefix. -/
def PersistState.check (state : PersistState) (request : DependencyRequest) :
    Target → Except DependencyError Unit × DepBatchLookups
  | .external _ => state.lookups.checkCycle state.tables request
  | .item _ =>
    let hierarchy := state.lookups.checkHierarchy state.tables request
    match hierarchy.1 with
    | .error refusal => (.error refusal, hierarchy.2)
    | .ok () => hierarchy.2.checkCycle state.tables request

/-- `INSERT ... ON DUPLICATE KEY UPDATE type = type`. A connection that counts found rows reports a
stored row with the key as affected too. -/
def PersistState.insert (clientFoundRows : Bool) (state : PersistState)
    (request : DependencyRequest) (row : Dependency) : Except CreateError PersistState :=
  let plane := state.tables.wispTableRouting request.issueId
  let edge : DepEdge := ⟨plane, request.issueId, request.dependsOnId, request.type⟩
  let persisted := state.persisted ++ [⟨⟨plane, request.issueId⟩, request.dependsOnId, request.type⟩]
  match state.tables.existingDependency plane request.issueId request.dependsOnId with
  | some _ =>
    if clientFoundRows then .ok ⟨state.tables, state.lookups.recordInsert state.tables edge, persisted⟩ else .ok state
  | none =>
    if state.tables.stored ⟨plane, request.issueId⟩ then
      let inserted := state.tables.insertDependency plane row
      .ok ⟨inserted, state.lookups.recordInsert inserted edge, persisted⟩
    else .error (.missingSource request.issueId request.dependsOnId)

def persistDependency (opts : BatchCreateOptions) (clientFoundRows : Bool) (state : PersistState)
    (request : DependencyRequest) : Except CreateError PersistState :=
  let isCrossPrefix := extractPrefix request.issueId != extractPrefix request.dependsOnId
  let row := state.tables.newDependency request { isCrossPrefix }
  if state.tables.missing row.target then .ok state
  else
    let checked := state.check request row.target
    match checked.1 with
    | .error refusal =>
      if opts.skipDependencyValidationErrors then .ok { state with lookups := checked.2 }
      else .error (.invalidDependency request.issueId request.dependsOnId refusal)
    | .ok () => { state with lookups := checked.2 }.insert clientFoundRows request row

def persistDependencies (opts : BatchCreateOptions) (clientFoundRows createFastPathsDisabled : Bool)
    (tables : Tables) (requests : List DependencyRequest) : Except CreateError PersistState :=
  (requests.filter (·.type == .parentChild) ++ requests.filter (·.type != .parentChild)).foldlM
    (persistDependency opts clientFoundRows) { tables, lookups := .new tables createFastPathsDisabled requests }

structure NewEdge (before after : Tables) (request : DependencyRequest) (opts : AddDependencyOpts) : Prop where
  cycle : before.checkDependencyCycle request = .ok ()
  hierarchy : ∀ ref, (before.newDependency request opts).target = .item ref → before.checkBlockingHierarchy request = .ok ()
  source : before.stored ⟨before.wispTableRouting request.issueId, request.issueId⟩ = true
  absent : (request.issueId, request.dependsOnId) ∉
    (before.dependencies (before.wispTableRouting request.issueId)).map Dependency.key
  written : after = before.insertDependency (before.wispTableRouting request.issueId) (before.newDependency request opts)

variable {tables : Tables} {requests : List DependencyRequest}

namespace PersistState

variable {state next : PersistState} {request : DependencyRequest} {opts : BatchCreateOptions} {clientFoundRows : Bool}

structure Faithful (state : PersistState) : Prop where
  named : state.tables.Named
  mirrors : state.lookups.Mirrors state.tables

theorem mem_edges_insert {plane : Plane} {row : Dependency} {edge : DepEdge}
    (absent : row.key ∉ (tables.dependencies plane).map Dependency.key) :
    edge ∈ (tables.insertDependency plane row).edges ↔ edge ∈ tables.edges ∨ edge = row.edge plane := by
  simp only [DepGraph.mem_edges, dependencies_insertDependency absent]
  by_cases same : edge.table = plane
  · subst same
    simp [or_comm, eq_comm]
  · have other : edge ≠ row.edge plane := fun equal => same (by rw [equal]; rfl)
    simp [same, other]

theorem edge_newDependency {plane : Plane} {row : AddDependencyOpts} :
    (tables.newDependency request row).edge plane = ⟨plane, request.issueId, request.dependsOnId, request.type⟩ := by
  rw [Dependency.edge, newDependency_id]
  rfl

theorem mirrors_recordInsert {after : Tables} {lookups : DepBatchLookups} {edge : DepEdge} (mirrors : lookups.Mirrors tables)
    (kept : ∀ other : DepEdge, other.key ≠ edge.key → (other ∈ tables.edges ↔ other ∈ after.edges))
    (present : edge ∈ after.edges ∨ ∃ other ∈ tables.edges, other.key = edge.key) :
    (lookups.recordInsert after edge).Mirrors after := by
  intro graph found
  obtain ⟨old, known, same⟩ := Option.map_eq_some_iff.mp found
  exact same ▸ (mirrors old known).recordInsert kept present

section

variable (faithful : state.Faithful) (source : request.issueId ≠ "")
include faithful source

theorem check_exact {target : Target} (found : ∀ ref, target = .item ref → request.dependsOnId ≠ "") :
    (state.check request target).2.Mirrors state.tables ∧ ((state.check request target).1 = .ok () →
      state.tables.checkDependencyCycle request = .ok () ∧
        ∀ ref, target = .item ref → state.tables.checkBlockingHierarchy request = .ok ()) := by
  cases target with
  | external id =>
    have cycle := checkCycle_exact faithful.named faithful.mirrors source
    exact ⟨cycle.2, fun passed => ⟨cycle.1.symm.trans passed, nofun⟩⟩
  | item ref =>
    have hierarchy := checkHierarchy_exact faithful.named faithful.mirrors source (found ref rfl)
    have cycle := checkCycle_exact faithful.named hierarchy.2 source
    simp only [check, hierarchy.1]
    cases answer : state.tables.checkBlockingHierarchy request with
    | error refusal => exact ⟨hierarchy.2, nofun⟩
    | ok => exact ⟨cycle.2, fun passed => ⟨cycle.1.symm.trans passed, fun _ _ => rfl⟩⟩

theorem insert_ok {row : AddDependencyOpts} (cycle : state.tables.checkDependencyCycle request = .ok ())
    (hierarchy : ∀ ref, (state.tables.newDependency request row).target = .item ref →
      state.tables.checkBlockingHierarchy request = .ok ())
    (inserted : state.insert clientFoundRows request (state.tables.newDependency request row) = .ok next) :
    next.Faithful ∧ (next.tables = state.tables ∨ NewEdge state.tables next.tables request row) := by
  cases found : state.tables.existingDependency (state.tables.wispTableRouting request.issueId) request.issueId
      request.dependsOnId with
  | some stored =>
    simp only [PersistState.insert, found] at inserted
    split at inserted
    · obtain ⟨member, key⟩ := existingDependency_eq_some found
      cases inserted
      refine ⟨⟨faithful.named, mirrors_recordInsert faithful.mirrors (fun _ _ => Iff.rfl) (.inr ?_)⟩, .inl rfl⟩
      exact ⟨stored.edge _, DepGraph.mem_edges.mpr ⟨stored, member, rfl⟩, congrArg (Prod.mk _) key⟩
    · cases inserted
      exact ⟨faithful, .inl rfl⟩
  | none =>
    simp only [PersistState.insert, found] at inserted
    obtain ⟨present, inserted⟩ := else_error_eq_ok.mp inserted
    have absent := existingDependency_eq_none found
    have absentKey : (state.tables.newDependency request row).key ∉ _ := newDependency_key ▸ absent
    cases inserted
    refine ⟨⟨⟨?_, ?_⟩, mirrors_recordInsert faithful.mirrors ?_ (.inl ?_)⟩, .inr ⟨cycle, hierarchy, present, absent, rfl⟩⟩
    · simpa using faithful.named.items
    · intro plane next member
      cases (mem_insertDependency absentKey).mp member with
      | inl new => exact new.2 ▸ source
      | inr old => exact faithful.named.sources _ next old
    · intro other differs
      rw [mem_edges_insert absentKey]
      refine ⟨.inl, fun either => either.resolve_right fun same => differs ?_⟩
      rw [same, edge_newDependency]
    · rw [mem_edges_insert absentKey, edge_newDependency]
      exact .inr rfl

theorem persistDependency_ok (step : persistDependency opts clientFoundRows state request = .ok next) :
    next.Faithful ∧ (next.tables = state.tables ∨ ∃ row, NewEdge state.tables next.tables request row) := by
  let row : AddDependencyOpts := { isCrossPrefix := extractPrefix request.issueId != extractPrefix request.dependsOnId }
  let target := (state.tables.newDependency request row).target
  have unfolded : persistDependency opts clientFoundRows state request =
      if state.tables.missing target then .ok state
      else match (state.check request target).1 with
        | .error refusal =>
          if opts.skipDependencyValidationErrors then .ok { state with lookups := (state.check request target).2 }
          else .error (.invalidDependency request.issueId request.dependsOnId refusal)
        | .ok () => { state with lookups := (state.check request target).2 }.insert clientFoundRows request
            (state.tables.newDependency request row) := rfl
  rw [unfolded] at step
  split at step
  · cases step
    exact ⟨faithful, .inl rfl⟩
  · rename_i present
    have found : ∀ ref, target = .item ref → request.dependsOnId ≠ "" := by
      intro ref named
      have stored : state.tables.stored ref = true := by simpa [named, missing] using present
      obtain ⟨item, member, same⟩ := stored_iff.mp stored
      have id : target.id = request.dependsOnId := newDependency_id
      rw [← id, named]
      change ref.id ≠ ""
      rw [← same]
      exact faithful.named.items _ item member
    obtain ⟨mirrors, passed⟩ := PersistState.check_exact faithful source found
    cases answer : (state.check request target).1 with
    | error refusal =>
      simp only [answer] at step
      split at step
      · cases step
        exact ⟨⟨faithful.named, mirrors⟩, .inl rfl⟩
      · cases step
    | ok =>
      simp only [answer] at step
      obtain ⟨cycle, hierarchy⟩ := passed answer
      have checked : PersistState.Faithful { state with lookups := (state.check request target).2 } := ⟨faithful.named, mirrors⟩
      obtain ⟨after, either⟩ := insert_ok checked source cycle hierarchy step
      exact ⟨after, either.imp_right fun new => ⟨row, new⟩⟩

end

end PersistState

theorem persistDependencies_finished {opts : BatchCreateOptions} {clientFoundRows createFastPathsDisabled : Bool} :
    persistDependencies opts clientFoundRows createFastPathsDisabled tables requests ≠ .error .recomputeUnfinished := by
  refine foldlM_never (fun state request failed => ?_) _ _
  have inserting : ∀ (state : PersistState) row, state.insert clientFoundRows request row ≠ .error .recomputeUnfinished := by
    intro state row failed
    simp only [PersistState.insert] at failed
    split at failed
    · split at failed <;> cases failed
    · split at failed <;> cases failed
  simp only [persistDependency] at failed
  split at failed
  · cases failed
  · split at failed
    · split at failed <;> cases failed
    · exact inserting _ _ failed

theorem persistDependencies_preserves {opts : BatchCreateOptions}
    {clientFoundRows createFastPathsDisabled : Bool} {next : PersistState} (holds : Tables → Prop)
    (sources : ∀ request ∈ requests, request.issueId ≠ "") (named : tables.Named)
    (each : ∀ request before after row, holds before → NewEdge before after request row → holds after) (start : holds tables)
    (finished : persistDependencies opts clientFoundRows createFastPathsDisabled tables requests =
    .ok next) : next.tables.Named ∧ holds next.tables := by
  have whole : next.Faithful ∧ holds next.tables := by
    refine foldlM_preserves (fun state => state.Faithful ∧ holds state.tables) (fun request member state next before step => ?_)
      ⟨⟨named, mirrors_new tables _ _⟩, start⟩ finished
    have source : request.issueId ≠ "" := by
      refine sources request ?_
      rw [List.mem_append, List.mem_filter, List.mem_filter] at member
      exact member.elim And.left And.left
    obtain ⟨after, either⟩ := PersistState.persistDependency_ok before.1 source step
    refine ⟨after, ?_⟩
    cases either with
    | inl same => exact same ▸ before.2
    | inr new =>
      obtain ⟨row, edge⟩ := new
      exact each request _ _ row before.2 edge
  exact ⟨whole.1.named, whole.2⟩

theorem NewEdge.acyclic {before after : Tables} {request : DependencyRequest} {opts : AddDependencyOpts}
    (edge : NewEdge before after request opts) (acyclic : before.ParentChildAcyclic) : after.ParentChildAcyclic := by
  rw [edge.written]
  exact acyclic_insertDependency edge.cycle edge.absent acyclic

end Beads
