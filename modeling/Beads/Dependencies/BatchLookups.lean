import Beads.Data.BidirectionalSearch
import Beads.Dependencies.Edit

/-! A batch of several edges answers its hierarchy and cycle checks from a graph that loads the
dependency rows of a node the first time a search needs them, and records the rows the batch itself
writes. -/

namespace Beads

open Batches BidirectionalSearch List

structure DepEdge where
  table : Plane
  source : Id
  target : Id
  type : DependencyType
  deriving DecidableEq, Repr

namespace DepEdge

def key (edge : DepEdge) : Plane × Id × Id := (edge.table, edge.source, edge.target)

def near (edge : DepEdge) : Direction → Id
  | .forward => edge.source
  | .backward => edge.target

def far (edge : DepEdge) (direction : Direction) : Id := edge.near direction.flip

end DepEdge

def Dependency.edge (table : Plane) (row : Dependency) : DepEdge :=
  ⟨table, row.issueId, row.target.id, row.type⟩

/-- The ids whose rows are known in each direction (`loadedOut`, `loadedIn`), and the known rows. -/
structure DepGraph where
  loaded : Direction → List Id
  rows : List DepEdge

namespace DepGraph

def empty : DepGraph := ⟨fun _ => [], []⟩

def knows (rows : List DepEdge) (key : Plane × Id × Id) : Bool := rows.any fun edge => edge.key == key

variable (tables : Tables)

def readRows (direction : Direction) (chunk : List Id) (rows : List DepEdge) (table : Plane) : List DepEdge :=
  rows ++ ((tables.dependencies table).map (Dependency.edge table)).filter fun edge =>
    chunk.contains (edge.near direction) && !knows rows edge.key

def load (graph : DepGraph) (direction : Direction) (ids : List Id) : DepGraph :=
  let todo := ids.eraseDups.filter fun id => id != "" && !(graph.loaded direction).contains id
  ⟨Function.update graph.loaded direction (graph.loaded direction ++ todo),
    (batches queryBatchSize todo).foldl (fun rows chunk => planes.foldl (readRows tables direction chunk) rows) graph.rows⟩

variable (types : DependencyType → Bool)

def next (graph : DepGraph) (direction : Direction) (node : Id) : List Id :=
  (graph.rows.filter fun edge => edge.target != "" && types edge.type && edge.near direction == node).map
    fun edge => edge.far direction

def reader : Reader Id DepGraph := ⟨load tables, next types⟩

def endpoints : List Id :=
  planes.flatMap fun table => (tables.dependencies table).flatMap fun row => [row.issueId, row.target.id]

/-- The search of the graph. No node is seen twice from one end, so this many rounds are enough. -/
def reaches (graph : DepGraph) (start goal : Id) : Bool × DepGraph :=
  BidirectionalSearch.reaches (reader tables types) (2 * (endpoints tables).length + 2) graph start goal

def add (graph : DepGraph) (edge : DepEdge) : DepGraph :=
  { graph with rows := graph.rows ++ [edge] }

/-- Replace the view of one key by what the table holds now. -/
def reload (graph : DepGraph) (key : Plane × Id × Id) : DepGraph :=
  { graph with rows := graph.rows.filter (fun edge => edge.key != key) ++
      ((tables.dependencies key.1).map (Dependency.edge key.1)).filter fun edge => edge.key == key }

/-- The affected row is the given one, or another with its key. -/
def recordInsert (graph : DepGraph) (edge : DepEdge) : DepGraph :=
  if !knows graph.rows edge.key && ((graph.loaded .forward).contains edge.source ||
    (graph.loaded .backward).contains edge.target)
  then graph.add edge
  else graph.reload tables edge.key

end DepGraph

def depBatchGraphMinEdges : Nat := 2

def depBatchLookupsMinDeps : Nat := 2

abbrev DepBatchLookups := Option DepGraph

namespace DepBatchLookups

variable (tables : Tables)

def new (createFastPathsDisabled : Bool) (requests : List DependencyRequest) : DepBatchLookups :=
  let ids := (requests.flatMap fun request => [request.issueId, request.dependsOnId]).filter (· != "")
  let scheduling := requests.countP fun request => request.type.scheduling && request.issueId != request.dependsOnId
  if depBatchLookupsMinDeps ≤ requests.length && !createFastPathsDisabled && depBatchGraphMinEdges ≤ scheduling
  then some ((DepGraph.empty.load tables .forward ids.eraseDups).load tables .backward ids.eraseDups)
  else none

variable (lookups : DepBatchLookups)

def checkHierarchy (request : DependencyRequest) :
    Except DependencyError Unit × DepBatchLookups :=
  match lookups with
  | none => (tables.checkBlockingHierarchy request, none)
  | some graph =>
    if !request.type.blocking || request.issueId == request.dependsOnId then (.ok (), some graph)
    else
      let ancestor := graph.reaches tables (· == .parentChild) request.issueId request.dependsOnId
      if ancestor.1 then (.error (.hierarchyConflict request.issueId request.dependsOnId true), some ancestor.2)
      else
        let descendant := ancestor.2.reaches tables (· == .parentChild) request.dependsOnId request.issueId
        if descendant.1 then (.error (.hierarchyConflict request.issueId request.dependsOnId false), some descendant.2)
        else (.ok (), some descendant.2)

def checkCycle (request : DependencyRequest) :
    Except DependencyError Unit × DepBatchLookups :=
  match lookups with
  | none => (tables.checkDependencyCycle request, none)
  | some graph =>
    if request.issueId == request.dependsOnId then (.error (.selfDependency request.issueId), some graph)
    else if !request.type.scheduling then (.ok (), some graph)
    else
      let cycle := graph.reaches tables DependencyType.scheduling request.dependsOnId request.issueId
      if cycle.1 then (.error .dependencyCycle, some cycle.2) else (.ok (), some cycle.2)

def recordInsert (edge : DepEdge) : DepBatchLookups :=
  lookups.map fun graph => graph.recordInsert tables edge

end DepBatchLookups

/-- Every stored row has an id, and every dependency row a source. -/
structure Tables.Named (tables : Tables) : Prop where
  items : ∀ plane, ∀ row ∈ tables.items plane, row.id ≠ ""
  sources : ∀ plane, ∀ row ∈ tables.dependencies plane, row.issueId ≠ ""

def Tables.edges (tables : Tables) : List DepEdge :=
  planes.flatMap fun table => (tables.dependencies table).map (Dependency.edge table)

namespace DepGraph

variable {tables : Tables} {graph : DepGraph} {types : DependencyType → Bool} {edge : DepEdge}
  {rows : List DepEdge} {direction : Direction}

theorem mem_map_edge {table : Plane} :
    edge ∈ (tables.dependencies table).map (Dependency.edge table) ↔ edge ∈ tables.edges ∧ edge.table = table := by
  simp only [Tables.edges, mem_flatMap, mem_map]
  constructor
  · rintro ⟨row, member, rfl⟩
    exact ⟨⟨table, mem_planes _, row, member, rfl⟩, rfl⟩
  · rintro ⟨⟨_, _, row, member, rfl⟩, rfl⟩
    exact ⟨row, member, rfl⟩

theorem mem_edges : edge ∈ tables.edges ↔ ∃ row ∈ tables.dependencies edge.table, row.edge edge.table = edge := by
  rw [← mem_map, mem_map_edge, and_iff_left rfl]

theorem edges_keyed {other : DepEdge} (member : edge ∈ tables.edges)
    (otherMember : other ∈ tables.edges) (same : edge.key = other.key) : edge = other := by
  obtain ⟨row, stored, shape⟩ := mem_edges.mp member
  obtain ⟨otherRow, otherStored, otherShape⟩ := mem_edges.mp otherMember
  obtain ⟨table, _, _, _⟩ := edge
  obtain ⟨otherTable, _, _, _⟩ := other
  simp only [DepEdge.key, Prod.mk.injEq] at same
  obtain ⟨rfl, sources, targets⟩ := same
  simp only [Dependency.edge, DepEdge.mk.injEq, true_and] at shape otherShape
  have rowsEq : row = otherRow := by
    refine inj_on_of_nodup_map (tables.dependenciesKeyed table) stored otherStored (Prod.ext ?_ ?_)
    · exact shape.1.trans (sources.trans otherShape.1.symm)
    · exact shape.2.1.trans (targets.trans otherShape.2.1.symm)
  subst rowsEq
  simp [sources, targets, ← shape.2.2, ← otherShape.2.2]

section

variable (stored : rows ⊆ tables.edges)
include stored

theorem mem_of_knows (member : edge ∈ tables.edges) (known : knows rows edge.key = true) : edge ∈ rows := by
  obtain ⟨other, listed, same⟩ := any_eq_true.mp known
  rw [edges_keyed member (stored listed) (beq_iff_eq.mp same).symm]
  exact listed

theorem mem_readRows {chunk : List Id} {table : Plane} : edge ∈ readRows tables direction chunk rows table ↔
      edge ∈ rows ∨ edge ∈ tables.edges ∧ edge.table = table ∧ edge.near direction ∈ chunk := by
  rw [readRows, mem_append, mem_filter, mem_map_edge]
  cases known : knows rows edge.key with
  | true => simpa [known] using fun member _ _ => mem_of_knows stored member known
  | false => simp [and_assoc]

theorem mem_foldl_read {α : Type} {read : List DepEdge → α → List DepEdge} (fresh : α → DepEdge → Prop)
    (each : ∀ rows input edge, rows ⊆ tables.edges →
      (edge ∈ read rows input ↔ edge ∈ rows ∨ edge ∈ tables.edges ∧ fresh input edge))
    (inputs : List α) : edge ∈ inputs.foldl read rows ↔ edge ∈ rows ∨ edge ∈ tables.edges ∧
      ∃ input ∈ inputs, fresh input edge := by
  induction inputs generalizing rows with
  | nil => simp
  | cons input rest ih =>
    have first : read rows input ⊆ tables.edges := fun edge member => ((each _ _ _ stored).mp member).elim (@stored edge) And.left
    rw [foldl_cons, ih first, each _ _ _ stored]
    simp [and_or_left, or_assoc]

theorem mem_readChunks {chunks : List (List Id)} :
    edge ∈ chunks.foldl (fun rows chunk => planes.foldl (readRows tables direction chunk) rows) rows ↔
      edge ∈ rows ∨ edge ∈ tables.edges ∧ ∃ chunk ∈ chunks, edge.near direction ∈ chunk := by
  refine mem_foldl_read stored (fun chunk edge => edge.near direction ∈ chunk) (fun rows chunk edge stored => ?_) chunks
  refine (mem_foldl_read stored (fun table edge => edge.table = table ∧ edge.near direction ∈ chunk)
    (fun _ _ _ stored => mem_readRows stored) planes).trans ?_
  simp [mem_planes]

end

/-- The known rows are stored, and all rows of a loaded id are known. -/
structure Mirrors (tables : Tables) (graph : DepGraph) : Prop where
  stored : graph.rows ⊆ tables.edges
  known : ∀ direction, ∀ edge ∈ tables.edges, edge.near direction ∈ graph.loaded direction → edge ∈ graph.rows

theorem mirrors_empty (tables : Tables) : Mirrors tables empty :=
  ⟨nil_subset _, nofun⟩

theorem mem_loaded_load {ids : List Id} {id : Id} : id ∈ (graph.load tables direction ids).loaded direction ↔
    id ∈ graph.loaded direction ∨ id ∈ ids ∧ id ≠ "" := by
  by_cases known : id ∈ graph.loaded direction <;> simp [load, known]

theorem Mirrors.load (mirrors : Mirrors tables graph) (ids : List Id) : Mirrors tables (graph.load tables direction ids) := by
  have rows : ∀ {edge}, edge ∈ (graph.load tables direction ids).rows ↔ edge ∈ graph.rows ∨
      edge ∈ tables.edges ∧ edge.near direction ∈ ids.eraseDups.filter fun id => id != "" &&
        !(graph.loaded direction).contains id := by
    exact (mem_readChunks mirrors.stored).trans (or_congr_right (and_congr_right fun _ => mem_batches (by decide)))
  refine ⟨?_, ?_⟩
  · intro edge member
    exact (rows.mp member).elim (@mirrors.stored edge) And.left
  · intro side edge member loaded
    rw [rows]
    by_cases old : edge.near side ∈ graph.loaded side
    · exact .inl (mirrors.known side edge member old)
    · obtain rfl : side = direction := by
        by_contra differ
        have unchanged : (graph.load tables direction ids).loaded side = graph.loaded side := Function.update_of_ne differ _ _
        exact old (unchanged ▸ loaded)
      have new := (mem_loaded_load.mp loaded).resolve_left old
      exact .inr ⟨member, by simp [new.1, new.2, old]⟩

/-- The links a search follows: those to a target with a name. -/
def Walks (tables : Tables) (types : DependencyType → Bool) (source target : Id) : Prop :=
  tables.Linked types source target ∧ target ≠ ""

theorem walks_iff {source target : Id} : Walks tables types source target ↔
    ∃ edge ∈ tables.edges, edge.source = source ∧ edge.target = target ∧ types edge.type = true ∧ edge.target ≠ "" := by
  constructor
  · rintro ⟨⟨plane, row, member, source, type, rfl⟩, named⟩
    exact ⟨row.edge plane, mem_edges.mpr ⟨row, member, rfl⟩, source, rfl, type, named⟩
  · rintro ⟨edge, member, source, rfl, type, named⟩
    obtain ⟨row, stored, shape⟩ := mem_edges.mp member
    rw [← shape] at source type named ⊢
    exact ⟨⟨edge.table, row, stored, source, type, rfl⟩, named⟩

theorem along_walks {node other : Id} : Along (Walks tables types) direction node other ↔
    ∃ edge ∈ tables.edges, edge.near direction = node ∧ edge.far direction = other ∧
      types edge.type = true ∧ edge.target ≠ "" := by
  cases direction with
  | forward => exact walks_iff
  | backward => exact walks_iff.trans (exists_congr fun edge => and_congr_right fun _ => and_left_comm)

theorem mem_next {node other : Id} : other ∈ graph.next types direction node ↔
    ∃ edge ∈ graph.rows, edge.near direction = node ∧ edge.far direction = other ∧ types edge.type = true ∧ edge.target ≠ "" := by
  simp only [next, mem_map, mem_filter, Bool.and_eq_true, bne_iff_ne, beq_iff_eq]
  refine exists_congr fun edge => ?_
  constructor
  · intro ⟨⟨member, ⟨named, type⟩, near⟩, far⟩
    exact ⟨member, near, far, type, named⟩
  · intro ⟨member, near, far, type, named⟩
    exact ⟨⟨member, ⟨named, type⟩, near⟩, far⟩

section

variable (named : tables.Named)
include named

theorem reads (types : DependencyType → Bool) :
    Reads (reader tables types) (Walks tables types) (Mirrors tables) := by
  refine ⟨fun mirrors => mirrors.load _, ?_⟩
  intro graph direction nodes node mirrors member other
  have loaded : Mirrors tables (graph.load tables direction nodes) := mirrors.load nodes
  refine mem_next.trans (Iff.trans (exists_congr fun edge => ?_) along_walks.symm)
  constructor
  · intro ⟨known, rest⟩
    exact ⟨loaded.stored known, rest⟩
  · intro ⟨stored, near, far, type, hasTarget⟩
    have hasNear : edge.near direction ≠ "" := by
      cases direction with
      | forward =>
        obtain ⟨row, listed, shape⟩ := mem_edges.mp stored
        rw [← shape]
        exact named.sources _ row listed
      | backward => exact hasTarget
    have asked : edge.near direction ∈ (graph.load tables direction nodes).loaded direction :=
      mem_loaded_load.mpr (.inr ⟨near ▸ member, hasNear⟩)
    exact ⟨loaded.known direction edge stored asked, near, far, type, hasTarget⟩

theorem walks_reflTransGen {start goal : Id} (hasGoal : goal ≠ "") :
    Relation.ReflTransGen (Walks tables types) start goal ↔ Relation.ReflTransGen (tables.Linked types) start goal := by
  refine ⟨fun path => Relation.ReflTransGen.mono (fun _ _ step => step.1) _ _ path, fun path => ?_⟩
  -- Only the goal has no link of its own, so every node of the path but the start has a name.
  induction path using Relation.ReflTransGen.head_induction_on with
  | refl => exact .refl
  | head step rest ih =>
    refine .head ⟨step, ?_⟩ ih
    cases rest using Relation.ReflTransGen.head_induction_on with
    | refl => exact hasGoal
    | head next _ =>
      obtain ⟨plane, row, member, source, _⟩ := next
      exact source ▸ named.sources plane row member

theorem reaches_walks (mirrors : Mirrors tables graph) (types : DependencyType → Bool) (start goal : Id) :
    ((graph.reaches tables types start goal).1 = true ↔ Relation.ReflTransGen (Walks tables types) start goal) ∧
      Mirrors tables (graph.reaches tables types start goal).2 := by
  have bounded : ∀ {node other}, Walks tables types node other → node ∈ endpoints tables ∧ other ∈ endpoints tables := by
    intro node other ⟨⟨plane, row, member, source, _, target⟩, _⟩
    constructor
    · exact mem_flatMap.mpr ⟨plane, mem_planes plane, mem_flatMap.mpr ⟨row, member, by simp [source]⟩⟩
    · exact mem_flatMap.mpr ⟨plane, mem_planes plane, mem_flatMap.mpr ⟨row, member, by simp [target]⟩⟩
  exact BidirectionalSearch.reaches_iff (reads named types) bounded mirrors (Nat.le_refl _)

theorem reaches_exact (mirrors : Mirrors tables graph) (types : DependencyType → Bool) (start : Id)
    {goal : Id} (hasGoal : goal ≠ "") :
    (graph.reaches tables types start goal).1 = (tables.reachableIds types start).contains goal ∧
      Mirrors tables (graph.reaches tables types start goal).2 := by
  obtain ⟨answer, valid⟩ := reaches_walks named mirrors types start goal
  refine ⟨?_, valid⟩
  rw [Bool.eq_iff_iff, contains_iff_mem, Tables.mem_reachableIds, ← walks_reflTransGen named hasGoal]
  exact answer

end

theorem Mirrors.recordInsert {after : Tables} (mirrors : Mirrors tables graph)
    (kept : ∀ other : DepEdge, other.key ≠ edge.key → (other ∈ tables.edges ↔ other ∈ after.edges))
    (present : edge ∈ after.edges ∨ ∃ other ∈ tables.edges, other.key = edge.key) :
    Mirrors after (graph.recordInsert after edge) := by
  unfold DepGraph.recordInsert
  split
  · rename_i unknown
    simp only [Bool.and_eq_true, Bool.not_eq_true', Bool.or_eq_true, contains_iff_mem] at unknown
    obtain ⟨unknown, loaded⟩ := unknown
    have fresh : ∀ other ∈ graph.rows, other.key ≠ edge.key := by
      intro other member same
      rw [knows, any_eq_false] at unknown
      exact unknown other member (beq_iff_eq.mpr same)
    have inserted : edge ∈ after.edges := by
      refine present.resolve_right fun ⟨other, member, same⟩ => ?_
      have ends := (Prod.mk.inj (Prod.mk.inj same).2)
      refine fresh other ?_ same
      cases loaded with
      | inl out => exact mirrors.known .forward other member (by rw [← ends.1] at out; exact out)
      | inr back => exact mirrors.known .backward other member (by rw [← ends.2] at back; exact back)
    constructor
    · intro other member
      cases mem_append.mp member with
      | inl old => exact (kept other (fresh other old)).mp (mirrors.stored old)
      | inr new => exact mem_singleton.mp new ▸ inserted
    · intro direction other member known
      by_cases same : other.key = edge.key
      · rw [edges_keyed member inserted same]
        exact mem_append_right _ (.head _)
      · exact mem_append_left _ (mirrors.known direction other ((kept other same).mpr member) known)
  · have ofKey : ∀ {other}, other ∈ ((after.dependencies edge.key.1).map (Dependency.edge edge.key.1)).filter
        (fun other => other.key == edge.key) ↔ other ∈ after.edges ∧ other.key = edge.key := by
      intro other
      rw [mem_filter, beq_iff_eq, mem_map_edge]
      exact and_congr_left fun same => and_iff_left (Prod.mk.inj same).1
    constructor
    · intro other member
      cases mem_append.mp member with
      | inl old =>
        obtain ⟨listed, differs⟩ := mem_filter.mp old
        exact (kept other (by simpa using differs)).mp (mirrors.stored listed)
      | inr new => exact (ofKey.mp new).1
    · intro direction other member known
      refine mem_append.mpr ?_
      by_cases same : other.key = edge.key
      · exact .inr (ofKey.mpr ⟨member, same⟩)
      · have old := mirrors.known direction other ((kept other same).mpr member) known
        exact .inl (mem_filter.mpr ⟨old, by simpa using same⟩)

end DepGraph

namespace DepBatchLookups

open DepGraph

variable {tables : Tables} {lookups : DepBatchLookups} {request : DependencyRequest}

def Mirrors (tables : Tables) (lookups : DepBatchLookups) : Prop :=
  ∀ graph ∈ lookups, DepGraph.Mirrors tables graph

theorem mirrors_new (tables : Tables) (createFastPathsDisabled : Bool) (requests : List DependencyRequest) :
    Mirrors tables (new tables createFastPathsDisabled requests) := by
  intro graph same
  simp only [new, Option.mem_def, Option.ite_none_right_eq_some, Option.some.injEq] at same
  rw [← same.2]
  exact ((mirrors_empty tables).load _).load _

theorem mirrors_some {graph : DepGraph} (mirrors : DepGraph.Mirrors tables graph) : Mirrors tables (some graph) :=
  fun _ same => Option.some_inj.mp same ▸ mirrors

theorem checkHierarchy_exact (named : tables.Named) (mirrors : Mirrors tables lookups)
    (source : request.issueId ≠ "") (target : request.dependsOnId ≠ "") :
    (checkHierarchy tables lookups request).1 = tables.checkBlockingHierarchy request ∧
      Mirrors tables (checkHierarchy tables lookups request).2 := by
  cases lookups with
  | none => exact ⟨rfl, mirrors⟩
  | some graph =>
    have up := reaches_exact named (mirrors graph rfl) (· == .parentChild) request.issueId target
    have down := reaches_exact named up.2 (· == .parentChild) request.dependsOnId source
    unfold checkHierarchy Tables.checkBlockingHierarchy Tables.isAncestor
    by_cases skipped : (!request.type.blocking || request.issueId == request.dependsOnId) = true
    · simp only [if_pos skipped]
      exact ⟨trivial, mirrors⟩
    · simp only [if_neg skipped, up.1, down.1]
      cases (tables.reachableIds (· == .parentChild) request.issueId).contains request.dependsOnId with
      | true => exact ⟨rfl, mirrors_some up.2⟩
      | false =>
        cases (tables.reachableIds (· == .parentChild) request.dependsOnId).contains request.issueId with
        | true | false => exact ⟨rfl, mirrors_some down.2⟩

theorem checkCycle_exact (named : tables.Named) (mirrors : Mirrors tables lookups) (source : request.issueId ≠ "") :
    (checkCycle tables lookups request).1 = tables.checkDependencyCycle request ∧
      Mirrors tables (checkCycle tables lookups request).2 := by
  cases lookups with
  | none => exact ⟨rfl, mirrors⟩
  | some graph =>
    have search := reaches_exact named (mirrors graph rfl) DependencyType.scheduling request.dependsOnId source
    have after := mirrors_some search.2
    simp only [checkCycle, Tables.checkDependencyCycle, Tables.wouldCreateSchedulingCycle, search.1]
    cases request.type.scheduling <;> split_ifs <;> simp_all

end DepBatchLookups

end Beads
