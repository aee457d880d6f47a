import Beads.Create.Consistency

namespace Beads

namespace PersistState

variable (opts : BatchCreateOptions) (clientFoundRows : Bool) (issues : List NewIssue) (start : PersistState)

/-- The points of a batch after its start: some of its requests were persisted, and pairs of ids
were searched. -/
inductive Point : PersistState → Prop
  | start : Point start
  | persist {state next : PersistState} {request : DependencyRequest} (before : Point state)
      (listed : request ∈ issues.flatMap NewIssue.requests)
      (step : persistDependency opts clientFoundRows state request = .ok next) : Point next
  | search {state : PersistState} {graph : DepGraph} (before : Point state) (loaded : state.lookups = some graph)
      (types : DependencyType → Bool) (origin goal : Id) :
      Point { state with lookups := some (graph.reaches state.tables types origin goal).2 }

variable {opts clientFoundRows issues start} {state : PersistState}

theorem Point.faithful (initial : start.Faithful) (point : Point opts clientFoundRows issues start state) : state.Faithful := by
  induction point with
  | start => exact initial
  | persist _ listed step ih =>
    obtain ⟨issue, _, member⟩ := List.mem_flatMap.mp listed
    exact (persistDependency_ok ih (Store.NewIssue.requests_named member) step).1
  | search _ loaded types origin goal ih =>
    have searched := DepGraph.reaches_walks ih.named (ih.mirrors _ loaded) types origin goal
    exact ⟨ih.named, fun graph same => Option.some.inj same ▸ searched.2⟩

/-- At every point of a batch, whatever was loaded before, the search of the graph answers as the
recursive query over the stored rows, but for the empty id: a link to it is stored and never walked.
-/
theorem search_answers (tables : Tables) (named : tables.Named) (opts : BatchCreateOptions)
    (clientFoundRows createFastPathsDisabled : Bool) (issues : List NewIssue) {graph : DepGraph}
    (point : Point opts clientFoundRows issues
      { tables, lookups := .new tables createFastPathsDisabled (issues.flatMap NewIssue.requests) } state)
    (loaded : state.lookups = some graph) (types : DependencyType → Bool) (start goal : Id) :
    (graph.reaches state.tables types start goal).1 =
      ((state.tables.reachableIds types start).contains goal && (goal != "" || start == "")) := by
  have faithful := point.faithful ⟨named, DepBatchLookups.mirrors_new tables _ _⟩
  have mirrors := faithful.mirrors graph loaded
  by_cases empty : goal = ""
  · subst empty
    rw [Bool.eq_iff_iff, (DepGraph.reaches_walks faithful.named mirrors types start "").1]
    simp only [bne_self_eq_false, Bool.false_or, Bool.and_eq_true, List.contains_iff_mem, Tables.mem_reachableIds, beq_iff_eq]
    constructor
    · intro path
      cases path with
      | refl => exact ⟨.refl, rfl⟩
      | tail _ step => exact absurd rfl step.2
    · intro ⟨_, same⟩
      rw [same]
  · simp [(DepGraph.reaches_exact faithful.named mirrors types start empty).1, empty]

/-- `bd-3` is blocked by `bd-2`. -/
def storedBlocker : Tables where
  items
    | .issue => [⟨"bd-1", .opened⟩, ⟨"bd-2", .opened⟩, ⟨"bd-3", .opened⟩]
    | .wisp => []
  dependencies
    | .issue => [⟨"bd-3", .item ⟨.issue, "bd-2"⟩, .blocks, {}, none⟩]
    | .wisp => []

def secondBlocker : List NewIssue :=
  [{ id := "bd-2", plane := .issue, status := .opened,
     dependencies := [⟨"", "bd-1", .blocks, {}, ""⟩, ⟨"", "bd-4", .blocks, {}, ""⟩] }]

/-- After the batch has linked `bd-2` to `bd-1` and searched for `bd-2`, the stored link and the new
one make a path. -/
theorem search_answers_linked : ∃ (state : PersistState) (graph : DepGraph), state.lookups = some graph ∧
    (graph.reaches state.tables DependencyType.scheduling "bd-3" "bd-1").1 =
      ((state.tables.reachableIds DependencyType.scheduling "bd-3").contains "bd-1" && true) ∧
    (graph.reaches state.tables DependencyType.scheduling "bd-3" "bd-1").1 = true := by
  let start : PersistState :=
    { tables := storedBlocker, lookups := .new storedBlocker false (secondBlocker.flatMap NewIssue.requests) }
  have found : (persistDependency {} false start ⟨"bd-2", "bd-1", .blocks, {}, ""⟩).map (fun next =>
      next.lookups.map fun graph =>
        ((graph.reaches next.tables DependencyType.scheduling "bd-3" "bd-2").2.reaches next.tables
          DependencyType.scheduling "bd-3" "bd-1").1) = .ok (some true) := by decide +kernel
  obtain ⟨next, persisted, loaded⟩ := Fallible.map_eq_ok found
  obtain ⟨graph, held, answer⟩ := Option.map_eq_some_iff.mp loaded
  have point : Point {} false secondBlocker start next := .persist .start (.head _) persisted
  have searched := point.search held DependencyType.scheduling "bd-3" "bd-2"
  exact ⟨_, _, rfl, search_answers storedBlocker ⟨by decide, by decide⟩ {} false false secondBlocker
    searched rfl _ "bd-3" "bd-1", answer⟩

/-- `bd-1` depends on the empty id. -/
def unnamedTarget : Tables where
  items
    | .issue => [⟨"bd-1", .opened⟩, ⟨"bd-2", .opened⟩]
    | .wisp => []
  dependencies
    | .issue => [⟨"bd-1", .external "", .blocks, {}, none⟩]
    | .wisp => []

def twoBlockers : List NewIssue :=
  [{ id := "bd-2", plane := .issue, status := .opened,
     dependencies := [⟨"", "bd-1", .blocks, {}, ""⟩, ⟨"", "bd-3", .blocks, {}, ""⟩] }]

theorem unnamedTarget_named : unnamedTarget.Named := ⟨by decide, by decide⟩

theorem search_misses_unnamed : unnamedTarget.Named ∧ ∃ graph,
    DepBatchLookups.new unnamedTarget false (twoBlockers.flatMap NewIssue.requests) = some graph ∧
    (graph.reaches unnamedTarget DependencyType.scheduling "bd-1" "").1 = false ∧
    (unnamedTarget.reachableIds DependencyType.scheduling "bd-1").contains "" = true :=
  ⟨unnamedTarget_named, _, rfl, by decide, by decide⟩

end PersistState

end Beads
