import Beads.Blocked.Changes

/-! The query takes a parent for explained when every joined row of every walk up from its reasons'
targets meets it. An item with two parents gives two such rows, and an item with parent-child rows
in both tables shows only the parent that the first of them names. -/

namespace Beads.Tables

variable (tables : Tables) (bits : Bits) (plane : Plane) (candidates : List Id)

/-- The item hangs under the ancestor through at least one and at most the given
number of levels. -/
def Descends (ancestor : Id) : Nat → Id → Prop
  | 0, _ => False
  | levels + 1, child => tables.HangsUnder child ancestor ∨ ∃ next, tables.HangsUnder child next ∧ Descends ancestor levels next

def ExplainedBySubtree (id : Id) : Prop :=
  id ∈ candidates ∧ tables.stored ⟨plane, id⟩ = true ∧ bits ⟨plane, id⟩ = true ∧ tables.HasReason ⟨plane, id⟩ ∧
    ∀ row ∈ tables.dependencies plane, row.issueId = id → tables.blockingReason row = true →
      ∃ target, row.target.localId = some target ∧ tables.Descends id subtreeWalkDepth target

/-- Some way up from the item, by a parent it shows at each level, ends or runs out of levels
without meeting the ancestor. -/
def Misses (ancestor : Id) : Nat → Id → Prop
  | 0, _ => True
  | levels + 1, child => ∃ parent, tables.Shows child parent ∧ parent ≠ some ancestor ∧
      ∀ next, parent = some next → Misses ancestor levels next

variable {tables bits plane candidates} {ancestor child : Id} {levels : Nat}

theorem inside_iff_not_misses : tables.Inside ancestor levels (some child) ↔ ¬tables.Misses ancestor levels child := by
  induction levels generalizing child with
  | zero => exact iff_of_false not_inside_zero (not_not_intro trivial)
  | succ levels ih =>
    rw [inside_succ, Misses]
    push Not
    refine forall_congr' fun parent => ?_
    rw [mem_walkLevel]
    refine forall_congr' fun _ => or_iff_not_imp_left.trans (forall_congr' fun _ => ?_)
    cases parent with
    | none => simp [not_inside_none]
    | some next => simp [ih]

theorem descends_of_inside (inside : tables.Inside ancestor levels (some child)) : tables.Descends ancestor levels child := by
  induction levels generalizing child with
  | zero => exact not_inside_zero inside
  | succ levels ih =>
    obtain ⟨parent, member⟩ := List.exists_mem_of_ne_nil _ (walkLevel_ne_nil tables (some child))
    have met := inside_succ.mp inside parent member
    cases parent with
    | none => exact absurd (met.resolve_left nofun) not_inside_none
    | some next =>
      have hangs := hangsUnder_of_walkLevel member
      obtain same | further := met
      · exact .inl (Option.some_inj.mp same ▸ hangs)
      · exact .inr ⟨next, hangs, ih further⟩

/-- The query returns the explained parents exactly when no way up from a reason of one of them
misses it. -/
theorem parentsExplainedBySubtreeCore_exact :
    (∀ id, id ∈ tables.parentsExplainedBySubtreeCore bits plane candidates ↔
        tables.ExplainedBySubtree bits plane candidates id) ↔
      ∀ id, tables.ExplainedBySubtree bits plane candidates id → ∀ row ∈ tables.dependencies plane,
        row.issueId = id → tables.blockingReason row = true → ∀ target,
          row.target.localId = some target → ¬tables.Misses id subtreeWalkDepth target := by
  have inside : ∀ id, ¬tables.HasExogenousReason ⟨plane, id⟩ ↔ ∀ row ∈ tables.dependencies plane, row.issueId = id →
      tables.blockingReason row = true → tables.Inside id subtreeWalkDepth row.target.localId := by
    intro id
    simp [HasExogenousReason, insideSubtree_iff]
  simp only [mem_parentsExplainedBySubtreeCore, inside, ← inside_iff_not_misses]
  constructor
  · intro exact id explained row member source reason target named
    exact named ▸ ((exact id).mpr explained).2.2.2.2 row member source reason
  · intro meets id
    constructor
    · intro ⟨candidate, present, blocked, reason, within⟩
      refine ⟨candidate, present, blocked, reason, fun row member source blocking => ?_⟩
      have met := within row member source blocking
      cases named : row.target.localId with
      | none => exact absurd (named ▸ met) not_inside_none
      | some target => exact ⟨target, rfl, descends_of_inside (named ▸ met)⟩
    · intro explained
      have ⟨candidate, present, blocked, reason, below⟩ := explained
      refine ⟨candidate, present, blocked, reason, fun row member source blocking => ?_⟩
      obtain ⟨target, named, _⟩ := below row member source blocking
      exact named ▸ meets id explained row member source blocking target named

/-- An epic that waits for its own child, which has a second parent. -/
def sharedChild : Tables where
  items
    | .issue => [⟨"bd-epic", .opened⟩, ⟨"bd-other", .opened⟩, ⟨"bd-child", .opened⟩]
    | .wisp => []
  dependencies
    | .issue => [{ issueId := "bd-child", target := .item ⟨.issue, "bd-epic"⟩, type := .parentChild },
        { issueId := "bd-child", target := .item ⟨.issue, "bd-other"⟩, type := .parentChild },
        { issueId := "bd-epic", target := .item ⟨.issue, "bd-child"⟩, type := .blocks }]
    | .wisp => []

theorem sharedChild_not_explained : ¬∀ id,
    id ∈ sharedChild.parentsExplainedBySubtreeCore (fun ref => ref.id == "bd-epic") .issue ["bd-epic"] ↔
      sharedChild.ExplainedBySubtree (fun ref => ref.id == "bd-epic") .issue ["bd-epic"] id := by
  intro exact
  have missing : "bd-epic" ∉ sharedChild.parentsExplainedBySubtreeCore (fun ref => ref.id == "bd-epic") .issue ["bd-epic"] := by
    decide
  refine missing ((exact "bd-epic").mpr ⟨.head _, by decide, by decide, ⟨_, .tail _ (.tail _ (.head _)), rfl, by decide⟩, ?_⟩)
  have hangs : sharedChild.HangsUnder "bd-child" "bd-epic" := ⟨.issue, _, .head _, rfl⟩
  intro row member source _
  have only : row.target = .item ⟨.issue, "bd-child"⟩ := by
    simp only [sharedChild, List.mem_cons, List.not_mem_nil, or_false] at member
    rcases member with rfl | rfl | rfl
    · exact absurd source (by decide)
    · exact absurd source (by decide)
    · rfl
  exact ⟨"bd-child", by rw [only]; rfl, .inl hangs⟩

end Beads.Tables
