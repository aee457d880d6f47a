import Mathlib

namespace RecursiveUnion

variable {α : Type*} [DecidableEq α] (next : α → List α)

def fresh (found : List α) : List α := (found.flatMap next).eraseDups.filter fun node => !found.contains node

def reachable : Nat → List α → List α
  | 0, found => found
  | fuel + 1, found =>
    let new := fresh next found
    if new.isEmpty then found else reachable fuel (found ++ new)

variable {next} {found : List α} {node : α}

def Step (next : α → List α) (node other : α) : Prop := other ∈ next node

theorem mem_fresh : node ∈ fresh next found ↔ (∃ origin ∈ found, Step next origin node) ∧ node ∉ found := by
  simp [fresh, Step]

variable {fuel : Nat} {catalog : List α}

open List

theorem reachable_sound (member : node ∈ reachable next fuel found) :
    ∃ origin ∈ found, Relation.ReflTransGen (Step next) origin node := by
  induction fuel generalizing found with
  | zero => exact ⟨node, member, .refl⟩
  | succ fuel ih =>
    simp only [reachable] at member
    split at member
    · exact ⟨node, member, .refl⟩
    · obtain ⟨middle, middleFound, path⟩ := ih member
      cases mem_append.mp middleFound with
      | inl old => exact ⟨middle, old, path⟩
      | inr new =>
        obtain ⟨⟨origin, originFound, step⟩, _⟩ := mem_fresh.mp new
        exact ⟨origin, originFound, .head step path⟩

theorem subset_reachable : found ⊆ reachable next fuel found := by
  induction fuel generalizing found with
  | zero => exact List.Subset.refl _
  | succ fuel ih =>
    simp only [reachable]
    split
    · exact List.Subset.refl _
    · exact fun node member => ih (mem_append_left _ member)

def missing (catalog found : List α) : Nat :=
  (catalog.filter fun node => !found.contains node).length

variable {new : List α}

theorem missing_append_eq : missing catalog (found ++ new) =
    ((catalog.filter fun node => !found.contains node).filter fun node => !new.contains node).length := by
  rw [missing, filter_filter]
  refine congrArg List.length (filter_congr fun node _ => ?_)
  rw [contains_append, Bool.not_or, Bool.and_comm]

theorem missing_append (listed : node ∈ catalog) (unknown : node ∉ found) (entered : node ∈ new) :
    missing catalog (found ++ new) < missing catalog found := by
  rw [missing_append_eq, missing]
  refine length_filter_lt_length_iff_exists.mpr ⟨node, mem_filter.mpr ⟨listed, ?_⟩, ?_⟩
  · simpa using unknown
  · simpa using entered

section

variable (bounded : ∀ node, ∀ other ∈ next node, other ∈ catalog)
include bounded

theorem reachable_closed
    (enough : missing catalog found ≤ fuel) {other : α} (member : node ∈ reachable next fuel found)
    (step : Step next node other) : other ∈ reachable next fuel found := by
  induction fuel generalizing found with
  | zero =>
    by_contra unknown
    have counted : 0 < missing catalog found :=
      length_pos_of_mem (mem_filter.mpr ⟨bounded node other step, by simpa [reachable] using unknown⟩)
    omega
  | succ fuel ih =>
    simp only [reachable] at member ⊢
    split at member
    · rename_i stopped
      rw [if_pos stopped]
      by_contra unknown
      have new : other ∈ fresh next found := mem_fresh.mpr ⟨⟨node, member, step⟩, unknown⟩
      rw [isEmpty_iff.mp stopped] at new
      exact not_mem_nil new
    · rename_i busy
      rw [if_neg busy]
      obtain ⟨new, entered⟩ := exists_mem_of_ne_nil _ fun empty => busy (isEmpty_iff.mpr empty)
      obtain ⟨⟨origin, _, found⟩, unknown⟩ := mem_fresh.mp entered
      have shrinks := missing_append (bounded origin new found) unknown entered
      exact ih (by omega) member

theorem mem_reachable (enough : catalog.length ≤ fuel) :
    node ∈ reachable next fuel found ↔ ∃ origin ∈ found, Relation.ReflTransGen (Step next) origin node := by
  have counted : missing catalog found ≤ fuel := Nat.le_trans (length_filter_le _ _) enough
  have complete : ∀ origin ∈ found, Relation.ReflTransGen (Step next) origin node → node ∈ reachable next fuel found := by
    intro origin member path
    induction path with
    | refl => exact subset_reachable member
    | tail _ step ih => exact reachable_closed bounded counted ih step
  exact ⟨reachable_sound, fun ⟨origin, member, path⟩ => complete origin member path⟩

end

end RecursiveUnion
