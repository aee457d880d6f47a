import Mathlib

namespace InducedCycle

variable {V : Type*}

/-- A cycle of at least three distinct vertices, with no edge among them but those of the cycle. -/
structure IsInducedCycle (edge : V → V → Prop) (length : Nat) (vertex : Nat → V) : Prop where
  long : 3 ≤ length
  distinct : ∀ i < length, ∀ j < length, vertex i = vertex j → i = j
  edges : ∀ i < length, ∀ j < length, edge (vertex i) (vertex j) ↔ j = (i + 1) % length

theorem IsInducedCycle.transGen {edge : V → V → Prop} {length : Nat} {vertex : Nat → V}
    (cycle : IsInducedCycle edge length vertex) : Relation.TransGen edge (vertex 0) (vertex 0) := by
  have long := cycle.long
  have along : ∀ i, i + 1 < length → Relation.TransGen edge (vertex 0) (vertex (i + 1)) := by
    intro i
    induction i with
    | zero => exact fun bound => .single ((cycle.edges 0 (by omega) 1 bound).mpr (Nat.mod_eq_of_lt bound).symm)
    | succ i ih =>
      intro bound
      exact (ih (by omega)).tail ((cycle.edges (i + 1) (by omega) (i + 2) bound).mpr (Nat.mod_eq_of_lt bound).symm)
  have last := along (length - 2) (by omega)
  refine last.tail ((cycle.edges _ (by omega) 0 (by omega)).mpr ?_)
  rw [show length - 2 + 1 + 1 = length by omega, Nat.mod_self]

structure ClosedWalk (edge : V → V → Prop) (part : Set V) (length : Nat) where
  vertex : Nat → V
  positive : 0 < length
  inside : ∀ i, vertex i ∈ part
  step : ∀ i, edge (vertex i) (vertex (i + 1))
  closes : ∀ i, vertex (i + length) = vertex i

variable {edge : V → V → Prop} {part : Set V} {length : Nat}

theorem exists_repeat {α : Type*} [Finite α] (walk : Nat → α) : ∃ first extra, 0 < extra ∧
    walk (first + extra) = walk first := by
  obtain ⟨i, j, differ, same⟩ := Finite.exists_ne_map_eq_of_infinite walk
  rcases Nat.lt_or_gt_of_ne differ with less | less
  · exact ⟨i, j - i, by omega, by rw [Nat.add_sub_cancel' less.le, same]⟩
  · exact ⟨j, i - j, by omega, by rw [Nat.add_sub_cancel' less.le, same]⟩

theorem exists_closedWalk (finite : part.Finite) (nonempty : part.Nonempty)
    (successor : ∀ v ∈ part, ∃ w ∈ part, edge v w) : ∃ length, Nonempty (ClosedWalk edge part length) := by
  obtain ⟨start, startInside⟩ := nonempty
  choose next nextInside nextEdge using fun v : part => successor v v.2
  let walk : Nat → part := fun n => (fun v => ⟨next v, nextInside v⟩)^[n] ⟨start, startInside⟩
  have finiteType : Finite part := finite
  obtain ⟨first, extra, positive, returns⟩ := exists_repeat walk
  refine ⟨extra, ⟨fun n => walk (first + n), positive, fun n => (walk (first + n)).2, fun n => ?_, fun n => ?_⟩⟩
  · have advance : walk (first + (n + 1)) = ⟨next (walk (first + n)), nextInside _⟩ := by
      rw [← Nat.add_assoc]
      exact Function.iterate_succ_apply' _ _ _
    rw [advance]
    exact nextEdge _
  · have later : walk (first + (n + extra)) = walk (first + n) := by
      rw [← Nat.add_assoc, Nat.add_comm first n, Nat.add_assoc]
      simp only [walk] at returns ⊢
      rw [Function.iterate_add_apply _ n (first + extra), returns, ← Function.iterate_add_apply]
    rw [later]

namespace ClosedWalk

def segment (walk : ClosedWalk edge part length) (start size : Nat) (positive : 0 < size)
    (back : edge (walk.vertex (start + size - 1)) (walk.vertex start)) : ClosedWalk edge part size where
  vertex n := walk.vertex (start + n % size)
  positive := positive
  inside n := walk.inside _
  closes n := by rw [Nat.add_mod_right]
  step n := by
    have bound := Nat.mod_lt n positive
    by_cases wraps : n % size + 1 = size
    · rw [← Nat.mod_add_mod, wraps, Nat.mod_self, Nat.add_zero, show start + n % size = start + size - 1 by omega]
      exact back
    · rw [← Nat.mod_add_mod, Nat.mod_eq_of_lt (by omega : n % size + 1 < size), ← Nat.add_assoc]
      exact walk.step _

end ClosedWalk

def Shortest (edge : V → V → Prop) (part : Set V) (length : Nat) : Prop :=
  ∀ shorter < length, IsEmpty (ClosedWalk edge part shorter)

theorem Shortest.no_chord (shortest : Shortest edge part length) (walk : ClosedWalk edge part length) {i ahead : Nat}
    (far : 2 ≤ ahead) (within : ahead < length) : ¬edge (walk.vertex i) (walk.vertex (i + ahead)) := by
  intro chord
  refine (shortest (length - ahead + 1) (by omega)).false (walk.segment (i + ahead) (length - ahead + 1) (by omega) ?_)
  rwa [show i + ahead + (length - ahead + 1) - 1 = i + length by omega, walk.closes]

theorem Shortest.no_repeat (shortest : Shortest edge part length) (walk : ClosedWalk edge part length) {i ahead : Nat}
    (positive : 0 < ahead) (within : ahead < length) : walk.vertex i ≠ walk.vertex (i + ahead) := by
  intro same
  refine (shortest ahead within).false (walk.segment i ahead positive ?_)
  have last := walk.step (i + ahead - 1)
  rwa [show i + ahead - 1 + 1 = i + ahead by omega, ← same] at last

theorem exists_ahead (walk : ClosedWalk edge part length) {i j : Nat} (iBound : i < length) (jBound : j < length) :
    ∃ ahead < length, walk.vertex j = walk.vertex (i + ahead) ∧ j = (i + ahead) % length := by
  by_cases order : i ≤ j
  · exact ⟨j - i, by omega, by rw [Nat.add_sub_cancel' order], by rw [Nat.add_sub_cancel' order, Nat.mod_eq_of_lt jBound]⟩
  · have shape : i + (j + length - i) = j + length := by omega
    exact ⟨j + length - i, by omega, by rw [shape, walk.closes], by rw [shape, Nat.add_mod_right, Nat.mod_eq_of_lt jBound]⟩

theorem exists_inducedCycle (finite : part.Finite) (nonempty : part.Nonempty)
    (successor : ∀ v ∈ part, ∃ w ∈ part, edge v w) (irreflexive : ∀ v ∈ part, ¬edge v v)
    (oneWay : ∀ v ∈ part, ∀ w ∈ part, edge v w → ¬edge w v) :
    ∃ length vertex, IsInducedCycle edge length vertex ∧ ∀ i, vertex i ∈ part := by
  classical
  have exists_ := exists_closedWalk finite nonempty successor
  obtain ⟨walk⟩ := Nat.find_spec exists_
  let length := Nat.find exists_
  have shortest : Shortest edge part length :=
    fun shorter less => not_nonempty_iff.mp (Nat.find_min exists_ less)
  have positive : 0 < length := walk.positive
  have long : 3 ≤ length := by
    by_contra short
    have small : length = 1 ∨ length = 2 := by omega
    have first := walk.step 0
    have closes : walk.vertex (0 + length) = walk.vertex 0 := walk.closes 0
    rcases small with one | two
    · rw [one] at closes
      rw [closes] at first
      exact irreflexive _ (walk.inside 0) first
    · have second := walk.step 1
      rw [two] at closes
      rw [show 1 + 1 = 0 + 2 from rfl, closes] at second
      exact oneWay _ (walk.inside 0) _ (walk.inside 1) first second
  refine ⟨length, walk.vertex, ⟨long, ?_, ?_⟩, walk.inside⟩
  · intro i iBound j jBound same
    obtain ⟨ahead, within, reached, shape⟩ := exists_ahead walk iBound jBound
    rcases Nat.eq_zero_or_pos ahead with rfl | advance
    · rw [shape, Nat.add_zero, Nat.mod_eq_of_lt iBound]
    · exact absurd (same.trans reached) (shortest.no_repeat walk advance within)
  · intro i iBound j jBound
    constructor
    · intro chord
      obtain ⟨ahead, within, reached, shape⟩ := exists_ahead walk iBound jBound
      rw [reached] at chord
      obtain zero | one | far : ahead = 0 ∨ ahead = 1 ∨ 2 ≤ ahead := by omega
      · rw [zero] at chord
        exact absurd chord (irreflexive _ (walk.inside i))
      · rw [shape, one]
      · exact absurd chord (shortest.no_chord walk far within)
    · rintro rfl
      rw [Function.Periodic.map_mod_nat walk.closes]
      exact walk.step i

end InducedCycle
