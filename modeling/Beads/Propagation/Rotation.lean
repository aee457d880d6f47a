import Beads.Propagation.Order

/-! A ring is a chordless cycle of the parent relation whose rows have no reason of their own, swept
one row at a time. -/

namespace Propagation.Network

variable {V : Type*} {net : Network V} {rounds : List (List (Set V))} {marks : Set V}

structure Ring (net : Network V) (rounds : List (List (Set V))) where
  item : Nat → V
  length : Nat
  positive : 0 < length
  closes : ∀ i, item (i + length) = item i
  live : ∀ i, net.live (item i)
  reasonless : ∀ i, ¬net.reason (item i)
  edge : ∀ i, net.parent (item i) (item (i + 1))
  chordless : ∀ i j, net.parent (item i) (item j) → item j = item (i + 1)
  advances : ∀ i, item (i + 1) ≠ item i
  disjoint : rounds.flatten.Pairwise Disjoint
  alone : ∀ scope ∈ rounds.flatten, ∃ i, scope = {item i} ∨ scope = ∅
  swept : ∀ i, ∃ scope ∈ rounds.flatten, item i ∈ scope

namespace Ring

variable {ring : Ring net rounds}

def Within (ring : Ring net rounds) (marks : Set V) : Prop := ∀ v ∈ marks, ∃ i, v = ring.item i

theorem scope_within {scope : Set V} (listed : scope ∈ rounds.flatten) : ring.Within scope := by
  intro v inside
  obtain ⟨i, rfl | rfl⟩ := ring.alone scope listed
  · exact ⟨i, inside⟩
  · exact absurd inside (Set.notMem_empty v)

theorem next_notMem {scope : Set V} (listed : scope ∈ rounds.flatten) {i : Nat}
    (inside : ring.item i ∈ scope) : ring.item (i + 1) ∉ scope := by
  intro next
  obtain ⟨j, rfl | rfl⟩ := ring.alone scope listed
  · exact ring.advances i (next.trans inside.symm)
  · exact Set.notMem_empty _ inside

theorem due_iff {explained : Set V} (free : ∀ i, ring.item i ∉ explained) (within : ring.Within marks) (i : Nat) :
    net.Due explained marks (ring.item i) ↔ ring.item (i + 1) ∈ marks := by
  constructor
  · rintro (reason | ⟨above, edge, marked, _⟩)
    · exact absurd reason (ring.reasonless i)
    · obtain ⟨j, rfl⟩ := within above marked
      rwa [← ring.chordless i j edge]
  · exact fun marked => .inr ⟨_, ring.edge i, marked, free _⟩

/-- The child is swept before its parent, so it takes the parent's old mark. -/
def Late (ring : Ring net rounds) (i : Nat) : Prop :=
  Before rounds (ring.item i) (ring.item (i + 1))

def Carries (ring : Ring net rounds) (value : Prop) (marks : Set V) : Prop :=
  ∃ i, ring.Late i ∧ (ring.item (i + 1) ∈ marks ↔ value)

theorem before_of_not_late {i : Nat} (notLate : ¬ring.Late i) : Before rounds (ring.item (i + 1)) (ring.item i) := by
  by_contra notEarly
  obtain ⟨scope, listed, inside⟩ := ring.swept i
  exact next_notMem listed inside (same_scope listed inside (ring.swept (i + 1)) notEarly notLate)

section

variable (within : ring.Within marks)
include within

theorem within_pass : ring.Within (net.pass rounds marks) := by
  intro v marked
  by_cases swept : ∃ scope ∈ rounds.flatten, v ∈ scope
  · obtain ⟨scope, listed, inside⟩ := swept
    exact scope_within listed v inside
  · exact within v ((pass_of_unlisted fun scope listed inside => swept ⟨scope, listed, inside⟩).mp marked)

theorem mem_pass (i : Nat) : (Before rounds (ring.item (i + 1)) (ring.item i) →
      (ring.item i ∈ net.pass rounds marks ↔ ring.item (i + 1) ∈ net.pass rounds marks)) ∧
    (¬Before rounds (ring.item (i + 1)) (ring.item i) →
      (ring.item i ∈ net.pass rounds marks ↔ ring.item (i + 1) ∈ marks)) := by
  obtain ⟨visit⟩ : Nonempty (SweptIn net rounds marks (ring.item i)) := exists_sweptIn ring.disjoint (ring.swept i)
  have free : ∀ j, ring.item j ∉ net.explained visit.read := fun j explained => ring.reasonless j explained.2.1
  have beforeWithin : ring.Within visit.before := by
    intro w seen
    by_cases early : Before rounds w (ring.item i)
    · exact within_pass within w (((visit.sees w).1 early).mp seen)
    · exact within w (((visit.sees w).2 early).mp seen)
  have markWithin : ring.Within (net.mark (net.explained visit.read) visit.scope visit.before) := by
    rintro w (seen | fresh)
    · exact beforeWithin w seen
    · exact scope_within visit.listed w fresh.1
  have result : ring.item i ∈ net.pass rounds marks ↔ ring.item (i + 1) ∈ visit.before := by
    rw [visit.result, mem_sweep_of_mem visit.inside, due_iff free beforeWithin, due_iff free markWithin]
    constructor
    · rintro ⟨_, seen | ⟨_, seen | fresh⟩⟩
      · exact seen
      · exact seen
      · exact absurd fresh.1 (next_notMem visit.listed visit.inside)
    · exact fun seen => ⟨ring.live i, .inl seen⟩
  exact ⟨fun early => result.trans ((visit.sees _).1 early), fun late => result.trans ((visit.sees _).2 late)⟩

theorem carries_pass {value : Prop} (carries : ring.Carries value marks) :
    ring.Carries value (net.pass rounds marks) := by
  obtain ⟨i, late, seen⟩ := carries
  have positive := ring.positive
  by_contra lost
  -- Going down from the late child, every row passes the value on until a late place is met.
  have travels : ∀ steps < ring.length, ring.item (i + ring.length - steps) ∈ net.pass rounds marks ↔ value := by
    intro steps
    induction steps with
    | zero =>
      intro _
      rw [Nat.sub_zero, ring.closes, (mem_pass within i).2 (before_asymm ring.disjoint late), seen]
    | succ steps ih =>
      intro bound
      have shape : i + ring.length - steps = i + ring.length - (steps + 1) + 1 := by omega
      have above := ih (by omega)
      rw [shape] at above
      by_cases stop : ring.Late (i + ring.length - (steps + 1))
      · exact absurd ⟨_, stop, above⟩ lost
      · rw [(mem_pass within _).1 (before_of_not_late stop), above]
  refine lost ⟨i, late, ?_⟩
  have arrived := travels (ring.length - 1) (by omega)
  rwa [show i + ring.length - (ring.length - 1) = i + 1 by omega] at arrived

theorem not_quiet (one : ring.Carries True marks) (other : ring.Carries False marks) :
    ¬net.Quiet rounds marks := by
  intro quiet
  have same := pass_of_quiet quiet
  have level : ∀ i, ring.item i ∈ marks ↔ ring.item (i + 1) ∈ marks := by
    intro i
    have both := mem_pass within i
    rw [same] at both
    by_cases early : Before rounds (ring.item (i + 1)) (ring.item i)
    · exact both.1 early
    · exact both.2 early
  have reaches : ∀ i steps, ring.item i ∈ marks ↔ ring.item (i + steps) ∈ marks := by
    intro i steps
    induction steps with
    | zero => rfl
    | succ steps ih => rw [ih, level, Nat.add_assoc]
  obtain ⟨i, _, marked⟩ := one
  obtain ⟨j, _, clear⟩ := other
  have first := (reaches 0 (i + 1)).mpr (by rw [Nat.zero_add]; exact marked.mpr trivial)
  have second := (reaches 0 (j + 1)).mp first
  rw [Nat.zero_add] at second
  exact clear.mp second

theorem never_quiet (one : ring.Carries True marks) (other : ring.Carries False marks)
    (passes : Nat) : ¬net.Quiet rounds ((net.pass rounds)^[passes] marks) := by
  induction passes generalizing marks with
  | zero => exact not_quiet within one other
  | succ passes ih =>
    rw [Function.iterate_succ_apply]
    exact ih (within_pass within) (carries_pass within one) (carries_pass within other)

end

end Ring

end Propagation.Network
