import Mathlib

namespace Batches

variable {α : Type*}

def cut (size : Nat) : Nat → List α → List (List α)
  | 0, _ => []
  | _ + 1, [] => []
  | fuel + 1, head :: tail => (head :: tail).take size :: cut size fuel ((head :: tail).drop size)

def batches (size : Nat) (list : List α) : List (List α) := cut size list.length list

variable {size fuel : Nat} {list batch : List α}

section

variable (positive : 0 < size)
include positive

open List

theorem cut_fuel {other : Nat} (enough : list.length ≤ fuel) (also : list.length ≤ other) :
    cut size fuel list = cut size other list := by
  induction fuel generalizing list other with
  | zero =>
    rw [length_eq_zero_iff.mp (Nat.le_zero.mp enough)]
    cases other <;> rfl
  | succ fuel ih =>
    cases list with
    | nil => cases other <;> rfl
    | cons head tail =>
      cases other with
      | zero => simp at also
      | succ other =>
        simp only [length_cons] at enough also
        have shorter : ((head :: tail).drop size).length ≤ tail.length := by
          rw [length_drop, length_cons]
          omega
        have rest : cut size fuel ((head :: tail).drop size) = cut size other ((head :: tail).drop size) :=
          ih (by omega) (by omega)
        rw [cut, cut, rest]

theorem batches_of_ne_nil (nonempty : list ≠ []) :
    batches size list = list.take size :: batches size (list.drop size) := by
  obtain ⟨head, tail, rfl⟩ := exists_cons_of_ne_nil nonempty
  have shorter : ((head :: tail).drop size).length ≤ tail.length := by
    rw [length_drop, length_cons]
    omega
  have rest : cut size tail.length ((head :: tail).drop size) = batches size ((head :: tail).drop size) :=
    cut_fuel positive shorter (Nat.le_refl _)
  rw [batches, length_cons, cut, rest]

theorem flatten_batches : (batches size list).flatten = list := by
  induction length : list.length using Nat.strongRecOn generalizing list with
  | _ length' ih =>
    by_cases empty : list = []
    · subst empty
      rfl
    · rw [batches_of_ne_nil positive empty, flatten_cons, ih (list.drop size).length ?_ rfl, take_append_drop]
      have nonempty := length_pos_iff.mpr empty
      rw [length_drop]
      omega

theorem mem_batches {element : α} : (∃ batch ∈ batches size list, element ∈ batch) ↔ element ∈ list := by
  rw [← mem_flatten, flatten_batches positive]

theorem batches_append (full : batch.length = size) :
    batches size (batch ++ list) = batch :: batches size list := by
  have nonempty : batch ++ list ≠ [] := by
    intro empty
    rw [(append_eq_nil_iff.mp empty).1] at full
    exact absurd full (by simpa using Nat.ne_of_lt positive)
  rw [batches_of_ne_nil positive nonempty, take_left' full, drop_left' full]

theorem batches_flatten {blocks : List (List α)} (full : ∀ block ∈ blocks, block.length = size) :
    batches size blocks.flatten = blocks := by
  induction blocks with
  | nil => rfl
  | cons block rest ih =>
    rw [flatten_cons, batches_append positive (full block (.head _)),
      ih fun next member => full next (.tail _ member)]

theorem length_of_mem_batches (member : batch ∈ batches size list) : batch.length ≤ size := by
  induction length : list.length using Nat.strongRecOn generalizing list with
  | _ length' ih =>
    by_cases empty : list = []
    · subst empty
      simp [batches, cut] at member
    · rw [batches_of_ne_nil positive empty, mem_cons] at member
      rcases member with rfl | later
      · exact length_take_le _ _
      · refine ih (list.drop size).length ?_ later rfl
        have nonempty := length_pos_iff.mpr empty
        rw [length_drop]
        omega

theorem batches_of_length_le (nonempty : list ≠ []) (short : list.length ≤ size) :
    batches size list = [list] := by
  rw [batches_of_ne_nil positive nonempty, take_of_length_le short, drop_of_length_le short]
  rfl

end

end Batches
