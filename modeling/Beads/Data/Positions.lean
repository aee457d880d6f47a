import Mathlib

/-! The nodes of a tree as lists of child numbers; the order of the lists is the preorder. -/

namespace Positions

open List

def Sooner (bound : Nat) (q p : List Nat) : Prop := q < p ∧ q.length < bound

theorem sooner_wf (bound : Nat) : WellFounded (Sooner bound) := by
  have root (bound : Nat) : Acc (Sooner bound) [] := ⟨_, fun q sooner => absurd sooner.1 (by simp)⟩
  refine ⟨fun p => ?_⟩
  induction bound generalizing p with
  | zero => exact ⟨_, fun q sooner => absurd sooner.2 (by simp)⟩
  | succ bound ih =>
    cases p with
    | nil => exact root _
    | cons i p =>
      induction i using Nat.strong_induction_on generalizing p with
      | h i earlier =>
        have below := ih p
        induction below with
        | intro p _ within =>
          refine ⟨_, fun q sooner => ?_⟩
          cases q with
          | nil => exact root _
          | cons j q =>
            obtain ⟨less, short⟩ := sooner
            obtain first | ⟨rfl, later⟩ := cons_lt_cons_iff.mp less
            · exact earlier j first q
            · exact within q ⟨later, Nat.lt_of_succ_lt_succ short⟩

variable {q p : List Nat} {i n : Nat}

theorem lt_concat_zero : q < p ++ [0] ↔ q < p ∨ q = p := by
  induction p generalizing q with
  | nil => cases q <;> simp [cons_lt_cons_iff]
  | cons j p ih =>
    cases q with
    | nil => simp
    | cons k q =>
      rw [cons_append, cons_lt_cons_iff, cons_lt_cons_iff, ih, cons.injEq]
      tauto

theorem lt_concat_succ : q < p ++ [i + 1] ↔ q < p ++ [i] ∨ p ++ [i] <+: q := by
  induction p generalizing q with
  | nil =>
    cases q with
    | nil => simp
    | cons k q =>
      simp only [nil_append, cons_lt_cons_iff, cons_prefix_cons, nil_prefix, not_lt_nil, and_false, or_false, and_true]
      omega
  | cons j p ih =>
    cases q with
    | nil => simp
    | cons k q =>
      rw [cons_append, cons_append, cons_lt_cons_iff, cons_lt_cons_iff, ih, cons_prefix_cons]
      tauto

theorem lt_concat_iff : q < p ++ [n] ↔ q < p ∨ q = p ∨ ∃ i < n, p ++ [i] <+: q := by
  induction n with
  | zero => simp [lt_concat_zero]
  | succ n ih =>
    rw [lt_concat_succ, ih, Nat.exists_lt_succ_right, or_assoc, or_assoc]

theorem dropLast_lt (some : p ≠ []) : p.dropLast < p := by
  obtain ⟨i, same⟩ : ∃ i, p.dropLast ++ [i] = p := ⟨_, dropLast_append_getLast some⟩
  have less : p.dropLast < p.dropLast ++ [i] := lt_concat_iff.mpr (.inr (.inl rfl))
  rwa [same] at less

end Positions
