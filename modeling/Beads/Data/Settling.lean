import Mathlib

namespace Settling

variable {State View Input : Type*}

variable {step : View → Input → View}

theorem foldl_of_quiet {inputs : List Input} {seen : View}
    (quiet : ∀ input ∈ inputs, step seen input = seen) : inputs.foldl step seen = seen :=
  List.foldlRecOn inputs step (motive := fun state => state = seen) rfl fun _ same input member =>
    same ▸ quiet input member

theorem foldl_reaches {inputs : List Input} {input : Input} {seen : View} (first second : View → Prop)
    (start : first seen) (kept : ∀ seen, first seen → ∀ input ∈ inputs, first (step seen input))
    (member : input ∈ inputs) (gains : ∀ seen, first seen → second (step seen input))
    (stays : ∀ seen, second seen → ∀ input ∈ inputs, second (step seen input)) : second (inputs.foldl step seen) := by
  obtain ⟨before, after, rfl⟩ := List.append_of_mem member
  rw [List.foldl_append, List.foldl_cons]
  refine List.foldlRecOn after step (gains _ ?_) fun seen reached next listed => stays seen reached next (by simp [listed])
  exact List.foldlRecOn before step start fun seen holds next listed => kept seen holds next (by simp [listed])

/-- The loop counts what a pass changes and returns after the first that changes nothing. -/
def untilQuiet (pass : State → State × Nat) : Nat → State → Option State
  | 0, _ => none
  | fuel + 1, state => if (pass state).2 = 0 then some (pass state).1 else untilQuiet pass fuel (pass state).1

structure Views (pass : State → State × Nat) (view : State → View) (step : View → View) (quiet : View → Prop) : Prop where
  viewed : ∀ state, view (pass state).1 = step (view state)
  unchanged : ∀ state, (pass state).2 = 0 ↔ quiet (view state)
  still : ∀ seen, quiet seen → step seen = seen

namespace Views

variable {pass : State → State × Nat} {view : State → View} {step : View → View}
  {quiet : View → Prop} {state result : State} {fuel : Nat}

section

variable (views : Views pass view step quiet)
include views

theorem stops {passes : Nat} (early : passes < fuel)
    (settled : quiet (step^[passes] (view state))) : ∃ result, untilQuiet pass fuel state = some result := by
  induction fuel generalizing state passes with
  | zero => exact absurd early (Nat.not_lt_zero _)
  | succ fuel ih =>
    rw [untilQuiet]
    by_cases done : (pass state).2 = 0
    · exact ⟨_, if_pos done⟩
    · rw [if_neg done]
      cases passes with
      | zero => exact absurd ((views.unchanged state).mpr settled) done
      | succ passes =>
        rw [Function.iterate_succ_apply, ← views.viewed] at settled
        exact ih (Nat.lt_of_succ_lt_succ early) settled

theorem ends (holds : View → Prop) (kept : ∀ seen, holds seen → holds (step seen))
    (start : holds (view state)) (returned : untilQuiet pass fuel state = some result) :
    quiet (view result) ∧ holds (view result) := by
  induction fuel generalizing state with
  | zero => cases returned
  | succ fuel ih =>
    have next : holds (view (pass state).1) := views.viewed state ▸ kept _ start
    rw [untilQuiet] at returned
    by_cases done : (pass state).2 = 0
    · rw [if_pos done, Option.some_inj] at returned
      subst returned
      have settled := (views.unchanged state).mp done
      exact ⟨by rwa [views.viewed, views.still _ settled], next⟩
    · rw [if_neg done] at returned
      exact ih next returned

theorem returns_iff :
    (∃ fuel result, untilQuiet pass fuel state = some result) ↔ ∃ passes, quiet (step^[passes] (view state)) := by
  constructor
  · intro ⟨fuel, result, returned⟩
    obtain ⟨settled, passes, reached⟩ := views.ends (fun seen => ∃ passes, step^[passes] (view state) = seen)
      (fun seen ⟨passes, reached⟩ => ⟨passes + 1, by rw [Function.iterate_succ_apply', reached]⟩) ⟨0, rfl⟩ returned
    exact ⟨passes, reached ▸ settled⟩
  · intro ⟨passes, settled⟩
    exact ⟨passes + 1, views.stops (Nat.lt_succ_self passes) settled⟩

theorem stops_of_measure (measure : View → Nat)
    (shrinks : ∀ seen, ¬quiet seen → measure (step seen) < measure seen) (enough : measure (view state) < fuel) :
    ∃ result, untilQuiet pass fuel state = some result := by
  induction fuel generalizing state with
  | zero => exact absurd enough (Nat.not_lt_zero _)
  | succ fuel ih =>
    rw [untilQuiet]
    by_cases done : (pass state).2 = 0
    · exact ⟨_, if_pos done⟩
    · have less := shrinks _ (mt (views.unchanged state).mpr done)
      rw [if_neg done]
      exact ih (by rw [views.viewed]; omega)

end

end Views

end Settling
