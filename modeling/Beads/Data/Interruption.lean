import Mathlib

namespace Interruption

variable {ε σ α β : Type}

/-- From `s` the program returns with `done` or fails with `failed`. -/
def Ends (prog : EStateM ε σ α) (done : α → σ → Prop) (failed : σ → Prop) (s : σ) : Prop :=
  match prog s with
  | .ok value after => done value after
  | .error _ after => failed after

def attempt (prog : EStateM ε σ α) : EStateM ε σ (Except ε α) := fun s =>
  match prog s with
  | .ok value after => .ok (.ok value) after
  | .error error after => .ok (.error error) after

variable {prog : EStateM ε σ α} {next : α → EStateM ε σ β} {done weaker : α → σ → Prop} {failed less : σ → Prop} {s : σ}

theorem Ends.imp (ends : Ends prog done failed s) (ok : ∀ value after, done value after → weaker value after)
    (error : ∀ after, failed after → less after) : Ends prog weaker less s := by
  unfold Ends at *
  cases ran : prog s with
  | ok value after => exact ok value after (by simpa only [ran] using ends)
  | error _ after => exact error after (by simpa only [ran] using ends)

theorem Ends.clash (ends : Ends prog done failed s) (other : Ends prog weaker less s)
    (ok : ∀ value after, done value after → ¬weaker value after) (error : ∀ after, failed after → ¬less after) : False := by
  unfold Ends at *
  cases ran : prog s with
  | ok value after => exact ok value after (by simpa only [ran] using ends) (by simpa only [ran] using other)
  | error _ after => exact error after (by simpa only [ran] using ends) (by simpa only [ran] using other)

theorem ends_bind {settled : β → σ → Prop} (ends : Ends prog (fun value => Ends (next value) settled failed) failed s) :
    Ends (prog >>= next) settled failed s := by
  unfold Ends at *
  change match EStateM.bind prog next s with
    | .ok value after => settled value after
    | .error _ after => failed after
  unfold EStateM.bind
  cases ran : prog s with
  | ok value after | error error after => simpa only [ran] using ends

theorem ends_attempt {done : Except ε α → σ → Prop}
    (ends : Ends prog (fun value => done (.ok value)) (fun after => ∀ error, done (.error error) after) s) :
    Ends (attempt prog) done failed s := by
  unfold Ends attempt at *
  cases ran : prog s with
  | ok value after => simpa only [ran] using ends
  | error error after =>
    simp only [ran] at ends ⊢
    exact ends error

theorem ends_forM {inputs : List β} {body : β → EStateM ε σ PUnit} (rounds : List β → σ → Prop) (start : rounds inputs s)
    (round : ∀ input rest state, rounds (input :: rest) state → Ends (body input) (fun _ => rounds rest) failed state) :
    Ends (inputs.forM body) (fun _ => rounds []) failed s := by
  induction inputs generalizing s with
  | nil => exact start
  | cons input rest ih =>
    change Ends (body input >>= fun _ => rest.forM body) (fun _ => rounds []) failed s
    exact ends_bind ((round input rest s start).imp (fun _ _ left => ih left) fun _ lost => lost)

end Interruption
