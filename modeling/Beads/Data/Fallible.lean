import Mathlib

namespace Fallible

variable {α β σ ε : Type}

variable {first : Except ε α} {bad : ε} {inputs : List α} {step : σ → α → Except ε σ}

theorem ok_bind (value : α) (next : α → Except ε β) : (.ok value >>= next) = next value := rfl

theorem bind_eq_ok_iff {next : α → Except ε β} {result : β} :
    (first >>= next) = .ok result ↔ ∃ value, first = .ok value ∧ next value = .ok result := by
  cases first with
  | error refusal => exact ⟨nofun, nofun⟩
  | ok value => exact ⟨fun finished => ⟨value, rfl, finished⟩, fun ⟨_, same, finished⟩ => Except.ok.inj same ▸ finished⟩

theorem bind_eq_ok {next : α → Except ε β} {result : β} (finished : (first >>= next) = .ok result) :
    ∃ value, first = .ok value ∧ next value = .ok result := bind_eq_ok_iff.mp finished

theorem map_eq_ok {next : α → β} {result : β} (finished : first.map next = .ok result) :
    ∃ value, first = .ok value ∧ next value = result := by
  cases first with
  | error refusal => cases finished
  | ok value => exact ⟨value, rfl, Except.ok.inj finished⟩

theorem ite_error_eq_ok {condition : Prop} [Decidable condition] {result : α} :
    (if condition then .error bad else first) = .ok result ↔ ¬condition ∧ first = .ok result := by
  by_cases holds : condition <;> simp [holds]

theorem else_error_eq_ok {condition : Prop} [Decidable condition] {result : α} :
    (if condition then first else .error bad) = .ok result ↔ condition ∧ first = .ok result := by
  by_cases holds : condition <;> simp [holds]

theorem ok_of_isOk (finished : first.isOk = true) : ∃ value, first = .ok value := by
  cases first with
  | error refusal => cases finished
  | ok value => exact ⟨value, rfl⟩

theorem bind_never {next : α → Except ε β} (firstNot : first ≠ .error bad)
    (nextNot : ∀ value, first = .ok value → next value ≠ .error bad) : (first >>= next) ≠ .error bad := by
  cases first with
  | error refusal => exact fun failed => firstNot (congrArg Except.error (Except.error.inj failed))
  | ok value => exact nextNot value rfl

theorem ite_never {condition : Prop} [Decidable condition] {one other : Except ε α} (first : one ≠ .error bad)
    (second : other ≠ .error bad) : (if condition then one else other) ≠ .error bad := by
  by_cases holds : condition
  · rwa [if_pos holds]
  · rwa [if_neg holds]

theorem map_never {next : α → β} (firstNot : first ≠ .error bad) : first.map next ≠ .error bad := by
  cases first with
  | error refusal => exact fun failed => firstNot (congrArg Except.error (Except.error.inj failed))
  | ok value => exact nofun

theorem mapM_cons_eq_some {f : α → Option β} {input : α} {results : List β} (ran : (input :: inputs).mapM f = some results) :
    ∃ first rest, f input = some first ∧ inputs.mapM f = some rest ∧ results = first :: rest := by
  rw [List.mapM_cons] at ran
  obtain ⟨first, here, more⟩ := Option.bind_eq_some_iff.mp ran
  obtain ⟨rest, later, whole⟩ := Option.bind_eq_some_iff.mp more
  exact ⟨first, rest, here, later, (Option.some.inj whole).symm⟩

theorem exists_of_mapM {f : α → Option β} {results : List β} (ran : inputs.mapM f = some results)
    {input : α} (member : input ∈ inputs) : ∃ result ∈ results, f input = some result := by
  induction inputs generalizing results with
  | nil => cases member
  | cons head tail ih =>
    obtain ⟨first, rest, here, later, rfl⟩ := mapM_cons_eq_some ran
    obtain rfl | member := List.mem_cons.mp member
    · exact ⟨first, List.mem_cons_self, here⟩
    · obtain ⟨result, listed, found⟩ := ih later member
      exact ⟨result, List.mem_cons_of_mem _ listed, found⟩

theorem toOption_eq_some {outcome : Except ε α} {result : α}
    (returned : outcome.toOption = some result) : outcome = .ok result := by
  cases outcome with
  | error refusal => cases returned
  | ok value => exact congrArg Except.ok (Option.some.inj returned)

theorem foldlM_preserves (holds : σ → Prop)
    (each : ∀ input ∈ inputs, ∀ state next, holds state → step state input = .ok next → holds next) {state next : σ}
    (start : holds state) (finished : inputs.foldlM step state = .ok next) : holds next := by
  induction inputs generalizing state with
  | nil =>
    cases finished
    exact start
  | cons input rest ih =>
    obtain ⟨middle, first, later⟩ := bind_eq_ok finished
    exact ih (fun input member => each input (.tail _ member))
      (each input (.head _) state middle start first) later

theorem foldlM_never (each : ∀ state input, step state input ≠ .error bad)
    (inputs : List α) (state : σ) : inputs.foldlM step state ≠ .error bad := by
  induction inputs generalizing state with
  | nil => exact nofun
  | cons input rest ih => exact bind_never (each state input) fun next _ => ih next

theorem forM_ok {check : α → Except ε Unit} (passed : inputs.forM check = .ok ()) :
    ∀ input ∈ inputs, check input = .ok () := by
  induction inputs with
  | nil => exact nofun
  | cons first rest ih =>
    obtain ⟨_, here, later⟩ := bind_eq_ok passed
    exact List.forall_mem_cons.mpr ⟨here, ih later⟩

end Fallible
