import Beads.Propagation.Order

namespace Propagation.Network

variable {V : Type*} {net : Network V} {rounds : List (List (Set V))} {v w : V}

theorem FromAbove.mono {marks other : Set V} (within : marks ⊆ other)
    (chain : net.FromAbove marks v) : net.FromAbove other v := by
  induction chain with
  | source edge marked exogenous => exact .source edge (within marked) exogenous
  | step edge marked _ ih => exact .step edge (within marked) ih

structure Orbit (net : Network V) (rounds : List (List (Set V))) where
  state : Nat → Set V
  step : ∀ n, state (n + 1) = net.pass rounds (state n)
  period : Nat
  positive : 0 < period
  repeats : ∀ n, state (n + period) = state n
  disjoint : rounds.flatten.Pairwise Disjoint

namespace Orbit

variable (orbit : Orbit net rounds)

def always : Set V := {v | ∀ n, v ∈ orbit.state n}

def restless : Set V := {v | (∃ n, v ∈ orbit.state n) ∧ v ∉ orbit.always}

variable {orbit}

theorem repeats_mul (n times : Nat) : orbit.state (n + times * orbit.period) = orbit.state n :=
  Function.Periodic.nat_mul orbit.repeats times n

variable {n : Nat} {state : Set V}

theorem everywhere (holds : Set V → Prop) (kept : ∀ n, holds (orbit.state (n + 1)) → holds (orbit.state (n + 2)))
    (now : holds (orbit.state n)) (m : Nat) : holds (orbit.state m) := by
  have positive := orbit.positive
  have later : ∀ extra, holds (orbit.state (n + orbit.period + extra)) := by
    intro extra
    induction extra with
    | zero => rwa [Nat.add_zero, orbit.repeats]
    | succ extra ih =>
      obtain ⟨previous, shape⟩ : ∃ previous, n + orbit.period + extra = previous + 1 :=
        Nat.exists_eq_succ_of_ne_zero (by omega)
      rw [shape] at ih
      have next := kept previous ih
      rwa [show n + orbit.period + (extra + 1) = previous + 2 by omega]
  have far : n + orbit.period ≤ m + (n + orbit.period) * orbit.period := by
    have := Nat.le_mul_of_pos_right (n + orbit.period) positive
    omega
  obtain ⟨extra, shape⟩ := Nat.exists_eq_add_of_le far
  have reached := later extra
  rwa [← shape, repeats_mul] at reached

theorem mem_always_of_kept (kept : ∀ n, v ∈ orbit.state (n + 1) → v ∈ orbit.state (n + 2))
    (member : v ∈ orbit.state n) : v ∈ orbit.always :=
  fun m => everywhere (fun state => v ∈ state) kept member m

def Met (orbit : Orbit net rounds) (state : Set V) : Prop :=
  ∃ n, Between (orbit.state n) (orbit.state (n + 1)) state

theorem always_subset (met : orbit.Met state) : orbit.always ⊆ state := by
  obtain ⟨n, between⟩ := met
  exact fun v member => between.1 ⟨member n, member (n + 1)⟩

theorem exists_of_met (met : orbit.Met state) (member : v ∈ state) : ∃ n, v ∈ orbit.state n := by
  obtain ⟨n, between⟩ := met
  rcases between.2 member with now | next
  · exact ⟨n, now⟩
  · exact ⟨n + 1, next⟩

def Held (orbit : Orbit net rounds) (v : V) : Prop :=
  ∀ read before, orbit.Met read → orbit.always ⊆ before → net.Due (net.explained read) before v

theorem sweptIn_step (orbit : Orbit net rounds) (n : Nat) (swept : ∃ scope ∈ rounds.flatten, v ∈ scope) :
    ∃ visit : SweptIn net rounds (orbit.state n) v, (v ∈ orbit.state (n + 1) ↔
      v ∈ net.sweep (net.explained visit.read) visit.before visit.scope) ∧ orbit.Met visit.read ∧
      orbit.Met visit.before ∧ (v ∈ visit.before ↔ v ∈ orbit.state n) := by
  obtain ⟨visit⟩ : Nonempty (SweptIn net rounds (orbit.state n) v) := exists_sweptIn orbit.disjoint swept
  refine ⟨visit, orbit.step n ▸ visit.result, ⟨n, orbit.step n ▸ visit.readBetween⟩, ⟨n, ?_⟩,
    (visit.sees v).2 (not_before_self orbit.disjoint)⟩
  refine between_of_mem_iff fun w => ?_
  rw [orbit.step n]
  by_cases earlier : Before rounds w v
  · exact .inl ((visit.sees w).1 earlier)
  · exact .inr ((visit.sees w).2 earlier)

theorem state_of_unswept (unswept : ¬∃ scope ∈ rounds.flatten, v ∈ scope) (n : Nat) :
    v ∈ orbit.state (n + 1) ↔ v ∈ orbit.state n := by
  rw [orbit.step n]
  exact pass_of_unlisted fun scope listed inside => unswept ⟨scope, listed, inside⟩

theorem held_of_fromAbove (chain : net.FromAbove orbit.always v) : orbit.Held v := by
  intro read before met within
  cases chain with
  | source edge marked exogenous =>
    exact .inr ⟨_, edge, within marked, fun explained => explained.2.2.1 exogenous⟩
  | step edge marked further =>
    exact .inr ⟨_, edge, within marked, fun explained => explained.2.2.2 (further.mono (always_subset met))⟩

section

variable (member : v ∈ orbit.restless)
include member

theorem exists_entry : ∃ n, v ∉ orbit.state n ∧ v ∈ orbit.state (n + 1) := by
  by_contra none
  push Not at none
  obtain ⟨⟨n, marked⟩, notAlways⟩ := member
  obtain ⟨m, clear⟩ := not_forall.mp notAlways
  exact everywhere (fun state => v ∉ state) (fun n => none (n + 1)) clear n marked

theorem restless_swept : ∃ scope ∈ rounds.flatten, v ∈ scope := by
  by_contra unswept
  obtain ⟨⟨n, marked⟩, notAlways⟩ := member
  exact notAlways (mem_always_of_kept (fun n => (state_of_unswept unswept (n + 1)).mpr) marked)

theorem restless_live : net.live v := by
  obtain ⟨n, _, marked⟩ := exists_entry member
  obtain ⟨visit, result, _⟩ := sweptIn_step orbit n (restless_swept member)
  exact ((mem_sweep_of_mem visit.inside).mp (result.mp marked)).1

omit member in
theorem mem_always_of_held (held : orbit.Held v) (marked : v ∈ orbit.state n) : v ∈ orbit.always := by
  by_contra notAlways
  have restless : v ∈ orbit.restless := ⟨⟨n, marked⟩, notAlways⟩
  refine notAlways (mem_always_of_kept (fun m _ => ?_) marked)
  obtain ⟨visit, result, readMet, beforeMet, _⟩ := sweptIn_step orbit (m + 1) (restless_swept restless)
  rw [result, mem_sweep_of_mem visit.inside]
  exact ⟨restless_live restless, .inl (held _ _ readMet (always_subset beforeMet))⟩

theorem restless_reason : ¬net.reason v := by
  intro reason
  obtain ⟨⟨n, marked⟩, notAlways⟩ := member
  exact notAlways (mem_always_of_held (fun _ _ _ _ => .inl reason) marked)

omit member in
theorem fromAbove_always (met : orbit.Met state) (chain : net.FromAbove state v) :
    net.FromAbove orbit.always v := by
  induction chain with
  | source edge marked exogenous =>
    obtain ⟨n, seen⟩ := exists_of_met met marked
    have held : orbit.Held _ := fun _ _ _ _ => .inl (net.exogenous_reason exogenous)
    exact .source edge (mem_always_of_held held seen) exogenous
  | step edge marked _ ih =>
    obtain ⟨n, seen⟩ := exists_of_met met marked
    exact .step edge (mem_always_of_held (held_of_fromAbove ih) seen) ih

omit member in
theorem passes_always {other : Set V} (met : orbit.Met state) (otherMet : orbit.Met other)
    (always : v ∈ orbit.always) (passes : v ∉ net.explained state) : v ∉ net.explained other := by
  rintro ⟨_, reason, inside, free⟩
  refine passes ⟨always_subset met always, reason, inside, fun chain => free ?_⟩
  exact (fromAbove_always met chain).mono (always_subset otherMet)

theorem restless_parent : ∃ above ∈ orbit.restless, net.parent v above := by
  obtain ⟨n, clear, marked⟩ := exists_entry member
  obtain ⟨visit, result, readMet, beforeMet, own⟩ := sweptIn_step orbit n (restless_swept member)
  have due : net.Due (net.explained visit.read) visit.before v := by
    rcases ((mem_sweep_of_mem visit.inside).mp (result.mp marked)).2 with due | kept
    · exact due
    · exact absurd (own.mp kept.1) clear
  obtain ⟨above, edge, seen, passes⟩ := due.resolve_left (restless_reason member)
  refine ⟨above, ⟨exists_of_met beforeMet seen, fun always => ?_⟩, edge⟩
  have held : orbit.Held v := fun read before met within =>
    .inr ⟨above, edge, within always, passes_always readMet met always passes⟩
  exact member.2 (mem_always_of_held held marked)

theorem restless_kept (parent : w ∈ orbit.restless) (edge : net.parent v w)
    (marked : v ∈ orbit.state n) (seen : ∀ visit : SweptIn net rounds (orbit.state n) v,
      w ∈ net.mark (net.explained visit.read) visit.scope visit.before) : v ∈ orbit.state (n + 1) := by
  obtain ⟨visit, result, _, _, own⟩ := sweptIn_step orbit n (restless_swept member)
  rw [result, mem_sweep_of_mem visit.inside]
  refine ⟨restless_live member, .inr ⟨own.mpr marked, .inr ⟨w, edge, seen visit, fun explained => ?_⟩⟩⟩
  exact restless_reason parent explained.2.1

theorem restless_marked (parent : w ∈ orbit.restless) (edge : net.parent v w)
    (seen : ∀ visit : SweptIn net rounds (orbit.state n) v, w ∈ visit.before) : v ∈ orbit.state (n + 1) := by
  obtain ⟨visit, result, _⟩ := sweptIn_step orbit n (restless_swept member)
  rw [result, mem_sweep_of_mem visit.inside]
  refine ⟨restless_live member, .inl (.inr ⟨w, edge, seen visit, fun explained => ?_⟩)⟩
  exact restless_reason parent explained.2.1

theorem restless_not_self : ¬net.parent v v := by
  intro edge
  obtain ⟨n, marked⟩ := member.1
  refine member.2 (mem_always_of_kept (fun n now => ?_) marked)
  refine restless_kept member member edge now fun visit => subset_mark ?_
  exact ((visit.sees v).2 (not_before_self orbit.disjoint)).mpr now

theorem always_of_mutual_before (other : w ∈ orbit.restless) (up : net.parent v w)
    (down : net.parent w v) (first : Before rounds v w) (notLast : ¬Before rounds w v) : v ∈ orbit.always := by
  obtain ⟨n, marked⟩ := member.1
  refine mem_always_of_kept (fun n now => ?_) marked
  have partner : w ∈ orbit.state (n + 1) := by
    refine restless_marked other member down fun visit => ?_
    rw [(visit.sees v).1 first, ← orbit.step]
    exact now
  refine restless_marked member other up fun visit => ?_
  exact ((visit.sees w).2 notLast).mpr partner

theorem restless_not_mutual (other : w ∈ orbit.restless) (up : net.parent v w) : ¬net.parent w v := by
  intro down
  by_cases first : Before rounds v w
  · exact member.2 (always_of_mutual_before member other up down first (before_asymm orbit.disjoint first))
  by_cases last : Before rounds w v
  · exact other.2 (always_of_mutual_before other member down up last first)
  -- Both rows are swept by the same statement: its mark reaches the partner before its unmark
  -- looks.
  obtain ⟨n, marked⟩ := member.1
  refine member.2 (mem_always_of_kept (fun n now => ?_) marked)
  refine restless_kept member other up now fun visit => .inr ⟨?_, restless_live other, .inr ⟨v, down, ?_, ?_⟩⟩
  · exact same_scope visit.listed visit.inside (restless_swept other) last first
  · exact ((visit.sees v).2 (not_before_self orbit.disjoint)).mpr now
  · exact fun explained => restless_reason member explained.2.1

end

end Orbit

end Propagation.Network
