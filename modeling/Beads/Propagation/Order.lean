import Beads.Propagation.Schedule

namespace Propagation.Network

open List hiding Disjoint

variable {V : Type*} {net : Network V} {marks : Set V} {rounds : List (List (Set V))} {v w : V}

def Before (rounds : List (List (Set V))) (first second : V) : Prop :=
  ∃ earlier later, rounds.flatten = earlier ++ later ∧ (∃ scope ∈ earlier, first ∈ scope) ∧ ∃ scope ∈ later, second ∈ scope

/-- States met during the pass lie between the marks before it and the marks after it. -/
def Between (marks after state : Set V) : Prop := marks ∩ after ⊆ state ∧ state ⊆ marks ∪ after

structure SweptIn (net : Network V) (rounds : List (List (Set V))) (marks : Set V) (v : V) where
  read : Set V
  before : Set V
  scope : Set V
  inside : v ∈ scope
  listed : scope ∈ rounds.flatten
  result : v ∈ net.pass rounds marks ↔ v ∈ net.sweep (net.explained read) before scope
  readBetween : Between marks (net.pass rounds marks) read
  sees : ∀ w, (Before rounds w v → (w ∈ before ↔ w ∈ net.pass rounds marks)) ∧
    (¬Before rounds w v → (w ∈ before ↔ w ∈ marks))

theorem between_of_mem_iff {after state : Set V} (each : ∀ w, (w ∈ state ↔ w ∈ after) ∨ (w ∈ state ↔ w ∈ marks)) :
    Between marks after state := by
  constructor
  · intro w both
    rcases each w with same | same
    · exact same.mpr both.2
    · exact same.mpr both.1
  · intro w member
    rcases each w with same | same
    · exact .inr (same.mp member)
    · exact .inl (same.mp member)

variable {scope : Set V}

theorem same_scope (listed : scope ∈ rounds.flatten) (inside : v ∈ scope)
    (swept : ∃ scope ∈ rounds.flatten, w ∈ scope) (notEarlier : ¬Before rounds w v)
    (notLater : ¬Before rounds v w) : w ∈ scope := by
  obtain ⟨earlier, later, split⟩ := append_of_mem listed
  obtain ⟨other, otherListed, member⟩ := swept
  rw [split, mem_append, mem_cons] at otherListed
  rcases otherListed with first | rfl | last
  · exact absurd ⟨earlier, scope :: later, split, ⟨other, first, member⟩, scope, mem_cons_self, inside⟩ notEarlier
  · exact member
  · refine absurd ⟨earlier ++ [scope], later, by simp [split], ⟨scope, by simp, inside⟩, other, last, member⟩ notLater

theorem pass_of_unlisted (outside : ∀ scope ∈ rounds.flatten, v ∉ scope) : v ∈ net.pass rounds marks ↔ v ∈ marks :=
  pass_of_unswept fun group listed next member => outside next (mem_flatten.mpr ⟨group, listed, member⟩)

section

variable (disjoint : rounds.flatten.Pairwise Disjoint)
include disjoint

theorem before_iff {earlier later : List (Set V)}
    (split : rounds.flatten = earlier ++ scope :: later) (inside : v ∈ scope) :
    Before rounds w v ↔ ∃ other ∈ earlier, w ∈ other := by
  constructor
  · rintro ⟨front, back, cut, ⟨other, listed, member⟩, ⟨again, againListed, againInside⟩⟩
    rw [split] at disjoint cut
    rcases append_eq_append_iff.mp cut with ⟨middle, rfl, rest⟩ | ⟨middle, rfl, _⟩
    · cases middle with
      | nil => exact ⟨other, by simpa using listed, member⟩
      | cons head tail =>
        obtain ⟨rfl, rfl⟩ := cons.inj rest
        have apart := (pairwise_cons.mp (pairwise_append.mp disjoint).2.1).1 again
          (mem_append_right _ againListed)
        exact absurd againInside (Set.disjoint_left.mp apart inside)
    · exact ⟨other, mem_append_left _ listed, member⟩
  · intro early
    exact ⟨earlier, scope :: later, split, early, scope, mem_cons_self, inside⟩

theorem exists_sweptIn (swept : ∃ scope ∈ rounds.flatten, v ∈ scope) :
    Nonempty (SweptIn net rounds marks v) := by
  obtain ⟨scope, listed, inside⟩ := swept
  obtain ⟨scopes, round, member⟩ := mem_flatten.mp listed
  obtain ⟨firstRounds, laterRounds, rfl⟩ := append_of_mem round
  obtain ⟨firstScopes, laterScopes, rfl⟩ := append_of_mem member
  let read := net.pass firstRounds marks
  let before := firstScopes.foldl (net.sweep (net.explained read)) read
  let rest (state : Set V) : Set V := net.pass laterRounds (laterScopes.foldl (net.sweep (net.explained read)) state)
  have whole : net.pass (firstRounds ++ (firstScopes ++ scope :: laterScopes) :: laterRounds) marks =
      rest (net.sweep (net.explained read) before scope) := by
    rw [pass_append, pass_cons]
    unfold Network.round
    rw [foldl_append, foldl_cons]
  have flat : (firstRounds ++ (firstScopes ++ scope :: laterScopes) :: laterRounds).flatten =
      (firstRounds.flatten ++ firstScopes) ++ scope :: (laterScopes ++ laterRounds.flatten) := by
    simp
  have apart := disjoint
  rw [flat] at apart
  obtain ⟨frontApart, tailApart, cross⟩ := pairwise_append.mp apart
  have laterApart := (pairwise_cons.mp tailApart).1
  have early : ∀ w, _ ↔ ∃ other ∈ firstRounds.flatten ++ firstScopes, w ∈ other :=
    fun w => before_iff disjoint flat inside
  -- A row none of the remaining statements sweeps carries its final mark already.
  have final : ∀ w state, (∀ next ∈ laterScopes ++ laterRounds.flatten, w ∉ next) → (w ∈ rest state ↔ w ∈ state) := by
    intro w state untouched
    obtain ⟨scopes, rounds⟩ := forall_mem_append.mp untouched
    exact (pass_of_unlisted rounds).trans (sweeps_of_unswept scopes)
  have finalEarly : ∀ w, (∃ other ∈ firstRounds.flatten ++ firstScopes, w ∈ other) →
      (w ∈ before ↔ w ∈ rest (net.sweep (net.explained read) before scope)) := by
    rintro w ⟨other, listed, member⟩
    have outside : ∀ next ∈ scope :: (laterScopes ++ laterRounds.flatten), w ∉ next :=
      fun next nextListed => Set.disjoint_left.mp (cross other listed next nextListed) member
    rw [final w _ fun next nextListed => outside next (.tail _ nextListed),
      mem_sweep_of_notMem (outside scope (.head _))]
  refine ⟨⟨read, before, scope, inside, listed, ?_, ?_, fun w => ⟨fun isEarly => ?_, fun isLate => ?_⟩⟩⟩
  · rw [whole]
    exact final v _ fun next nextListed => Set.disjoint_left.mp (laterApart next nextListed) inside
  · refine between_of_mem_iff fun w => ?_
    by_cases first : ∃ other ∈ firstRounds.flatten, w ∈ other
    · refine .inl ?_
      obtain ⟨other, listed, member⟩ := first
      rw [whole, ← finalEarly w ⟨other, mem_append_left _ listed, member⟩]
      have outside : ∀ next ∈ firstScopes, w ∉ next := fun next nextListed =>
        Set.disjoint_left.mp ((pairwise_append.mp frontApart).2.2 other listed next nextListed) member
      exact (sweeps_of_unswept outside).symm
    · exact .inr (pass_of_unlisted fun next listed inNext => first ⟨next, listed, inNext⟩)
  · rw [whole]
    exact finalEarly w ((early w).mp isEarly)
  · obtain ⟨rounds, scopes⟩ : (∀ other ∈ firstRounds.flatten, w ∉ other) ∧ ∀ other ∈ firstScopes, w ∉ other :=
      forall_mem_append.mp fun other listed member => isLate ((early w).mpr ⟨other, listed, member⟩)
    exact (sweeps_of_unswept scopes).trans (pass_of_unlisted rounds)

theorem not_before_self : ¬Before rounds v v := by
  rintro ⟨earlier, later, split, ⟨first, firstListed, inFirst⟩, ⟨second, secondListed, inSecond⟩⟩
  rw [split] at disjoint
  have apart := (pairwise_append.mp disjoint).2.2 first firstListed second secondListed
  exact Set.disjoint_left.mp apart inFirst inSecond

theorem before_asymm (first : Before rounds v w) : ¬Before rounds w v := by
  obtain ⟨earlier, later, split, ⟨scope, listed, inside⟩, late⟩ := first
  rintro ⟨front, back, cut, ⟨other, otherListed, otherInside⟩, last⟩
  obtain shorter | shorter := prefix_or_prefix_of_prefix (⟨_, split.symm⟩ : earlier <+: _) ⟨_, cut.symm⟩
  · exact not_before_self disjoint ⟨front, back, cut, ⟨scope, shorter.subset listed, inside⟩, last⟩
  · exact not_before_self disjoint ⟨earlier, later, split, ⟨other, shorter.subset otherListed, otherInside⟩, late⟩

theorem scope_unique {other : Set V}
    (listed : scope ∈ rounds.flatten) (inside : v ∈ scope) (otherListed : other ∈ rounds.flatten)
    (otherInside : v ∈ other) : scope = other := by
  by_contra differ
  have apart := disjoint.forall listed otherListed differ
  exact Set.disjoint_left.mp apart inside otherInside

theorem quiet_of_pass_eq (same : net.pass rounds marks = marks) : net.Quiet rounds marks := by
  intro scopes round scope member
  have listed : scope ∈ rounds.flatten := mem_flatten.mpr ⟨scopes, round, member⟩
  ext v
  by_cases inside : v ∈ scope
  · obtain ⟨visit⟩ : Nonempty (SweptIn net rounds marks v) := exists_sweptIn disjoint ⟨scope, listed, inside⟩
    have scopeSame := scope_unique disjoint visit.listed visit.inside listed inside
    have readSame : visit.read = marks := by
      have between := visit.readBetween
      rw [same] at between
      exact Set.Subset.antisymm (fun w seen => (between.2 seen).elim id id) fun w marked => between.1 ⟨marked, marked⟩
    have beforeSame : visit.before = marks := by
      ext w
      by_cases early : Before rounds w v
      · rw [(visit.sees w).1 early, same]
      · exact (visit.sees w).2 early
    have result := visit.result
    rw [same, scopeSame, readSame, beforeSame] at result
    exact result.symm
  · exact mem_sweep_of_notMem inside

end

end Propagation.Network
