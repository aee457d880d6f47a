import Beads.Data.InducedCycle
import Beads.Propagation.Orbit

/-! Over finitely many rows a run of passes that never becomes quiet enters an orbit, and the rows
that stay restless on it contain a chordless cycle of the parent relation. -/

namespace Propagation.Network

open InducedCycle

variable {V : Type*} {net : Network V} {rounds : List (List (Set V))} {marks : Set V}

/-- A chordless hierarchy cycle of live rows that have no reason of their own. -/
def RestlessCycle (net : Network V) (length : Nat) (vertex : Nat → V) : Prop :=
  IsInducedCycle net.parent length vertex ∧ ∀ i < length, net.live (vertex i) ∧ ¬net.reason (vertex i)

theorem RestlessCycle.not_acyclic {length : Nat} {vertex : Nat → V} (cycle : RestlessCycle net length vertex) :
    ¬net.Acyclic := fun acyclic => acyclic _ cycle.1.transGen

theorem iterate_pass_of_notRow (inRows : ∀ scopes ∈ rounds, ∀ scope ∈ scopes, scope ⊆ net.rows) {v : V}
    (outside : v ∉ net.rows) (passes : Nat) : v ∈ (net.pass rounds)^[passes] marks ↔ v ∈ marks := by
  induction passes with
  | zero => rfl
  | succ passes ih =>
    rw [Function.iterate_succ_apply', pass_of_unswept, ih]
    exact fun scopes round scope member inside => outside (inRows scopes round scope member inside)

theorem exists_repeat (finite : net.rows.Finite) (inRows : ∀ scopes ∈ rounds, ∀ scope ∈ scopes, scope ⊆ net.rows)
    (marks : Set V) : ∃ first period, 0 < period ∧
      (net.pass rounds)^[first + period] marks = (net.pass rounds)^[first] marks := by
  have finiteRows : Finite net.rows := finite
  let onRows : Nat → Set net.rows := fun n => {v | v.1 ∈ (net.pass rounds)^[n] marks}
  have whole : ∀ i j, onRows i = onRows j → (net.pass rounds)^[i] marks = (net.pass rounds)^[j] marks := by
    intro i j same
    ext v
    by_cases row : v ∈ net.rows
    · exact Set.ext_iff.mp same ⟨v, row⟩
    · rw [iterate_pass_of_notRow inRows row, iterate_pass_of_notRow inRows row]
  obtain ⟨first, period, positive, returns⟩ := InducedCycle.exists_repeat onRows
  exact ⟨first, period, positive, whole _ _ returns⟩

def Orbit.ofRepeat (disjoint : rounds.flatten.Pairwise Disjoint) (marks : Set V) (first period : Nat)
    (positive : 0 < period) (returns : (net.pass rounds)^[first + period] marks = (net.pass rounds)^[first] marks) :
    Orbit net rounds where
  state n := (net.pass rounds)^[n + first] marks
  step n := by rw [Nat.add_right_comm, Function.iterate_succ_apply']
  period := period
  positive := positive
  repeats n := by
    rw [Nat.add_assoc, Nat.add_comm period first, Function.iterate_add_apply, returns, ← Function.iterate_add_apply]
  disjoint := disjoint

theorem Orbit.quiet_of_no_restless (orbit : Orbit net rounds) (none : ¬orbit.restless.Nonempty)
    (n : Nat) : net.Quiet rounds (orbit.state n) := by
  have always : ∀ v m, v ∈ orbit.state m → v ∈ orbit.always := by
    intro v m marked
    by_contra sometimes
    exact none ⟨v, ⟨m, marked⟩, sometimes⟩
  refine quiet_of_pass_eq orbit.disjoint ?_
  rw [← orbit.step]
  ext v
  exact ⟨fun marked => always v _ marked n, fun marked => always v _ marked (n + 1)⟩

theorem Orbit.exists_restlessCycle (orbit : Orbit net rounds) (finite : net.rows.Finite)
    (nonempty : orbit.restless.Nonempty) : ∃ length vertex, net.RestlessCycle length vertex := by
  have within : orbit.restless ⊆ net.rows := fun v member => net.live_row (restless_live member)
  obtain ⟨length, vertex, induced, inside⟩ := exists_inducedCycle (finite.subset within) nonempty
    (fun v member => restless_parent member) (fun v member => restless_not_self member)
    (fun v member w other => restless_not_mutual member other)
  exact ⟨length, vertex, induced, fun i _ => ⟨restless_live (inside i), restless_reason (inside i)⟩⟩

theorem exists_quiet (finite : net.rows.Finite) (disjoint : rounds.flatten.Pairwise Disjoint)
    (inRows : ∀ scopes ∈ rounds, ∀ scope ∈ scopes, scope ⊆ net.rows)
    (noCycle : ¬∃ length vertex, net.RestlessCycle length vertex) (marks : Set V) :
    ∃ passes, net.Quiet rounds ((net.pass rounds)^[passes] marks) := by
  obtain ⟨first, period, positive, returns⟩ := exists_repeat finite inRows marks
  let orbit := Orbit.ofRepeat disjoint marks first period positive returns
  refine ⟨first, ?_⟩
  have quiet := orbit.quiet_of_no_restless (fun some => noCycle (orbit.exists_restlessCycle finite some)) 0
  rwa [show orbit.state 0 = (net.pass rounds)^[first] marks by
    change (net.pass rounds)^[0 + first] marks = _
    rw [Nat.zero_add]] at quiet

end Propagation.Network
