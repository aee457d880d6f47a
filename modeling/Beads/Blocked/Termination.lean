import Beads.Blocked.Padding
import Beads.Propagation.Rotation
import Beads.Propagation.Termination

namespace Beads

open Propagation InducedCycle

namespace Tables

variable {tables : Tables} {length : Nat} {item : Nat → ItemRef}

/-- At least three open items, none with a blocking reason of its own, each of which has exactly the
next one among them as a parent. -/
structure StuckCycle (tables : Tables) (length : Nat) (item : Nat → ItemRef) : Prop where
  long : 3 ≤ length
  distinct : ∀ i < length, ∀ j < length, item i = item j → i = j
  parents : ∀ i < length, ∀ j < length, tables.ParentChild (item i) (item j) ↔ j = (i + 1) % length
  active : ∀ i < length, tables.active (item i) = true
  reasonless : ∀ i < length, ¬tables.HasReason (item i)

theorem restlessCycle_iff : tables.network.RestlessCycle length item ↔ tables.StuckCycle length item := by
  constructor
  · rintro ⟨⟨long, distinct, edges⟩, rows⟩
    refine ⟨long, distinct, fun i iBound j jBound => ?_, fun i bound => (rows i bound).1, fun i bound => (rows i bound).2⟩
    exact (and_iff_left (stored_of_active (rows j jBound).1)).symm.trans (edges i iBound j jBound)
  · rintro ⟨long, distinct, parents, active, reasonless⟩
    refine ⟨⟨long, distinct, fun i iBound j jBound => ?_⟩, fun i bound => ⟨active i bound, reasonless i bound⟩⟩
    exact (and_iff_left (stored_of_active (active j jBound))).trans (parents i iBound j jBound)

namespace StuckCycle

variable {shift i j : Nat}

def unrolled (length : Nat) (item : Nat → ItemRef) (shift i : Nat) : ItemRef :=
  item ((i + shift) % length)

theorem next_index (i shift : Nat) : (i + 1 + shift) % length = ((i + shift) % length + 1) % length := by
  rw [Nat.mod_add_mod, Nat.add_right_comm]

theorem unrolled_mod : unrolled length item shift (i % length) = unrolled length item shift i := by
  rw [unrolled, Nat.mod_add_mod, unrolled]

variable (cycle : tables.StuckCycle length item)
include cycle

theorem positive : 0 < length := by
  have := cycle.long
  omega

theorem bound : (i + shift) % length < length := Nat.mod_lt _ cycle.positive

theorem unrolled_active : tables.active (unrolled length item shift i) = true :=
  cycle.active _ cycle.bound

theorem unrolled_parent : tables.ParentChild (unrolled length item shift i) (unrolled length item shift j) ↔
    (j + shift) % length = (i + 1 + shift) % length := by
  rw [next_index]
  exact cycle.parents _ cycle.bound _ cycle.bound

theorem unrolled_inj (same : unrolled length item shift i = unrolled length item shift j) :
    i % length = j % length :=
  Nat.ModEq.add_right_cancel' shift (cycle.distinct _ cycle.bound _ cycle.bound same)

theorem unrolled_advances : unrolled length item shift (i + 1) ≠ unrolled length item shift i := by
  intro same
  have long := cycle.long
  have remainder : (i + 1) % length = i % length := cycle.unrolled_inj same
  rw [← Nat.mod_add_mod] at remainder
  have below := Nat.mod_lt i cycle.positive
  by_cases wraps : i % length + 1 = length
  · rw [wraps, Nat.mod_self] at remainder
    omega
  · rw [Nat.mod_eq_of_lt (by omega)] at remainder
    omega

theorem unrolled_distinct : ∀ i < length, ∀ j < length,
    unrolled length item shift i = unrolled length item shift j → i = j := by
  intro i iBound j jBound same
  have remainder := cycle.unrolled_inj same
  rwa [Nat.mod_eq_of_lt iBound, Nat.mod_eq_of_lt jBound] at remainder

theorem present : ∀ i < length, tables.stored (unrolled length item shift i) = true :=
  fun _ _ => stored_of_active cycle.unrolled_active

def ring (shift : Nat) : Network.Ring tables.network
    (tables.rounds (tables.paddedIds length (unrolled length item shift) .issue)
      (tables.paddedIds length (unrolled length item shift) .wisp)) where
  item := unrolled length item shift
  length := length
  positive := cycle.positive
  closes i := by rw [unrolled, Nat.add_right_comm, Nat.add_mod_right, unrolled]
  live i := cycle.unrolled_active
  reasonless i := cycle.reasonless _ cycle.bound
  edge i := ⟨cycle.unrolled_parent.mpr rfl, stored_of_active cycle.unrolled_active⟩
  chordless i j edge := congrArg item (cycle.unrolled_parent.mp edge.1)
  advances i := cycle.unrolled_advances
  disjoint := rounds_disjoint (paddedIds_nodup cycle.present cycle.unrolled_distinct)
    (paddedIds_nodup cycle.present cycle.unrolled_distinct)
  alone scope listed := by
    rw [rounds_flatten, scopes_paddedIds cycle.present] at listed
    obtain ⟨i, _, rfl⟩ := List.mem_map.mp listed
    exact ⟨i, .inl rfl⟩
  swept i := by
    rw [rounds_flatten]
    refine mem_scopes.mpr ⟨?_, stored_of_active cycle.unrolled_active⟩
    have member : (unrolled length item shift (i % length)).id ∈ tables.paddedIds length (unrolled length item shift)
        (unrolled length item shift (i % length)).plane := item_mem_paddedIds (Nat.mod_lt i cycle.positive) rfl
    rw [unrolled_mod] at member
    cases inPlane : (unrolled length item shift i).plane <;> rwa [inPlane] at member

theorem late (bound : i + 1 < length)
    (ordered : ¬((unrolled length item shift i).plane = .wisp ∧
    (unrolled length item shift (i + 1)).plane = .issue)) : (cycle.ring shift).Late i :=
  before_of_sublist cycle.present (sublist_order (Nat.lt_succ_self i) bound ordered)

theorem exists_start : ∃ shift,
    ¬((unrolled length item shift 0).plane = .wisp ∧ (unrolled length item shift 1).plane = .issue) ∧
    ¬((unrolled length item shift (length - 2)).plane = .wisp ∧ (unrolled length item shift (length - 1)).plane = .issue) := by
  have long := cycle.long
  by_cases crossing : ∃ k, (unrolled length item k 0).plane = .wisp ∧ (unrolled length item (k + 1) 0).plane = .issue
  · obtain ⟨k, wisp, issue⟩ := crossing
    refine ⟨k + 1, fun first => ?_, fun last => ?_⟩
    · rw [issue] at first
      exact Plane.noConfusion first.1
    · have wraps : unrolled length item (k + 1) (length - 1) = unrolled length item k 0 := by
        rw [unrolled, unrolled, show length - 1 + (k + 1) = 0 + k + length by omega, Nat.add_mod_right]
      rw [wraps, wisp] at last
      exact Plane.noConfusion last.2
  · have moved : ∀ i, unrolled length item 0 i = unrolled length item i 0 := by
      intro i
      rw [unrolled, unrolled, Nat.add_comm]
    refine ⟨0, fun first => crossing ⟨0, ?_⟩, fun last => crossing ⟨length - 2, ?_⟩⟩
    · rwa [moved 1] at first
    · rwa [moved, moved, show length - 1 = length - 2 + 1 by omega] at last

theorem never_returns (mode : SplitMode) : ∃ bits issueIds wispIds, issueIds.Nodup ∧ wispIds.Nodup ∧
    ∀ fuel, tables.recomputeIsBlocked mode issueIds wispIds fuel bits = none := by
  have long := cycle.long
  obtain ⟨shift, firstStep, lastStep⟩ := cycle.exists_start
  let ring := cycle.ring shift
  let bits : Bits := fun ref => decide (ref = unrolled length item shift 1)
  have marked : marks bits = {unrolled length item shift 1} := by
    ext ref
    simp [marks, bits]
  have nodup : ∀ plane, (tables.paddedIds length (unrolled length item shift) plane).Nodup :=
    fun plane => paddedIds_nodup cycle.present cycle.unrolled_distinct
  refine ⟨bits, _, _, nodup .issue, nodup .wisp, fun fuel => ?_⟩
  by_contra some
  obtain ⟨result, returned⟩ := Option.ne_none_iff_exists'.mp some
  obtain ⟨passes, quiet⟩ := recomputeIsBlocked_returns.mp ⟨fuel, result, returned⟩
  have lastLate : ring.Late (length - 2) := cycle.late (by omega) (by rwa [show length - 2 + 1 = length - 1 by omega])
  refine ring.never_quiet ?_ ⟨0, cycle.late (by omega) firstStep, ?_⟩ ⟨length - 2, lastLate, ?_⟩ passes quiet
  · intro ref member
    rw [marked, Set.mem_singleton_iff] at member
    exact ⟨1, member⟩
  · rw [marked]
    exact iff_of_true rfl trivial
  · rw [marked, show length - 2 + 1 = length - 1 by omega]
    refine iff_of_false (fun same => ?_) not_false
    have := cycle.unrolled_distinct _ (by omega) _ (by omega) same
    omega

end StuckCycle

theorem repairRounds_disjoint : tables.repairRounds.flatten.Pairwise Disjoint := by
  simp only [repairRounds, List.flatten_cons, List.flatten_nil, List.append_nil, List.pairwise_cons, List.mem_singleton,
    forall_eq, List.not_mem_nil, false_imp_iff, implies_true, List.Pairwise.nil, and_true]
  refine Set.disjoint_left.mpr fun ref issue wisp => ?_
  have planes := issue.1
  rw [wisp.1] at planes
  exact Plane.noConfusion planes

/-- Both loops return from every column, over any ids, exactly when no cycle is stuck. -/
theorem recompute_terminates_iff :
    (∀ bits, (∃ fuel result, tables.recomputeAllIsBlocked fuel bits = some result) ∧
      ∀ mode issueIds wispIds, issueIds.Nodup → wispIds.Nodup →
        ∃ fuel result, tables.recomputeIsBlocked mode issueIds wispIds fuel bits = some result) ↔
      ¬∃ length item, tables.StuckCycle length item := by
  constructor
  · rintro returns ⟨length, item, cycle⟩
    obtain ⟨bits, issueIds, wispIds, issueNodup, wispNodup, never⟩ := cycle.never_returns {}
    obtain ⟨fuel, result, returned⟩ := (returns bits).2 {} issueIds wispIds issueNodup wispNodup
    rw [never fuel] at returned
    exact Option.some_ne_none _ returned.symm
  · intro free bits
    have noCycle : ¬∃ length item, tables.network.RestlessCycle length item := by
      simpa only [restlessCycle_iff] using free
    constructor
    · obtain ⟨passes, quiet⟩ :=
        Network.exists_quiet network_rows_finite repairRounds_disjoint repairRounds_rows noCycle (marks bits)
      obtain ⟨after, corrected, returned, _⟩ := recomputeIsBlockedCounting_stops (Nat.lt_succ_self passes) quiet
      by_cases empty : ((tables.items .issue).isEmpty && (tables.items .wisp).isEmpty) = true
      · exact ⟨0, _, if_pos empty⟩
      · exact ⟨_, _, (if_neg empty).trans returned⟩
    · intro mode issueIds wispIds issueNodup wispNodup
      exact recomputeIsBlocked_returns.mpr
        (Network.exists_quiet network_rows_finite (rounds_disjoint issueNodup wispNodup) rounds_rows noCycle (marks bits))

/-- Three open issues, each with the next one as its parent. -/
def hierarchyRing : Tables where
  items
    | .issue => [⟨"bd-a", .opened⟩, ⟨"bd-b", .opened⟩, ⟨"bd-c", .opened⟩]
    | .wisp => []
  dependencies
    | .issue => [{ issueId := "bd-a", target := .item ⟨.issue, "bd-b"⟩, type := .parentChild },
        { issueId := "bd-b", target := .item ⟨.issue, "bd-c"⟩, type := .parentChild },
        { issueId := "bd-c", target := .item ⟨.issue, "bd-a"⟩, type := .parentChild }]
    | .wisp => []

def onlyBlocked (id : Id) : Bits := fun ref => ref == ⟨.issue, id⟩

theorem onlyBlocked_moved {id next : Id} (differ : next ≠ id) :
    Function.update (Function.update (onlyBlocked id) ⟨.issue, next⟩ true) ⟨.issue, id⟩ false = onlyBlocked next := by
  funext ref
  by_cases own : ref = ⟨.issue, id⟩
  · subst own
    simp [onlyBlocked, Ne.symm differ]
  · by_cases moved : ref = ⟨.issue, next⟩
    · subst moved
      simp [onlyBlocked, differ]
    · simp [onlyBlocked, own, moved]

theorem hierarchyRing_pass {id next : Id} (step : (id, next) ∈ [("bd-a", "bd-c"), ("bd-b", "bd-a"), ("bd-c", "bd-b")]) :
    hierarchyRing.recomputeAllPass (onlyBlocked id) = (onlyBlocked next, 2) := by
  have explicit : id = "bd-a" ∧ next = "bd-c" ∨ id = "bd-b" ∧ next = "bd-a" ∨ id = "bd-c" ∧ next = "bd-b" := by
    simpa using step
  have marked : hierarchyRing.markBlocked .issue wholeTable (hierarchyRing.subtreeExplainedParents (onlyBlocked id))
      (onlyBlocked id) = (Function.update (onlyBlocked id) ⟨.issue, next⟩ true, 1) := by
    refine setBlocked_single ⟨next, .opened⟩ ?_
    rcases explicit with ⟨rfl, rfl⟩ | ⟨rfl, rfl⟩ | ⟨rfl, rfl⟩ <;> decide
  have unmarked : hierarchyRing.unmarkBlocked .issue wholeTable (hierarchyRing.subtreeExplainedParents (onlyBlocked id))
      (Function.update (onlyBlocked id) ⟨.issue, next⟩ true) = (onlyBlocked next, 1) := by
    have moved : next ≠ id := by
      rcases explicit with ⟨rfl, rfl⟩ | ⟨rfl, rfl⟩ | ⟨rfl, rfl⟩ <;> decide
    rw [← onlyBlocked_moved moved]
    refine setBlocked_single ⟨id, .opened⟩ ?_
    rcases explicit with ⟨rfl, rfl⟩ | ⟨rfl, rfl⟩ | ⟨rfl, rfl⟩ <;> decide
  change hierarchyRing.markUnmark .issue wholeTable (hierarchyRing.subtreeExplainedParents (onlyBlocked id))
    (onlyBlocked id) = _
  simp only [markUnmark, marked, unmarked]

theorem hierarchyRing_circulates (fuel : Nat) : ∀ id ∈ ["bd-a", "bd-b", "bd-c"],
    hierarchyRing.recomputeIsBlockedCounting fuel (onlyBlocked id) = none := by
  induction fuel with
  | zero => exact fun _ _ => rfl
  | succ fuel ih =>
    intro id member
    obtain ⟨next, step, listed⟩ : ∃ next, (id, next) ∈ [("bd-a", "bd-c"), ("bd-b", "bd-a"), ("bd-c", "bd-b")] ∧
        next ∈ ["bd-a", "bd-b", "bd-c"] := by
      simp only [List.mem_cons, List.not_mem_nil, or_false] at member
      rcases member with rfl | rfl | rfl
      · exact ⟨"bd-c", by decide⟩
      · exact ⟨"bd-a", by decide⟩
      · exact ⟨"bd-b", by decide⟩
    rw [recomputeIsBlockedCounting, hierarchyRing_pass step, ih next listed]
    rfl

/-- With one stale bit on the ring the full repair never returns. -/
theorem hierarchyRing_never_repaired :
    ¬∃ fuel result, hierarchyRing.recomputeAllIsBlocked fuel (onlyBlocked "bd-a") = some result := by
  intro ⟨fuel, result, returned⟩
  have circulates : hierarchyRing.recomputeAllIsBlocked fuel (onlyBlocked "bd-a") = none :=
    hierarchyRing_circulates fuel "bd-a" (by decide)
  rw [circulates] at returned
  exact Option.some_ne_none _ returned.symm

end Tables

end Beads
