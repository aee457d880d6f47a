import Beads.Blocked.Scoped
import Beads.Propagation.Locality
import Beads.Propagation.Termination

namespace Beads

open Propagation Batches Settling Network

namespace Tables

variable {tables : Tables} {bits : Bits} {plane : Plane} {mode : SplitMode} {issueIds wispIds : List Id}

/-- The closed form of the column: open, with a blocking reason of its own or a parent that is
darkened from outside its subtree. -/
def ShouldBeBlocked (tables : Tables) (ref : ItemRef) : Prop := ref ∈ tables.network.settled

theorem countIsBlockedInconsistencies_eq_zero :
    tables.countIsBlockedInconsistencies bits = 0 ↔ tables.Consistent bits := by
  have perPlane : ∀ plane, ((tables.items plane).filter fun row =>
      !bits ⟨plane, row.id⟩ && row.status.active &&
          (tables.shouldBeBlockedIds plane wholeTable (tables.subtreeExplainedParents bits) bits).contains row.id ||
        bits ⟨plane, row.id⟩ && (!row.status.active ||
          !(tables.shouldBeBlockedIds plane wholeTable (tables.subtreeExplainedParents bits) bits).contains row.id)).length = 0 ↔
      ∀ row ∈ tables.items plane, bits ⟨plane, row.id⟩ = true ↔ tables.active ⟨plane, row.id⟩ = true ∧
        tables.network.Due (tables.network.explained (marks bits)) (marks bits) ⟨plane, row.id⟩ := by
    intro plane
    rw [List.length_eq_zero_iff, List.filter_eq_nil_iff]
    refine forall₂_congr fun row member => ?_
    have due : row.id ∈ tables.shouldBeBlockedIds plane wholeTable (tables.subtreeExplainedParents bits) bits ↔
        tables.network.Due (tables.network.explained (marks bits)) (marks bits) ⟨plane, row.id⟩ :=
      (readsAs_subtree.due member).trans (and_iff_right rfl)
    rw [← due, active_row member, ← List.contains_iff_mem]
    cases bits ⟨plane, row.id⟩ <;> cases row.status.active <;>
      cases (tables.shouldBeBlockedIds plane wholeTable (tables.subtreeExplainedParents bits) bits).contains row.id <;> simp
  rw [consistent_iff, network_consistent_iff]
  simp only [countIsBlockedInconsistencies, planes, List.map_cons, List.map_nil, List.sum_cons,
    List.sum_nil, Nat.add_zero, Nat.add_eq_zero_iff, perPlane]
  exact ⟨fun both plane => by cases plane; exacts [both.1, both.2], fun all => ⟨all .issue, all .wisp⟩⟩

variable {fuel : Nat} {result : RecomputeResult} {ref : ItemRef}

theorem corrected_eq_zero {after : Bits} {corrected : Nat}
    (returned : tables.recomputeAllIsBlocked fuel bits = some (after, corrected)) :
    corrected = 0 ↔ (tables.recomputeAllPass bits).2 = 0 := by
  unfold recomputeAllIsBlocked at returned
  split at returned
  · rename_i empty
    cases returned
    simp only [Bool.and_eq_true] at empty
    simp [recomputeAllPass, empty]
  · cases fuel with
    | zero => cases returned
    | succ fuel =>
      rw [recomputeIsBlockedCounting] at returned
      split at returned
      · rename_i quiet
        cases returned
        exact iff_of_true rfl quiet
      · rename_i changed
        obtain ⟨rest, _, same⟩ := Option.map_eq_some_iff.mp returned
        cases same
        exact iff_of_false (fun none => changed (Nat.eq_zero_of_add_eq_zero_right none)) changed

section

variable (returned : tables.recomputeIsBlocked mode issueIds wispIds fuel bits = some result)
include returned

theorem recomputeIsBlocked_frame
    (outside : ref ∉ tables.listedSet issueIds wispIds) : result.bits ref = bits ref := by
  have kept : ∀ state, (ref ∈ state ↔ ref ∈ marks bits) →
      (ref ∈ tables.network.pass (tables.rounds issueIds wispIds) state ↔ ref ∈ marks bits) := by
    intro state same
    refine (pass_of_unswept fun scopes listed scope member inside => outside ?_).trans same
    exact swept_iff.mp ⟨scopes, listed, scope, member, inside⟩
  exact Bool.eq_iff_iff.mpr (recomputeIsBlocked_ends _ kept Iff.rfl returned).2

end

theorem views_mark : Views (passOver tables.markBatch issueIds wispIds) marks
    (tables.network.markPass (tables.scopes issueIds wispIds)) (tables.network.MarkQuiet (tables.scopes issueIds wispIds)) :=
  have performs : tables.Performs (fun state scope => tables.network.mark (tables.network.explained state) scope state)
      tables.markBatch :=
    ⟨fun _ _ _ => marks_markBlocked readsAs_scoped, fun _ _ _ => markBlocked_unchanged⟩
  performs.views

theorem markIsBlocked_column : tables.markIsBlocked issueIds wispIds fuel bits =
    if issueIds.isEmpty && wispIds.isEmpty then some bits
    else untilQuiet (passOver tables.markBatch issueIds wispIds) fuel bits := by
  have pass : ∀ plane ids bits, tables.markIsBlockedPass plane ids bits =
      runStatements (tables.markBatch plane) bits (batches queryBatchSize ids) := by
    intro plane ids bits
    cases ids <;> rfl
  have loop : tables.markIsBlockedLoop issueIds wispIds fuel bits =
      untilQuiet (passOver tables.markBatch issueIds wispIds) fuel bits := by
    induction fuel generalizing bits with
    | zero => rfl
    | succ fuel ih =>
      rw [markIsBlockedLoop, untilQuiet, ih, pass, pass]
      rfl
  rw [markIsBlocked, loop]

section

variable (acyclic : tables.ParentChildAcyclic)
include acyclic

theorem consistent_iff_settled : tables.countIsBlockedInconsistencies bits = 0 ↔
    ∀ ref, tables.stored ref = true → (bits ref = true ↔ tables.ShouldBeBlocked ref) := by
  rw [countIsBlockedInconsistencies_eq_zero, consistent_iff]
  constructor
  · intro consistent
    exact consistent.agree_settled (network_acyclic acyclic) network_rows_finite
  · intro agree
    exact settled_consistent.of_agree agree

/-- The count is zero exactly if the full repair corrects no row, and exactly if it leaves the
column as it was. -/
theorem recomputeAllIsBlocked_idle_iff (bits : Bits)
    (enough : (tables.items .issue).length + (tables.items .wisp).length < fuel) :
    ∃ after corrected, tables.recomputeAllIsBlocked fuel bits = some (after, corrected) ∧
      (tables.countIsBlockedInconsistencies bits = 0 ↔ corrected = 0) ∧
      (tables.countIsBlockedInconsistencies bits = 0 ↔ ∀ ref, tables.stored ref = true → after ref = bits ref) := by
  obtain ⟨after, corrected, returned, agree, _⟩ := recomputeAllIsBlocked_settles acyclic enough
  refine ⟨after, corrected, returned, ?_, ?_⟩
  · rw [corrected_eq_zero returned, recomputeAllPass_unchanged, consistent_iff_settled acyclic]
    refine ⟨quiet_of_settled repairRounds_rows, fun quiet => ?_⟩
    exact settled_of_quiet (network_acyclic acyclic) network_rows_finite quiet fun _ present => .inl (repairRounds_sweep present)
  · rw [consistent_iff_settled acyclic]
    refine forall₂_congr fun ref present => ?_
    have settled : after ref = true ↔ tables.ShouldBeBlocked ref := agree ref present
    rw [← settled, ← Bool.eq_iff_iff, eq_comm]

section

variable (returned : tables.recomputeIsBlocked mode issueIds wispIds fuel bits = some result)
include returned

theorem recomputeIsBlocked_agrees_at (present : tables.stored ref = true)
    (covers : ∀ above, Relation.ReflTransGen tables.network.parent ref above → above.id ∉ idsOf issueIds wispIds above.plane →
      (bits above = true ↔ tables.ShouldBeBlocked above)) :
    result.bits ref = true ↔ tables.ShouldBeBlocked ref := by
  let region : Set ItemRef := {above | Relation.ReflTransGen tables.network.parent ref above}
  have closed : tables.network.UpwardClosed region := fun _ _ member edge => Relation.ReflTransGen.tail member edge
  change ref ∈ marks result.bits ↔ _
  refine agree_settled_on (network_acyclic acyclic) network_rows_finite closed (fun above member row => ?_) ref ⟨.refl, present⟩
  by_cases listed : above.id ∈ idsOf issueIds wispIds above.plane
  · exact .inl (quiet_equation (quiet_of_recomputeIsBlocked returned) (swept_iff.mpr ⟨listed, row⟩))
  · refine .inr ?_
    change result.bits above = true ↔ _
    rw [recomputeIsBlocked_frame returned fun both => listed both.1]
    exact covers above member listed

theorem recomputeIsBlocked_agrees
    (covers : ∀ ref, tables.stored ref = true → ref.id ∉ idsOf issueIds wispIds ref.plane →
      (bits ref = true ↔ tables.ShouldBeBlocked ref)) :
    ∀ ref, tables.stored ref = true → (result.bits ref = true ↔ tables.ShouldBeBlocked ref) := by
  intro ref present
  refine recomputeIsBlocked_agrees_at acyclic returned present fun above chain unlisted => covers above ?_ unlisted
  cases chain with
  | refl => exact present
  | tail _ edge => exact edge.2

theorem recomputeIsBlocked_consistent_iff : tables.countIsBlockedInconsistencies result.bits = 0 ↔
    ∀ ref, tables.stored ref = true → ref.id ∉ idsOf issueIds wispIds ref.plane →
      (bits ref = true ↔ tables.ShouldBeBlocked ref) := by
  rw [consistent_iff_settled acyclic]
  refine ⟨fun settled ref present unlisted => ?_, recomputeIsBlocked_agrees acyclic returned⟩
  rw [← recomputeIsBlocked_frame returned fun member => unlisted member.1]
  exact settled ref present

end

theorem recomputeIsBlocked_stops_acyclic (mode : SplitMode) (bits : Bits)
    (issueNodup : issueIds.Nodup) (wispNodup : wispIds.Nodup) :
    ∃ passes, ∀ fuel, passes < fuel → ∃ result, tables.recomputeIsBlocked mode issueIds wispIds fuel bits = some result := by
  have still : ¬∃ length item, tables.network.RestlessCycle length item := by
    intro ⟨length, item, cycle⟩
    exact cycle.not_acyclic (network_acyclic acyclic)
  obtain ⟨passes, quiet⟩ : ∃ passes, tables.network.Quiet (tables.rounds issueIds wispIds) _ :=
    exists_quiet network_rows_finite (rounds_disjoint issueNodup wispNodup) rounds_rows still (marks bits)
  exact ⟨passes, fun fuel early => recomputeIsBlocked_stops early quiet⟩

theorem markIsBlocked_agrees {result : Bits}
    (below : ∀ ref, tables.stored ref = true → bits ref = true → tables.ShouldBeBlocked ref)
    (covers : ∀ ref, tables.stored ref = true → ref.id ∉ idsOf issueIds wispIds ref.plane →
      (bits ref = true ↔ tables.ShouldBeBlocked ref))
    (returned : tables.markIsBlocked issueIds wispIds fuel bits = some result) :
    ∀ ref, tables.stored ref = true → (result ref = true ↔ tables.ShouldBeBlocked ref) := by
  obtain ⟨fuel, loop⟩ := passOver_returned (markIsBlocked_column.symm.trans returned)
  let holds : Set ItemRef → Prop := fun state => tables.network.Below state ∧
    ∀ ref ∈ tables.network.rows, ref.id ∉ idsOf issueIds wispIds ref.plane → (ref ∈ state ↔ ref ∈ tables.network.settled)
  have kept : ∀ state, holds state → holds (tables.network.markPass (tables.scopes issueIds wispIds) state) := by
    intro state ⟨below, covers⟩
    refine ⟨below.markPass, fun ref present unlisted => ?_⟩
    rw [markPass_of_unswept fun scope member inside => unlisted (mem_scopes.mp ⟨scope, member, inside⟩).1]
    exact covers ref present unlisted
  obtain ⟨quiet, below, covers⟩ := views_mark.ends holds kept ⟨below, covers⟩ loop
  refine settled_of_markQuiet (network_acyclic acyclic) network_rows_finite below quiet fun ref present => ?_
  by_cases listed : ref.id ∈ idsOf issueIds wispIds ref.plane
  · exact .inl (mem_scopes.mpr ⟨listed, present⟩)
  · exact .inr (covers ref present listed)

end

theorem closeGate_idle : ∃ after corrected, closeGate.recomputeAllIsBlocked 4 (fun _ => true) =
    some (after, corrected) ∧ corrected ≠ 0 := by
  obtain ⟨after, corrected, returned, counted, _⟩ := recomputeAllIsBlocked_idle_iff closeGate_acyclic (fun _ => true)
    (show _ < 4 by decide)
  exact ⟨after, corrected, returned, fun none => absurd (counted.mpr none) (by decide)⟩

theorem markIsBlocked_returns (enough : (tables.items .issue).length + (tables.items .wisp).length < fuel) :
    ∃ result, tables.markIsBlocked issueIds wispIds fuel bits = some result := by
  rw [markIsBlocked_column]
  split
  · exact ⟨bits, rfl⟩
  · refine views_mark.stops_of_measure (fun state => (tables.network.rows \ state).ncard) (fun state busy => ?_)
      (Nat.lt_of_le_of_lt ?_ enough)
    · obtain ⟨ref, row, clear, fresh⟩ := exists_fresh busy
      refine Set.ncard_lt_ncard ⟨Set.sdiff_subset_sdiff_right subset_markPass, fun same => ?_⟩
        (network_rows_finite.subset Set.sdiff_subset)
      exact (same ⟨row, clear⟩).2 fresh
    · exact (Set.ncard_le_ncard Set.sdiff_subset network_rows_finite).trans network_rows_ncard

end Tables

end Beads
