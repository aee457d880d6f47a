import Beads.Blocked.Statements
import Beads.Propagation.Convergence

namespace Beads

open Propagation Settling Network List

namespace Tables

variable {tables : Tables} {bits : Bits}

/-- Every row carries the bit its own equation asks for: closed and pinned items are not blocked,
and any other item is blocked exactly when it has an open blocks or conditional-blocks target, a
blocking waits-for gate, or a blocked parent outside the pruned subtree-explained set. -/
def Consistent (tables : Tables) (bits : Bits) : Prop :=
  ∀ plane, ∀ row ∈ tables.items plane, bits ⟨plane, row.id⟩ = true ↔ row.status.active = true ∧
    ((∃ edge ∈ tables.dependencies plane, edge.issueId = row.id ∧ edge.type.blocking = true ∧
        ∃ target, edge.target = .item target ∧ tables.active target = true) ∨
      (∃ edge ∈ tables.dependencies plane, edge.issueId = row.id ∧ edge.type = .waitsFor ∧
        tables.waitsForGateBlocked edge = true) ∨
      ∃ parent, tables.ParentChild ⟨plane, row.id⟩ parent ∧ tables.stored parent = true ∧
        bits parent = true ∧ parent.id ∉ tables.subtreeExplainedParents bits parent.plane)

theorem readsAs_subtree {plane : Plane} {scope : Scope} :
    tables.ReadsAs plane scope (tables.subtreeExplainedParents bits) (tables.network.explained (marks bits)) := by
  intro ref _ parent edge
  exact mem_subtreeExplainedParents.trans (and_iff_right ⟨ref, edge⟩)

theorem readsAs_scoped {plane : Plane} {scope : Scope} :
    tables.ReadsAs plane scope (tables.scopedExplainedParents bits plane scope)
      (tables.network.explained (marks bits)) := by
  rintro ref ⟨inPlane, inScope, _⟩ parent edge
  exact mem_scopedExplainedParents.trans (and_iff_right ⟨ref, inPlane, inScope, edge⟩)

theorem network_consistent_iff : tables.network.Consistent (marks bits) ↔ ∀ plane,
    ∀ row ∈ tables.items plane, bits ⟨plane, row.id⟩ = true ↔ tables.active ⟨plane, row.id⟩ = true ∧
      tables.network.Due (tables.network.explained (marks bits)) (marks bits) ⟨plane, row.id⟩ := by
  constructor
  · intro consistent plane row member
    exact consistent ⟨plane, row.id⟩ (stored_iff.mpr ⟨row, member, rfl⟩)
  · rintro consistent ⟨plane, id⟩ present
    obtain ⟨row, member, same⟩ := stored_iff.mp present
    subst same
    exact consistent plane row member

/-- The blocked-parent leg: a blocked parent outside the pruned subtree-explained set. -/
def PassedDown (tables : Tables) (bits : Bits) (ref : ItemRef) : Prop :=
  ∃ parent, tables.ParentChild ref parent ∧ tables.stored parent = true ∧ bits parent = true ∧
    parent.id ∉ tables.subtreeExplainedParents bits parent.plane

theorem passedDown_iff {ref : ItemRef} : tables.PassedDown bits ref ↔ ∃ above,
    tables.network.parent ref above ∧ above ∈ marks bits ∧
    above ∉ tables.network.explained (marks bits) := by
  refine exists_congr fun parent => ?_
  constructor
  · intro ⟨edge, present, blocked, passes⟩
    exact ⟨⟨edge, present⟩, blocked, fun named => passes (mem_subtreeExplainedParents.mpr ⟨⟨ref, edge, present⟩, named⟩)⟩
  · intro ⟨edge, blocked, passes⟩
    exact ⟨edge.1, edge.2, blocked, fun named => passes (mem_subtreeExplainedParents.mp named).2⟩

theorem consistent_iff : tables.Consistent bits ↔ tables.network.Consistent (marks bits) := by
  rw [network_consistent_iff, Consistent]
  refine forall_congr' fun plane => forall₂_congr fun row member => iff_congr Iff.rfl ?_
  have reason : tables.network.reason ⟨plane, row.id⟩ ↔ _ := hasReason_iff
  rw [active_row member, Network.Due, reason, or_assoc]
  refine and_congr_right fun _ => or_congr ?_ (or_congr_right passedDown_iff)
  constructor
  · rintro ⟨edge, listed, source, blocking, target, named, active⟩
    exact ⟨target.plane, edge, listed, source, blocking, target.id, named, active⟩
  · rintro ⟨_, edge, listed, source, blocking, target, named, active⟩
    exact ⟨edge, listed, source, blocking, _, named, active⟩

variable (tables) in
def repairRounds : List (List (Set ItemRef)) :=
  [[tables.scopeSet .issue wholeTable, tables.scopeSet .wisp wholeTable]]

theorem repairRounds_rows : ∀ scopes ∈ tables.repairRounds, ∀ scope ∈ scopes, scope ⊆ tables.network.rows := by
  intro scopes listed scope member
  obtain rfl := mem_singleton.mp listed
  rcases mem_pair.mp member with rfl | rfl <;> exact scopeSet_rows

theorem repairRounds_sweep {ref : ItemRef} (present : tables.stored ref = true) :
    Network.Swept tables.repairRounds ref := by
  refine ⟨_, mem_singleton_self _, tables.scopeSet ref.plane wholeTable, ?_, rfl, rfl, present⟩
  cases ref.plane <;> simp

theorem tablePass_spec (start : Bits) (plane : Plane) (bits : Bits) :
    let part := if (tables.items plane).isEmpty then (bits, 0)
      else tables.markUnmark plane wholeTable (tables.subtreeExplainedParents start) bits
    marks part.1 = tables.network.sweep (tables.network.explained (marks start)) (marks bits)
      (tables.scopeSet plane wholeTable) ∧ (part.2 = 0 ↔ part.1 = bits) := by
  by_cases empty : (tables.items plane).isEmpty
  · have none : tables.scopeSet plane wholeTable = ∅ := by
      refine Set.eq_empty_of_forall_notMem ?_
      rintro ref ⟨rfl, _, present⟩
      obtain ⟨row, member, _⟩ := stored_iff.mp present
      rw [isEmpty_iff.mp empty] at member
      exact not_mem_nil member
    simp only [empty, if_true, none, and_true]
    ext ref
    exact (mem_sweep_of_notMem (Set.notMem_empty ref)).symm
  · simp only [empty, Bool.false_eq_true, if_false]
    exact ⟨marks_markUnmark readsAs_subtree, markUnmark_unchanged readsAs_subtree⟩

theorem marks_recomputeAllPass : marks (tables.recomputeAllPass bits).1 =
    tables.network.pass tables.repairRounds (marks bits) := by
  let issues := if (tables.items .issue).isEmpty then (bits, 0)
    else tables.markUnmark .issue wholeTable (tables.subtreeExplainedParents bits) bits
  have issuesSpec : marks issues.1 = _ := (tablePass_spec bits .issue bits).1
  have wispsSpec : marks (tables.recomputeAllPass bits).1 = _ := (tablePass_spec bits .wisp issues.1).1
  rw [issuesSpec] at wispsSpec
  exact wispsSpec

theorem recomputeAllPass_unchanged : (tables.recomputeAllPass bits).2 = 0 ↔
    tables.network.Quiet tables.repairRounds (marks bits) := by
  let issues := if (tables.items .issue).isEmpty then (bits, 0)
    else tables.markUnmark .issue wholeTable (tables.subtreeExplainedParents bits) bits
  let wisps := if (tables.items .wisp).isEmpty then (issues.1, 0)
    else tables.markUnmark .wisp wholeTable (tables.subtreeExplainedParents bits) issues.1
  have issuesSpec : marks issues.1 = _ ∧ (issues.2 = 0 ↔ issues.1 = bits) := tablePass_spec bits .issue bits
  have wispsSpec : marks wisps.1 = _ ∧ (wisps.2 = 0 ↔ wisps.1 = issues.1) := tablePass_spec bits .wisp issues.1
  change issues.2 + wisps.2 = 0 ↔ _
  rw [Nat.add_eq_zero_iff, issuesSpec.2, wispsSpec.2]
  simp only [Network.Quiet, repairRounds, forall_eq, mem_cons, not_mem_nil, or_false,
    forall_eq_or_imp]
  constructor
  · rintro ⟨issuesSame, wispsSame⟩
    refine ⟨by rw [← issuesSpec.1, issuesSame], ?_⟩
    have swept := wispsSpec.1
    rw [wispsSame, issuesSame] at swept
    exact swept.symm
  · rintro ⟨issuesQuiet, wispsQuiet⟩
    have issuesSame : issues.1 = bits := marks_inj.mp (issuesSpec.1.trans issuesQuiet)
    refine ⟨issuesSame, marks_inj.mp ?_⟩
    rw [wispsSpec.1, issuesSame, wispsQuiet]

theorem views_recomputeAllPass :
    Views tables.recomputeAllPass marks (tables.network.pass tables.repairRounds) (tables.network.Quiet tables.repairRounds) :=
  ⟨fun _ => marks_recomputeAllPass, fun _ => recomputeAllPass_unchanged, fun _ => pass_of_quiet⟩

theorem recomputeIsBlockedCounting_column (fuel : Nat) :
    (tables.recomputeIsBlockedCounting fuel bits).map Prod.fst = untilQuiet tables.recomputeAllPass fuel bits := by
  induction fuel generalizing bits with
  | zero => rfl
  | succ fuel ih =>
    rw [recomputeIsBlockedCounting, untilQuiet, ← ih, apply_ite (Option.map Prod.fst), Option.map_map]
    rfl

theorem recomputeIsBlockedCounting_stops {fuel passes : Nat} (early : passes < fuel)
    (quiet : tables.network.Quiet tables.repairRounds ((tables.network.pass tables.repairRounds)^[passes] (marks bits))) :
    ∃ after corrected, tables.recomputeIsBlockedCounting fuel bits = some (after, corrected) ∧
      (tables.recomputeAllPass after).2 = 0 := by
  obtain ⟨_, returned⟩ := views_recomputeAllPass.stops early quiet
  have settled := (views_recomputeAllPass.ends (fun _ => True) (fun _ _ => trivial) trivial returned).1
  rw [← recomputeIsBlockedCounting_column] at returned
  obtain ⟨⟨after, corrected⟩, counted, rfl⟩ := Option.map_eq_some_iff.mp returned
  exact ⟨after, corrected, counted, recomputeAllPass_unchanged.mpr settled⟩

theorem network_rows_ncard : tables.network.rows.ncard ≤ (tables.items .issue).length + (tables.items .wisp).length := by
  have within : tables.network.rows ⊆ {ref | ref ∈ tables.refs} := fun _ => mem_refs.mpr
  have counted : ({ref | ref ∈ tables.refs} : Set ItemRef).ncard ≤ tables.refs.length := by
    rw [← coe_toFinset, Set.ncard_coe_finset]
    exact tables.refs.toFinset_card_le
  have length : tables.refs.length = (tables.items .issue).length + (tables.items .wisp).length := by
    simp [refs, planes]
  exact length ▸ (Set.ncard_le_ncard within (finite_toSet _)).trans counted

theorem recomputeAllIsBlocked_settles (acyclic : tables.ParentChildAcyclic) {fuel : Nat}
    (enough : (tables.items .issue).length + (tables.items .wisp).length < fuel) :
    ∃ after corrected, tables.recomputeAllIsBlocked fuel bits = some (after, corrected) ∧
      Network.AgreeOn tables.network.rows (marks after) tables.network.settled ∧
      (tables.recomputeAllPass after).2 = 0 := by
  have netAcyclic := network_acyclic acyclic
  have covers : ∀ column : Bits, ∀ ref ∈ tables.network.rows, Network.Swept tables.repairRounds ref ∨
      (ref ∈ marks column ↔ ref ∈ tables.network.settled) := fun _ _ present => .inl (repairRounds_sweep present)
  by_cases empty : ((tables.items .issue).isEmpty && (tables.items .wisp).isEmpty) = true
  · have absent : ∀ ref, ref ∉ tables.network.rows := by
      rintro ⟨plane, id⟩ present
      obtain ⟨row, member, _⟩ := stored_iff.mp present
      simp only [Bool.and_eq_true, List.isEmpty_iff] at empty
      cases plane with
      | issue => exact List.not_mem_nil (empty.1 ▸ member)
      | wisp => exact List.not_mem_nil (empty.2 ▸ member)
    refine ⟨bits, 0, if_pos empty, fun ref present => absurd present (absent ref), ?_⟩
    refine recomputeAllPass_unchanged.mpr (quiet_of_settled repairRounds_rows ?_)
    exact fun ref present => absurd present (absent ref)
  · have bound : (tables.network.rows \ tables.network.anchored (marks bits)).ncard ≤
        (tables.items .issue).length + (tables.items .wisp).length :=
      (Set.ncard_le_ncard Set.sdiff_subset network_rows_finite).trans network_rows_ncard
    have settled := iterate_pass_settled netAcyclic network_rows_finite repairRounds_rows (covers bits) bound
    obtain ⟨after, corrected, returned, unchanged⟩ :=
      recomputeIsBlockedCounting_stops enough (quiet_of_settled repairRounds_rows settled)
    refine ⟨after, corrected, (if_neg empty).trans returned, ?_, unchanged⟩
    exact settled_of_quiet netAcyclic network_rows_finite (recomputeAllPass_unchanged.mp unchanged) (covers after)

open Classical in
noncomputable def settledBits (tables : Tables) : Bits :=
  fun ref => decide (ref ∈ tables.network.settled)

theorem marks_settledBits : marks tables.settledBits = tables.network.settled := by
  ext ref
  simp [marks, settledBits]

theorem settledBits_consistent : tables.Consistent tables.settledBits := by
  rw [consistent_iff, marks_settledBits]
  exact settled_consistent

/-- Over an acyclic hierarchy there is one consistent column, and the full repair ends at it, with a
pass that changes nothing, from every column it may start from. -/
theorem recomputeAllIsBlocked_converges (acyclic : tables.ParentChildAcyclic) :
    ∃ final : Bits, tables.Consistent final ∧
      (∀ other, tables.Consistent other → ∀ ref, tables.stored ref = true → other ref = final ref) ∧
      ∀ start : Bits, ∀ fuel, (tables.items .issue).length + (tables.items .wisp).length < fuel →
        ∃ after corrected, tables.recomputeAllIsBlocked fuel start = some (after, corrected) ∧
          (tables.recomputeAllPass after).2 = 0 ∧ tables.Consistent after ∧
          ∀ ref, tables.stored ref = true → after ref = final ref := by
  have agreeing : ∀ column : Bits, Network.AgreeOn tables.network.rows (marks column) tables.network.settled →
      ∀ ref, tables.stored ref = true → column ref = tables.settledBits ref := by
    intro column agree ref present
    have same := agree ref present
    rw [← marks_settledBits] at same
    exact Bool.eq_iff_iff.mpr same
  refine ⟨tables.settledBits, settledBits_consistent, ?_, ?_⟩
  · intro other consistent
    exact agreeing other ((consistent_iff.mp consistent).agree_settled (network_acyclic acyclic) network_rows_finite)
  · intro start fuel enough
    obtain ⟨after, corrected, returned, agree, unchanged⟩ := recomputeAllIsBlocked_settles acyclic enough
    refine ⟨after, corrected, returned, unchanged, ?_, agreeing after agree⟩
    exact consistent_iff.mpr (Network.settled_consistent.of_agree agree)

theorem closeGate_acyclic : closeGate.ParentChildAcyclic :=
  acyclic_of_ranked (fun ref => if ref.id = "bd-epic" then 0 else 1) (by decide)

theorem closeGate_converges : closeGate.ParentChildAcyclic ∧
    ∃ final : Bits, closeGate.Consistent final ∧
      (∀ other, closeGate.Consistent other → ∀ ref, closeGate.stored ref = true →
      other ref = final ref) ∧ ∀ start : Bits, ∀ fuel, 3 < fuel →
        ∃ after corrected, closeGate.recomputeAllIsBlocked fuel start = some (after, corrected) ∧
          (closeGate.recomputeAllPass after).2 = 0 ∧ closeGate.Consistent after ∧
          ∀ ref, closeGate.stored ref = true → after ref = final ref :=
  ⟨closeGate_acyclic, recomputeAllIsBlocked_converges closeGate_acyclic⟩

end Tables

end Beads
