import Beads.Blocked.Ancestry
import Beads.Blocked.Edgeless
import Beads.Propagation.Schedule

namespace Beads

open Propagation List

namespace Tables

variable {tables : Tables} {bits : Bits} {plane : Plane} {scope : Scope} {explained : ParentsByPlane} {id : Id}

def explainedSet (explained : ParentsByPlane) : Set ItemRef := {ref | ref.id ∈ explained ref.plane}

def scopeSet (tables : Tables) (plane : Plane) (scope : Scope) : Set ItemRef :=
  {ref | ref.plane = plane ∧ scope ref.id = true ∧ tables.stored ref = true}

theorem scopeSet_rows : tables.scopeSet plane scope ⊆ tables.network.rows :=
  fun _ member => member.2.2

theorem mem_leg {typed holds : Dependency → Bool} :
    id ∈ ((tables.dependencies plane).filter fun row => scope row.issueId && typed row && holds row).map Dependency.issueId ↔
      scope id = true ∧ ∃ row ∈ tables.dependencies plane, row.issueId = id ∧ typed row = true ∧ holds row = true := by
  simp only [mem_map, mem_filter, Bool.and_eq_true]
  constructor
  · rintro ⟨row, ⟨member, ⟨inScope, type⟩, holds⟩, rfl⟩
    exact ⟨inScope, row, member, rfl, type, holds⟩
  · rintro ⟨inScope, row, member, rfl, type, holds⟩
    exact ⟨row, ⟨member, ⟨inScope, type⟩, holds⟩, rfl⟩

theorem mem_openTargetLeg {targetPlane : Plane} : id ∈ tables.openTargetLeg plane targetPlane scope ↔
    scope id = true ∧ ∃ row ∈ tables.dependencies plane, row.issueId = id ∧ row.type.blocking = true ∧
      ∃ target, row.target = .item ⟨targetPlane, target⟩ ∧ tables.active ⟨targetPlane, target⟩ = true := by
  simp only [openTargetLeg, mem_leg, Option.any_eq_true, column_eq_some]

theorem mem_blockedParentLeg {parentPlane : Plane} :
    id ∈ tables.blockedParentLeg plane parentPlane scope explained bits ↔
      scope id = true ∧ ∃ parent, tables.network.parent ⟨plane, id⟩ ⟨parentPlane, parent⟩ ∧
        (⟨parentPlane, parent⟩ : ItemRef) ∈ marks bits ∧ ⟨parentPlane, parent⟩ ∉ explainedSet explained := by
  simp only [blockedParentLeg, mem_leg, Bool.and_eq_true, Option.any_eq_true, column_eq_some,
    beq_iff_eq, Bool.not_eq_true', ← Bool.not_eq_true, contains_iff_mem]
  refine and_congr_right fun _ => ⟨?_, ?_⟩
  · rintro ⟨row, member, same, type, parent, target, ⟨present, blocked⟩, free⟩
    exact ⟨parent, ⟨⟨row, member, same, type, target⟩, present⟩, blocked, free⟩
  · rintro ⟨parent, ⟨⟨row, member, same, type, target⟩, present⟩, blocked, free⟩
    exact ⟨row, member, same, type, parent, target, ⟨present, blocked⟩, free⟩

theorem mem_waitsForLeg : id ∈ tables.waitsForLeg plane scope ↔ scope id = true ∧
    ∃ row ∈ tables.dependencies plane, row.issueId = id ∧ row.type = .waitsFor ∧
      tables.waitsForGateBlocked row = true := by
  simp only [waitsForLeg, mem_leg, beq_iff_eq]

theorem hasReason_iff {ref : ItemRef} : tables.HasReason ref ↔
    (∃ targetPlane, ∃ row ∈ tables.dependencies ref.plane, row.issueId = ref.id ∧
      row.type.blocking = true ∧ ∃ target, row.target = .item ⟨targetPlane, target⟩ ∧
    tables.active ⟨targetPlane, target⟩ = true) ∨ ∃ row ∈ tables.dependencies ref.plane,
      row.issueId = ref.id ∧ row.type = .waitsFor ∧ tables.waitsForGateBlocked row = true := by
  simp only [HasReason, blockingReason, Bool.or_eq_true, Bool.and_eq_true, beq_iff_eq]
  constructor
  · rintro ⟨row, member, source, ⟨blocking, target⟩ | gate⟩
    · refine .inl ?_
      cases named : row.target with
      | external other => simp [openTarget, named] at target
      | item ref =>
        simp only [openTarget, named] at target
        exact ⟨ref.plane, row, member, source, blocking, ref.id, named, target⟩
    · exact .inr ⟨row, member, source, gate⟩
  · rintro (⟨targetPlane, row, member, source, blocking, target, named, active⟩ | ⟨row, member, source, gate⟩)
    · exact ⟨row, member, source, .inl ⟨blocking, by simp only [openTarget, named, active]⟩⟩
    · exact ⟨row, member, source, .inr gate⟩

theorem mem_shouldBeBlockedIds : id ∈ tables.shouldBeBlockedIds plane scope explained bits ↔
    scope id = true ∧ tables.network.Due (explainedSet explained) (marks bits) ⟨plane, id⟩ := by
  have reason : tables.network.reason ⟨plane, id⟩ ↔ _ := hasReason_iff
  simp only [shouldBeBlockedIds, mem_append, mem_openTargetLeg, mem_blockedParentLeg,
    mem_waitsForLeg, Network.Due, reason]
  constructor
  · rintro ((((⟨inScope, target⟩ | ⟨inScope, target⟩) | ⟨inScope, parent, edge⟩) | ⟨inScope, parent, edge⟩) |
      ⟨inScope, gate⟩)
    · exact ⟨inScope, .inl (.inl ⟨_, target⟩)⟩
    · exact ⟨inScope, .inl (.inl ⟨_, target⟩)⟩
    · exact ⟨inScope, .inr ⟨_, edge⟩⟩
    · exact ⟨inScope, .inr ⟨_, edge⟩⟩
    · exact ⟨inScope, .inl (.inr gate)⟩
  · rintro ⟨inScope, (⟨targetPlane, target⟩ | gate) | ⟨⟨parentPlane, parent⟩, edge⟩⟩
    · cases targetPlane with
      | issue => exact .inl (.inl (.inl (.inl ⟨inScope, target⟩)))
      | wisp => exact .inl (.inl (.inl (.inr ⟨inScope, target⟩)))
    · exact .inr ⟨inScope, gate⟩
    · cases parentPlane with
      | issue => exact .inl (.inl (.inr ⟨inScope, parent, edge⟩))
      | wisp => exact .inl (.inr ⟨inScope, parent, edge⟩)

theorem marks_inj {other : Bits} : marks bits = marks other ↔ bits = other := by
  refine ⟨fun same => funext fun ref => ?_, fun same => same ▸ rfl⟩
  exact Bool.eq_iff_iff.mpr (Set.ext_iff.mp same ref)

section Updates

variable {value : Bool} {guard : Row → Bool} {ref : ItemRef}

theorem setBlocked_unchanged (flips : ∀ row ∈ tables.items plane, guard row = true → bits ⟨plane, row.id⟩ = !value) :
    (tables.setBlocked plane value guard bits).2 = 0 ↔ (tables.setBlocked plane value guard bits).1 = bits := by
  have counted : (tables.setBlocked plane value guard bits).2 = ((tables.items plane).filter guard).length := rfl
  rw [counted, length_eq_zero_iff, filter_eq_nil_iff]
  constructor
  · intro none
    funext ref
    refine setBlocked_of_not_matches fun ⟨_, row, member, _, holds⟩ => none row member holds
  · intro same row member holds
    have written : (tables.setBlocked plane value guard bits).1 ⟨plane, row.id⟩ = value :=
      setBlocked_of_matches ⟨rfl, row, member, rfl, holds⟩
    rw [same, flips row member holds] at written
    cases value <;> exact absurd written (by decide)

theorem setBlocked_single (row : Row) (found : (tables.items plane).filter guard = [row]) :
    tables.setBlocked plane value guard bits = (Function.update bits ⟨plane, row.id⟩ value, 1) := by
  refine Prod.ext (funext fun ref => ?_) (congrArg List.length found)
  by_cases own : ref = ⟨plane, row.id⟩
  · subst own
    simp [setBlocked, found]
  · refine (setBlocked_of_not_matches ?_).trans (Function.update_of_ne own _ _).symm
    rintro ⟨inPlane, other, member, same, holds⟩
    have listed := mem_filter.mpr ⟨member, holds⟩
    rw [found, mem_singleton] at listed
    cases ref
    simp_all

end Updates

variable {ref : ItemRef} {reading : Set ItemRef}

/-- The bound ids and the set that is read agree on the parents of the items in scope. -/
def ReadsAs (tables : Tables) (plane : Plane) (scope : Scope) (explained : ParentsByPlane)
    (reading : Set ItemRef) : Prop :=
  ∀ ref ∈ tables.scopeSet plane scope, ∀ parent, tables.network.parent ref parent →
    (parent ∈ explainedSet explained ↔ parent ∈ reading)

theorem matches_iff {guard : Row → Bool} (holds : ItemRef → Prop)
    (guarded : ∀ row ∈ tables.items plane, guard row = true ↔ holds ⟨plane, row.id⟩) :
    tables.Matches plane guard ref ↔ ref.plane = plane ∧ tables.stored ref = true ∧ holds ref := by
  constructor
  · rintro ⟨rfl, row, member, same, accepted⟩
    have named : (⟨ref.plane, row.id⟩ : ItemRef) = ref := by rw [same]
    exact ⟨rfl, stored_iff.mpr ⟨row, member, same⟩, named ▸ (guarded row member).mp accepted⟩
  · rintro ⟨rfl, present, accepted⟩
    obtain ⟨row, member, same⟩ := stored_iff.mp present
    have named : (⟨ref.plane, row.id⟩ : ItemRef) = ref := by rw [same]
    exact ⟨rfl, row, member, same, (guarded row member).mpr (by rwa [named])⟩

theorem setBlocked_eq_true {value : Bool} {guard : Row → Bool} (holds : ItemRef → Prop)
    (guarded : ∀ row ∈ tables.items plane, guard row = true ↔ holds ⟨plane, row.id⟩) :
    (tables.setBlocked plane value guard bits).1 ref = true ↔
      (ref.plane = plane ∧ tables.stored ref = true ∧ holds ref) ∧ value = true ∨
        ¬(ref.plane = plane ∧ tables.stored ref = true ∧ holds ref) ∧ bits ref = true := by
  rw [← matches_iff holds guarded]
  by_cases written : tables.Matches plane guard ref
  · simp [setBlocked_of_matches written, written]
  · simp [setBlocked_of_not_matches written, written]

theorem markBlocked_unchanged : (tables.markBlocked plane scope explained bits).2 = 0 ↔
    (tables.markBlocked plane scope explained bits).1 = bits := by
  refine setBlocked_unchanged fun row _ accepted => ?_
  simp only [Bool.and_eq_true, Bool.not_eq_true'] at accepted
  exact accepted.1.1.2

theorem unmarkBlocked_unchanged : (tables.unmarkBlocked plane scope explained bits).2 = 0 ↔
    (tables.unmarkBlocked plane scope explained bits).1 = bits := by
  refine setBlocked_unchanged fun row _ accepted => ?_
  simp only [Bool.and_eq_true] at accepted
  exact accepted.1.2

section

variable (reads : tables.ReadsAs plane scope explained reading)
include reads

theorem ReadsAs.due {row : Row}
    (member : row ∈ tables.items plane) : row.id ∈ tables.shouldBeBlockedIds plane scope explained bits ↔
      scope row.id = true ∧ tables.network.Due reading (marks bits) ⟨plane, row.id⟩ := by
  rw [mem_shouldBeBlockedIds]
  refine and_congr_right fun inScope => or_congr_right (exists_congr fun parent => and_congr_right fun edge => ?_)
  have inside : (⟨plane, row.id⟩ : ItemRef) ∈ tables.scopeSet plane scope :=
    ⟨rfl, inScope, stored_iff.mpr ⟨row, member, rfl⟩⟩
  rw [reads _ inside parent edge]

theorem marks_markBlocked : marks (tables.markBlocked plane scope explained bits).1 =
      tables.network.mark reading (tables.scopeSet plane scope) (marks bits) := by
  ext ref
  refine (setBlocked_eq_true (fun ref => bits ref = false ∧ scope ref.id = true ∧ tables.active ref = true ∧
      tables.network.Due reading (marks bits) ref) fun row member => ?_).trans ?_
  · simp only [Bool.and_eq_true, Bool.not_eq_true', contains_iff_mem, reads.due member, active_row member]
    tauto
  · change _ ↔ bits ref = true ∨ (_ ∧ _ ∧ _) ∧ tables.active ref = true ∧ _
    cases bits ref <;> simp [and_assoc, and_left_comm]

theorem marks_unmarkBlocked : marks (tables.unmarkBlocked plane scope explained bits).1 =
      tables.network.unmark reading (tables.scopeSet plane scope) (marks bits) := by
  ext ref
  refine (setBlocked_eq_true (fun ref => bits ref = true ∧ scope ref.id = true ∧
      ¬(tables.active ref = true ∧ tables.network.Due reading (marks bits) ref)) fun row member => ?_).trans ?_
  · simp only [Bool.and_eq_true, Bool.or_eq_true, Bool.not_eq_true', ← Bool.not_eq_true, contains_iff_mem,
      reads.due member, active_row member]
    tauto
  · change _ ↔ bits ref = true ∧ (_ ∧ _ ∧ _ → tables.active ref = true ∧ _)
    cases bits ref <;> simp [imp.swap]

theorem marks_markUnmark : marks (tables.markUnmark plane scope explained bits).1 =
      tables.network.sweep reading (marks bits) (tables.scopeSet plane scope) := by
  change marks (tables.unmarkBlocked plane scope explained (tables.markBlocked plane scope explained bits).1).1 = _
  rw [marks_unmarkBlocked reads, marks_markBlocked reads]
  rfl

theorem markUnmark_unchanged : (tables.markUnmark plane scope explained bits).2 = 0 ↔
      (tables.markUnmark plane scope explained bits).1 = bits := by
  change (tables.markBlocked plane scope explained bits).2 + _ = 0 ↔ _
  rw [Nat.add_eq_zero_iff, markBlocked_unchanged, unmarkBlocked_unchanged]
  constructor
  · rintro ⟨marked, unmarked⟩
    exact unmarked.trans marked
  · intro same
    have swept : tables.network.sweep reading (marks bits) (tables.scopeSet plane scope) = marks bits := by
      rw [← marks_markUnmark reads, same]
    have marked : (tables.markBlocked plane scope explained bits).1 = bits := by
      rw [← marks_inj, marks_markBlocked reads]
      exact Network.mark_eq_of_sweep_eq swept
    exact ⟨marked, same.trans marked.symm⟩

end

end Tables

end Beads
