import Beads.Dependencies.Rewiring

namespace Beads

namespace Tables

variable {tables : Tables} {plane : Plane} {row : Dependency} {bits result : Bits} {source ref : ItemRef} {session : Session}

theorem depSeeds_of_ne {target : Id} (type : row.type ≠ .parentChild) : tables.depSeeds source target row.type = {source} := by
  ext other
  simp [depSeeds, type]

theorem markDirect_iff {target : Target} : tables.markDirectBlockingDependencySource source target bits ref = true ↔
    bits ref = true ∨ ref = source ∧ tables.active source = true ∧ ∃ blocker,
      target = .item blocker ∧ tables.active blocker = true := by
  cases target with
  | external id => simp [markDirectBlockingDependencySource]
  | item blocker =>
    have matched : tables.Matches source.plane (fun row => row.id == source.id &&
        !bits ⟨source.plane, row.id⟩ && row.status.active && tables.active blocker) ref ↔
        ref = source ∧ bits ref = false ∧ tables.active source = true ∧ tables.active blocker = true := by
      obtain ⟨refPlane, refId⟩ := ref
      obtain ⟨sourcePlane, sourceId⟩ := source
      rw [active_iff]
      simp only [Matches, Bool.and_eq_true, beq_iff_eq, Bool.not_eq_true']
      constructor
      · rintro ⟨inPlane, row, member, same, ⟨⟨named, clear⟩, open_⟩, blocks⟩
        subst inPlane same named
        exact ⟨rfl, clear, ⟨row, member, rfl, open_⟩, blocks⟩
      · rintro ⟨same, clear, ⟨row, member, named, open_⟩, blocks⟩
        cases same
        subst named
        exact ⟨rfl, row, member, rfl, ⟨⟨rfl, clear⟩, open_⟩, blocks⟩
    simp only [markDirectBlockingDependencySource, Target.item.injEq, exists_eq_left']
    by_cases fires : ref = source ∧ bits ref = false ∧ tables.active source = true ∧ tables.active blocker = true
    · rw [setBlocked_of_matches (matched.mpr fires)]
      simp [fires.1, fires.2.2.1, fires.2.2.2]
    · rw [setBlocked_of_not_matches (fun holds => fires (matched.mp holds))]
      cases set : bits ref with
      | true => simp
      | false => simpa [set] using fires

theorem openTarget_iff : tables.openTarget row = true ↔
    ∃ blocker, row.target = .item blocker ∧ tables.active blocker = true := by
  unfold openTarget
  cases row.target <;> simp

theorem mem_removeSourceFromAffected {ids : Plane → List Id} :
    ref.id ∈ removeSourceFromAffected source ids ref.plane ↔ ref.id ∈ ids ref.plane ∧ ref ≠ source := by
  obtain ⟨refPlane, refId⟩ := ref
  obtain ⟨sourcePlane, sourceId⟩ := source
  by_cases same : refPlane = sourcePlane
  · subst same
    simp [removeSourceFromAffected]
  · simp [removeSourceFromAffected, same]

section

variable (absent : row.key ∉ (tables.dependencies plane).map Dependency.key)
include absent

theorem hasReason_insert (type : row.type ≠ .parentChild) :
    (tables.insertDependency plane row).HasReason ⟨plane, row.issueId⟩ ↔
      tables.HasReason ⟨plane, row.issueId⟩ ∨ tables.blockingReason row = true := by
  have same : ∀ next, (tables.insertDependency plane row).blockingReason next = tables.blockingReason next :=
    fun next => ((sameHierarchy_insert type).blockingReason items_insertDependency.symm next).symm
  simp only [HasReason, dependencies_insertDependency absent, same, if_true, List.mem_cons,
    or_and_right, exists_or, exists_eq_left, true_and]
  exact or_comm

theorem maintainNewDependency_consistent
    (type : row.type ≠ .parentChild) (acyclic : tables.ParentChildAcyclic)
    (consistent : tables.countIsBlockedInconsistencies bits = 0)
    (returned : (tables.insertDependency plane row).maintainNewDependency session ⟨plane, row.issueId⟩ row bits = some result) :
    (tables.insertDependency plane row).countIsBlockedInconsistencies result = 0 := by
  let after := tables.insertDependency plane row
  let source : ItemRef := ⟨plane, row.issueId⟩
  have same : SameHierarchy tables after := sameHierarchy_insert type
  have edits : EditsRowsOf tables after source := editsRowsOf_insert
  have afterAcyclic : after.ParentChildAcyclic := same.acyclic acyclic
  have right := (consistent_iff_settled acyclic).mp consistent
  have grows : ∀ {ref}, tables.ShouldBeBlocked ref → after.ShouldBeBlocked ref := by
    refine edits.shouldBeBlocked_mono same fun next member own reason => ⟨next, ?_, own, rfl, ?_⟩
    · exact (mem_insertDependency absent).mpr (.inr member)
    · exact (same.blockingReason edits.items next) ▸ reason
  have below : ∀ ref, after.stored ref = true → bits ref = true → after.ShouldBeBlocked ref :=
    fun ref present set => grows ((right ref ((edits.stored ref).trans present)).mp set)
  have collects : (after.affectedByDepChangeOf source row.target.id row.type).Collects
      {ref | (∀ name, row.type ≠ .other name) ∧ after.AtOrBelow {source} ∅ ref} := by
    have seeds : after.depSeeds source row.target.id row.type = {source} := depSeeds_of_ne type
    rw [← seeds]
    exact affectedByDepChangeOf_collects
  have unlisted : ∀ {ref}, ref ∉ (after.affectedByDepChangeOf source row.target.id row.type).listed →
      (tables.ShouldBeBlocked ref ↔ after.ShouldBeBlocked ref) := by
    intro ref free
    rw [collects.listed] at free
    refine edits.shouldBeBlocked same (fun next other => ?_) free
    simp [after, source, mem_insertDependency absent, other]
  have notParent : (row.type == .parentChild) = false := beq_eq_false_iff_ne.mpr type
  rw [consistent_iff_settled afterAcyclic]
  simp only [maintainNewDependency, notParent, Bool.false_eq_true, if_false] at returned
  by_cases blocking : row.type.blocking = true
  · -- The new row is a reason of the source exactly when its target is open, which is what marked the source.
    have atSource : after.ShouldBeBlocked source ↔
        tables.ShouldBeBlocked source ∨ tables.active source = true ∧ tables.openTarget row = true := by
      have reason : tables.blockingReason row = tables.openTarget row := by
        cases shape : row.type <;> simp_all [blockingReason, DependencyType.blocking]
      rw [shouldBeBlocked_iff, shouldBeBlocked_iff, hasReason_insert absent type, ← edits.darkFromAbove same acyclic,
        ← edits.active source, reason, or_right_comm, ← and_or_left]
    rw [if_pos blocking] at returned
    have marked : ∀ ref, after.markDirectBlockingDependencySource source row.target bits ref = true ↔
        bits ref = true ∨ ref = source ∧ tables.active source = true ∧ tables.openTarget row = true := by
      intro ref
      rw [markDirect_iff, openTarget_iff]
      simp only [← edits.active]
    refine markIsBlocked_agrees afterAcyclic ?_ ?_ returned
    · intro ref present set
      cases (marked ref).mp set with
      | inl old => exact below ref present old
      | inr new => exact new.1 ▸ atSource.mpr (.inr new.2)
    · intro ref present free
      have before := right ref ((edits.stored ref).trans present)
      rw [marked, before]
      by_cases here : ref = source
      · rw [here, atSource, and_iff_right rfl]
      · rw [or_iff_left fun new => here new.1]
        refine unlisted fun listed => free ?_
        have rest := mem_removeSourceFromAffected.mpr ⟨listed, here⟩
        cases inPlane : ref.plane <;> rw [inPlane] at rest <;> exact rest
  · rw [if_neg blocking] at returned
    refine markIsBlocked_agrees afterAcyclic below (fun ref present free => ?_) returned
    rw [right ref ((edits.stored ref).trans present)]
    exact unlisted (fun listed => free ((mem_idsOf ref).mpr listed))

end

end Tables

end Beads
