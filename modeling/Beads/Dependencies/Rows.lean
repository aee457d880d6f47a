import Beads.Dependencies.Edit

namespace Beads

namespace Tables

variable {tables before after : Tables} {plane : Plane} {source ref : ItemRef}

open List

section Rows

variable {rows : List Dependency} {keyed : (rows.map Dependency.key).Nodup} {row : Dependency}
  {key : Id × Id} {metadata : Metadata} {threadId : Option String}

@[simp] theorem dependencies_withDependencies :
    (tables.withDependencies plane rows keyed).dependencies plane = rows := Function.update_self _ _ _

@[simp] theorem items_insertDependency : (tables.insertDependency plane row).items = tables.items := by
  unfold insertDependency
  split <;> rfl

theorem dependencies_insertDependency (absent : row.key ∉ (tables.dependencies plane).map Dependency.key) (other : Plane) :
    (tables.insertDependency plane row).dependencies other =
      if other = plane then row :: tables.dependencies plane else tables.dependencies other := by
  rw [insertDependency, dif_pos absent]
  by_cases same : other = plane
  · subst same
    simp
  · simp [withDependencies, same]

theorem mem_insertDependency {next : Dependency} {other : Plane}
    (absent : row.key ∉ (tables.dependencies plane).map Dependency.key) :
    next ∈ (tables.insertDependency plane row).dependencies other ↔ other = plane ∧ next = row ∨
      next ∈ tables.dependencies other := by
  rw [dependencies_insertDependency absent]
  split
  · rename_i same
    simp [same]
  · rename_i apart
    simp [apart]

theorem dependencies_refreshDependency (other : Plane) :
    (tables.refreshDependency plane key metadata threadId).dependencies other = (tables.dependencies other).map fun row =>
      if other = plane ∧ row.key = key then { row with metadata, threadId } else row := by
  by_cases same : other = plane
  · subst same
    simp [refreshDependency]
  · simp [refreshDependency, withDependencies, same]

theorem dependencies_deleteDependency (other : Plane) :
    (tables.deleteDependency plane key).dependencies other =
      (tables.dependencies other).filter fun row => !(other == plane && row.key == key) := by
  by_cases same : other = plane
  · subst same
    simp [deleteDependency, bne]
  · have filtered : ((tables.dependencies other).filter fun row => !(other == plane && row.key == key)) =
        tables.dependencies other := filter_eq_self.mpr fun row _ => by simp [same]
    rw [filtered]
    simp [deleteDependency, withDependencies, same]

theorem deleteDependency_subset (other : Plane) :
    (tables.deleteDependency plane key).dependencies other ⊆ tables.dependencies other := by
  rw [dependencies_deleteDependency]
  exact filter_subset_self _

theorem existingDependency_eq_some {issueId dependsOnId : Id}
    (found : tables.existingDependency plane issueId dependsOnId = some row) :
    row ∈ tables.dependencies plane ∧ row.key = (issueId, dependsOnId) :=
  ⟨mem_of_find?_eq_some found, by simpa using List.find?_some found⟩

theorem existingDependency_eq_none {issueId dependsOnId : Id}
    (none : tables.existingDependency plane issueId dependsOnId = none) :
    (issueId, dependsOnId) ∉ (tables.dependencies plane).map Dependency.key := by
  intro member
  obtain ⟨row, listed, same⟩ := mem_map.mp member
  exact List.find?_eq_none.mp none row listed (by simpa using same)

theorem sameHierarchy_insert (type : row.type ≠ .parentChild) : SameHierarchy tables (tables.insertDependency plane row) := by
  intro other
  by_cases absent : row.key ∉ (tables.dependencies plane).map Dependency.key
  · simp only [hierarchyRows, dependencies_insertDependency absent other]
    by_cases same : other = plane
    · subst same
      simp [type]
    · simp [same]
  · rw [insertDependency, dif_neg absent]

theorem sameHierarchy_refresh : SameHierarchy tables (tables.refreshDependency plane key metadata threadId) := by
  intro other
  simp only [hierarchyRows, dependencies_refreshDependency, filter_map, map_map]
  have types : (fun row : Dependency => row.type == .parentChild) ∘
      (fun row => if other = plane ∧ row.key = key then { row with metadata, threadId } else row) =
      fun row => row.type == .parentChild := by
    funext row
    simp only [Function.comp_apply]
    split <;> rfl
  rw [types]
  refine map_congr_left fun row _ => ?_
  simp only [Function.comp_apply]
  split <;> rfl

theorem sameHierarchy_delete (type : ∀ row ∈ tables.dependencies plane, row.key = key →
    row.type ≠ .parentChild) : SameHierarchy tables (tables.deleteDependency plane key) := by
  intro other
  simp only [hierarchyRows, dependencies_deleteDependency, filter_filter]
  refine congrArg (List.map _) (filter_congr fun row member => ?_)
  by_cases named : other = plane ∧ row.key = key
  · obtain ⟨rfl, same⟩ := named
    simp [type row member same]
  · have kept : (other == plane && row.key == key) = false := by simpa [Bool.eq_false_iff] using named
    simp [kept]

end Rows

/-- The tables differ in the rows of one item at most. -/
structure EditsRowsOf (before after : Tables) (source : ItemRef) : Prop where
  items : before.items = after.items
  rows : ∀ ref ≠ source, ∀ row, row.issueId = ref.id →
    (row ∈ before.dependencies ref.plane ↔ row ∈ after.dependencies ref.plane)

theorem EditsRowsOf.symm (edits : EditsRowsOf before after source) : EditsRowsOf after before source :=
  ⟨edits.items.symm, fun ref other row own => (edits.rows ref other row own).symm⟩

section Edits

variable {row : Dependency} {key : Id × Id} {metadata : Metadata} {threadId : Option String}

theorem editsRowsOf_insert : EditsRowsOf tables (tables.insertDependency plane row) ⟨plane, row.issueId⟩ := by
  refine ⟨items_insertDependency.symm, fun ref other next own => ?_⟩
  by_cases absent : row.key ∉ (tables.dependencies plane).map Dependency.key
  · rw [mem_insertDependency absent]
    exact (or_iff_right fun ⟨same, equal⟩ => other (by rw [← equal, own, ← same])).symm
  · rw [insertDependency, dif_neg absent]

theorem editsRowsOf_refresh : EditsRowsOf tables (tables.refreshDependency plane key metadata threadId) ⟨plane, key.1⟩ := by
  refine ⟨rfl, fun ref other next own => ?_⟩
  rw [dependencies_refreshDependency]
  have foreign : ∀ row : Dependency, row.issueId = ref.id → ¬(ref.plane = plane ∧ row.key = key) :=
    fun row source ⟨same, named⟩ => other (by rw [← same, ← named, Dependency.key, source])
  constructor
  · intro member
    exact mem_map.mpr ⟨next, member, if_neg (foreign next own)⟩
  · intro member
    obtain ⟨old, listed, image⟩ := mem_map.mp member
    have source : old.issueId = ref.id := by
      rw [← own, ← image]
      split <;> rfl
    rw [if_neg (foreign old source)] at image
    exact image ▸ listed

theorem editsRowsOf_delete : EditsRowsOf tables (tables.deleteDependency plane key) ⟨plane, key.1⟩ := by
  refine ⟨rfl, fun ref other next own => ?_⟩
  rw [dependencies_deleteDependency, mem_filter, and_iff_left]
  have foreign : ¬(ref.plane = plane ∧ next.key = key) :=
    fun ⟨same, named⟩ => other (by rw [← same, ← named, Dependency.key, own])
  simpa using not_and_or.mp foreign

end Edits

theorem AtOrBelow.of_parent {start : Set ItemRef} {above : ItemRef} (edge : tables.ParentChild ref above)
    (reached : tables.AtOrBelow start ∅ above) : tables.AtOrBelow start ∅ ref :=
  .child reached edge (Set.notMem_empty ref)

section

variable (edits : EditsRowsOf before after source)
include edits

theorem EditsRowsOf.active (ref : ItemRef) : before.active ref = after.active ref := by
  simp only [Tables.active, edits.items]

theorem EditsRowsOf.stored (ref : ItemRef) : before.stored ref = after.stored ref := by
  simp only [Tables.stored, edits.items]

section

variable (same : SameHierarchy before after)
include same

/-- An edit of one row, which is no reason of anything where its type is another. -/
theorem EditsRowsOf.shouldBeBlocked {row : Dependency}
    (others : ∀ next ≠ row, next ∈ before.dependencies source.plane ↔ next ∈ after.dependencies source.plane)
    (free : ¬((∀ name, row.type ≠ .other name) ∧ after.AtOrBelow {source} ∅ ref)) :
    before.ShouldBeBlocked ref ↔ after.ShouldBeBlocked ref := by
  have frame : Frame before after {ref | (∀ name, row.type ≠ .other name) ∧ after.AtOrBelow {source} ∅ ref} :=
    { active := fun ref _ => edits.active ref
      rows := by
        intro ref free next own known
        by_cases here : ref = source
        · subst here
          exact others next fun equal => free ⟨equal ▸ known, .start rfl⟩
        · exact edits.rows ref here next own
      reason := fun _ _ row _ _ => same.blockingReason edits.items row
      stored := fun _ _ above _ => edits.stored above
      below := fun _ _ edge reached => ⟨reached.1, .of_parent edge reached.2⟩ }
  exact frame.shouldBeBlocked (fun _ _ _ _ _ _ _ _ _ => same.insideSubtree) free

theorem EditsRowsOf.parent {child above : ItemRef} :
    before.network.parent child above ↔ after.network.parent child above :=
  and_congr same.parentChild (by rw [edits.stored])

theorem EditsRowsOf.shouldBeBlocked_mono
    (kept : ∀ row ∈ before.dependencies source.plane, row.issueId = source.id →
      before.blockingReason row = true → ∃ next ∈ after.dependencies source.plane,
        next.issueId = source.id ∧ next.target = row.target ∧ after.blockingReason next = true)
    (blocked : before.ShouldBeBlocked ref) : after.ShouldBeBlocked ref := by
  -- The row of the item after the edit, with its target and hence on its side of the subtree.
  have carried : ∀ ref : ItemRef, ∀ row ∈ before.dependencies ref.plane, row.issueId = ref.id →
      before.blockingReason row = true → ∃ next ∈ after.dependencies ref.plane,
        next.issueId = ref.id ∧ next.target = row.target ∧ after.blockingReason next = true := by
    intro ref row member own reason
    by_cases here : ref = source
    · subst here
      exact kept row member own reason
    · exact ⟨row, (edits.rows ref here row own).mp member, own, rfl, same.blockingReason edits.items row ▸ reason⟩
  have grows : before.network.settled ⊆ after.network.settled := by
    refine Propagation.Network.settled_mono ?_ ?_ ?_ ?_
    · exact fun ref active => (edits.active ref).symm.trans active
    · exact fun child above => (edits.parent same).mp
    · intro ref ⟨row, member, own, reason⟩
      obtain ⟨next, listed, source, _, holds⟩ := carried ref row member own reason
      exact ⟨next, listed, source, holds⟩
    · intro ref ⟨row, member, own, reason, outside⟩
      obtain ⟨next, listed, source, target, holds⟩ := carried ref row member own reason
      refine ⟨next, listed, source, holds, ?_⟩
      rw [← outside, same.insideSubtree]
      simp only [Tables.insideSubtree, target]
  exact grows blocked

theorem EditsRowsOf.darkened {above : ItemRef} (acyclic : before.ParentChildAcyclic)
    (chain : Relation.TransGen before.ParentChild source above)
    (dark : before.network.Darkened above) : after.network.Darkened above := by
  induction dark with
  | source live exogenous =>
    obtain ⟨row, member, own, reason, outside⟩ := exogenous
    have kept := (edits.rows _ (fun here => acyclic source (by rwa [here] at chain)) row own).mp member
    rw [same.blockingReason edits.items row] at reason
    rw [same.insideSubtree] at outside
    exact .source ((edits.active _).symm.trans live) ⟨row, kept, own, reason, outside⟩
  | step live edge _ ih => exact .step ((edits.active _).symm.trans live) ((edits.parent same).mp edge) (ih (chain.tail edge.1))

theorem EditsRowsOf.darkFromAbove
    (acyclic : before.ParentChildAcyclic) : before.DarkFromAbove source ↔ after.DarkFromAbove source := by
  refine exists_congr fun above => ?_
  rw [edits.parent same]
  refine and_congr_right fun edge => ⟨edits.darkened same acyclic (.single (same.parentChild.mpr edge.1)), ?_⟩
  exact edits.symm.darkened same.symm (same.acyclic acyclic) (.single edge.1)

end

end

end Tables

end Beads
