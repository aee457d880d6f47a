import Beads.Dependencies.Consistency
import Beads.Recheck.Writes

namespace Beads

open List

namespace Tables

/-- The first tables have no row, item or active item that the second have not. -/
structure Within (small large : Tables) : Prop where
  rows : ∀ plane, small.dependencies plane ⊆ large.dependencies plane
  stored : ∀ ref, small.stored ref = true → large.stored ref = true
  active : ∀ ref, small.active ref = true → large.active ref = true

namespace Within

variable {small large larger : Tables} {ref parent : ItemRef} {start excluded : Set ItemRef}
    {deletedIssues deletedWisps : List Id}

theorem refl (tables : Tables) : Within tables tables :=
  ⟨fun _ => List.Subset.refl _, fun _ present => present, fun _ active => active⟩

theorem trans (first : Within small large) (second : Within large larger) : Within small larger :=
  ⟨fun plane => List.Subset.trans (first.rows plane) (second.rows plane), fun ref present =>
    second.stored ref (first.stored ref present),
    fun ref active => second.active ref (first.active ref active)⟩

variable (within : Within small large)

include within

theorem apart (apart : large.Apart) : small.Apart :=
  fun id both => apart id ⟨within.stored _ both.1, within.stored _ both.2⟩

theorem sources {guard : Dependency → Prop} : small.sources guard ⊆ large.sources guard := by
  intro ref ⟨row, member, own, holds⟩
  exact ⟨row, within.rows _ member, own, holds⟩

theorem parentChild (edge : small.ParentChild ref parent) : large.ParentChild ref parent := by
  obtain ⟨row, member, own⟩ := edge
  exact ⟨row, within.rows _ member, own⟩

theorem acyclic (acyclic : large.ParentChildAcyclic) : small.ParentChildAcyclic :=
  EdgeInsertion.Acyclic.mono acyclic fun _ _ edge => within.parentChild edge

theorem ancestorChain {source node : Id} (member : node ∈ small.ancestorChain source) : node ∈ large.ancestorChain source := by
  rw [mem_ancestorChain] at member ⊢
  obtain ⟨named, chain, kind⟩ := member
  refine ⟨named,
    Relation.ReflTransGen.mono (fun _ _ link => linked_mono within.rows link) source node chain,
    kind.imp_right fun other => ?_⟩
  obtain ⟨plane, row, listed, found⟩ := hasOtherRow_iff.mp other
  exact hasOtherRow_iff.mpr ⟨plane, row, within.rows plane listed, found⟩

theorem atOrBelow {more : Set ItemRef} (starts : start ⊆ more)
    (reached : small.AtOrBelow start excluded ref) : large.AtOrBelow more excluded ref := by
  induction reached with
  | start member => exact .start (starts member)
  | child _ edge free ih => exact .child ih (within.parentChild edge) free

theorem waiters : small.waiters parent ⊆ large.waiters parent := within.sources

theorem dependers : small.dependers parent ⊆ large.dependers parent := within.sources

theorem statusSeeds : small.statusSeeds ref ⊆ large.statusSeeds ref := by
  intro other seed
  refine seed.imp_right (Or.imp (fun depends => within.dependers depends) (Or.imp ?_ ?_))
  · intro ⟨parent, edge, waits⟩
    exact ⟨parent, within.parentChild edge, within.waiters waits⟩
  · intro ⟨spawner, same, waits⟩
    exact ⟨spawner, same, within.waiters waits⟩

theorem depSeeds {source : ItemRef} {target : Id} {type : DependencyType} :
    small.depSeeds source target type ⊆ large.depSeeds source target type := by
  intro other seed
  refine seed.imp_right fun ⟨structural, named, kind⟩ => ⟨structural, named, kind.imp ?_ ?_⟩
  · intro ⟨spawner, same, waits⟩
    exact ⟨spawner, same, within.waiters waits⟩
  · intro ⟨above, listed, edge⟩
    exact ⟨above, within.ancestorChain listed, within.parentChild edge⟩

theorem deletionSeeds {deleted : Set ItemRef} : small.deletionSeeds deleted ⊆ large.deletionSeeds deleted := by
  intro other ⟨gone, member, seed⟩
  refine ⟨gone, member, seed.imp (fun depends => within.dependers depends)
    (Or.imp (fun waits => within.waiters waits) (Or.imp ?_ ?_))⟩
  · intro ⟨parent, edge, waits⟩
    exact ⟨parent, within.parentChild edge, within.waiters waits⟩
  · exact fun edge => within.parentChild edge

end Within

variable {tables small large : Tables} {ref other : ItemRef}

theorem inactive_setStatus (status : InactiveStatus) : (tables.setStatus ref status).active ref = false := by
  simp only [active, setStatus, Function.update_self, any_map, any_eq_false]
  intro row _
  by_cases named : row.id = ref.id
  · simp [Row.withStatus, named, status.2]
  · simp [Row.id_withStatus, named]

end Tables

namespace TableChange

variable {tables small large : Tables} (change : TableChange)

open Tables

theorem apply_within (tables : Tables) : Tables.Within (change.apply tables) tables := by
  cases change with
  | none => exact .refl tables
  | setStatus ref status =>
    refine ⟨fun _ => List.Subset.refl _, fun other present => stored_setStatus.symm.trans present, fun other active => ?_⟩
    by_cases same : other = ref
    · subst same
      exact absurd active (by simp [apply, inactive_setStatus])
    · exact (active_setStatus same).symm.trans active
  | deleteDependency plane row =>
    exact ⟨deleteDependency_subset, fun _ present => present, fun _ active => active⟩
  | deleteItems deletedIssues deletedWisps =>
    refine ⟨fun _ => filter_subset_self _, fun other present => ?_, fun other active => ?_⟩
    · exact (stored_deleteItems (survives_of_stored present)).symm.trans present
    · have survives := survives_of_stored (stored_of_active active)
      exact (active_deleteItems survives).symm.trans active

theorem apply_mono (within : Tables.Within small large) : Tables.Within (change.apply small) (change.apply large) := by
  cases change with
  | none => exact within
  | setStatus ref status =>
    refine ⟨within.rows, fun other present => ?_, fun other active => ?_⟩
    · exact stored_setStatus.trans (within.stored other (stored_setStatus.symm.trans present))
    · by_cases same : other = ref
      · subst same
        exact absurd active (by simp [apply, inactive_setStatus])
      · exact (active_setStatus same).trans (within.active other ((active_setStatus same).symm.trans active))
  | deleteDependency plane row =>
    refine ⟨fun other => ?_, within.stored, within.active⟩
    intro next member
    rw [apply, dependencies_deleteDependency] at member ⊢
    exact mem_filter.mpr ⟨within.rows other (mem_filter.mp member).1, (mem_filter.mp member).2⟩
  | deleteItems deletedIssues deletedWisps =>
    refine ⟨fun other => ?_, fun other present => ?_, fun other active => ?_⟩
    · intro next member
      obtain ⟨old, source, survives⟩ := mem_dependencies_deleteItems.mp member
      exact mem_dependencies_deleteItems.mpr ⟨within.rows other old, source, survives⟩
    · have survives := survives_of_stored present
      exact (stored_deleteItems survives).trans (within.stored other ((stored_deleteItems survives).symm.trans present))
    · have survives := survives_of_stored (stored_of_active active)
      exact (active_deleteItems survives).trans (within.active other ((active_deleteItems survives).symm.trans active))

end TableChange

/-- What an edit promises of its own snapshot: it affects whatever lies below an affected item, and
the items its recheck leaves out are not active any more. -/
structure Edit.Sound (edit : Edit) (tables : Tables) : Prop where
  nodup : ∀ plane, (edit.affected.queue plane).Nodup
  below : ∀ child parent, (edit.change.apply tables).ParentChild child parent →
    parent ∈ edit.affected.listed → child ∈ edit.affected.listed
  excluded : ∀ ref : ItemRef, ref.id ∈ edit.exclude → (edit.change.apply tables).active ref = false

/-- The write, were it run alone on the second tables, would change no answer outside the items it
recomputes. A close and a deactivation never do. -/
def UnblockingWrite.Contained (snapshot head : Tables) : UnblockingWrite → Prop
  | .close _ => True
  | .updateStatus id status => snapshot.active (snapshot.routed id) = false →
      Tables.Contained head (head.setStatus (snapshot.routed id) status) ∅
  | .removeDependency issueId dependsOnId => ∀ row,
      snapshot.existingDependency (snapshot.routed issueId).plane issueId dependsOnId = some row →
      (RowChange.delete row).Suspect head (snapshot.routed issueId).plane →
      Tables.Contained head (head.deleteDependency (snapshot.routed issueId).plane row.key)
        ((RowChange.delete row).reached head (snapshot.routed issueId).plane)
  | .delete ids =>
    let split := snapshot.partitionWispIds ids
    let deleted := Tables.deletedSet split.1 split.2
    Tables.Contained head (head.deleteItems split.1 split.2)
      {ref | head.AtOrBelow (head.deletionSeeds deleted \ deleted) deleted ref}

namespace Tables

variable {tables snapshot head : Tables} {ref : ItemRef}

theorem Contained.mono {before after : Tables} {reached more : Set ItemRef} (contained : Contained before after reached)
    (within : reached ⊆ more) : Contained before after more :=
  fun ref present free => contained ref present fun member => free (within member)

theorem sound_unaffecting (change : TableChange) : ({ change } : Edit).Sound tables :=
  ⟨fun _ => nodup_nil, nofun, nofun⟩

theorem affectedByStatusChangeIn_collects : (tables.affectedByStatusChangeIn ref.plane ref.id).Collects
    {other | tables.AtOrBelow (tables.statusSeeds ref) ∅ other} :=
  Store.affectedByStatusChangeIn_eq tables ▸ affectedByStatusChangeOf_collects

theorem contained_setStatus {status : InactiveStatus} {read : Tables} (within : Within (head.setStatus ref status) read) :
    Contained head (head.setStatus ref status) (read.affectedByStatusChangeIn ref.plane ref.id).listed := by
  rw [affectedByStatusChangeIn_collects.listed]
  intro other _ free
  exact setStatus_shouldBeBlocked fun reached => free (within.atOrBelow within.statusSeeds reached)

theorem removeDependencyRow_sound (issueId dependsOnId : Id) :
    (tables.removeDependencyRow issueId dependsOnId).Sound tables := by
  simp only [removeDependencyRow]
  cases found : tables.existingDependency (tables.routed issueId).plane issueId dependsOnId with
  | none => exact sound_unaffecting _
  | some row =>
    refine ⟨affectedByDepChangeOf_collects.nodup, fun child parent edge member => ?_, nofun⟩
    rw [affectedByDepChangeOf_collects.listed] at member ⊢
    exact ⟨member.1, .child member.2 edge (Set.notMem_empty child)⟩

section

variable (apart : tables.Apart)
include apart

theorem sound_setStatus {status : InactiveStatus} {read : Tables}
    (present : tables.stored ref = true) (same : SameHierarchy tables read) :
    (⟨.setStatus ref status, read.affectedByStatusChangeIn ref.plane ref.id, [ref.id]⟩ : Edit).Sound tables where
  nodup := affectedByStatusChangeIn_collects.nodup
  below child parent edge member := by
    rw [affectedByStatusChangeIn_collects.listed] at member ⊢
    exact .child member (same.parentChild.mp edge) (Set.notMem_empty child)
  excluded other named := by
    have id : ref.id = other.id := (mem_singleton.mp named).symm
    cases found : (tables.setStatus ref status).active other with
    | false => exact found
    | true =>
      have stored : tables.stored other = true := stored_setStatus.symm.trans (stored_of_active found)
      rw [← apart.eq_of_id present stored id, inactive_setStatus] at found
      cases found

theorem closeIssue_sound (id : Id) : (tables.closeIssue id).Sound tables := by
  simp only [closeIssue]
  split
  · exact sound_setStatus apart (stored_of_hasStatus ‹_›) fun _ => rfl
  · exact sound_unaffecting _

theorem updateIssueStatus_sound (id : Id) (status : InactiveStatus) :
    (tables.updateIssueStatus id status).Sound tables := by
  simp only [updateIssueStatus]
  split
  · split
    · exact sound_setStatus apart (stored_of_active ‹_›) sameHierarchy_setStatus
    · exact sound_unaffecting _
  · exact sound_unaffecting _

theorem mem_deletedSet_partition {ids : List Id} (named : ref.id ∈ ids) (present : tables.stored ref = true) :
    ref ∈ deletedSet (tables.partitionWispIds ids).1 (tables.partitionWispIds ids).2 := by
  obtain ⟨plane, id⟩ := ref
  cases plane with
  | issue =>
    have single : tables.stored ⟨.wisp, id⟩ = false := Bool.eq_false_iff.mpr fun also => apart id ⟨present, also⟩
    simp only [deletedSet, idsOf, partitionWispIds, isActiveWisp, Set.mem_ofPred_eq, mem_filter]
    exact ⟨named, by rw [single]; rfl⟩
  | wisp =>
    simp only [deletedSet, idsOf, partitionWispIds, isActiveWisp, Set.mem_ofPred_eq, mem_filter]
    exact ⟨named, present⟩

theorem deleteIssues_sound (ids : List Id) : (tables.deleteIssues ids).Sound tables where
  nodup := affectedByDeletion_collects.nodup
  below child parent edge member := by
    obtain ⟨old, survives, _⟩ := parentChild_deleteItems.mp edge
    simp only [deleteIssues] at member ⊢
    rw [affectedByDeletion_collects.listed] at member ⊢
    exact .child member old survives
  excluded ref named := by
    cases found : ((tables.deleteIssues ids).change.apply tables).active ref with
    | false => rfl
    | true =>
      have after := stored_of_active found
      have before := ((tables.deleteIssues ids).change.apply_within tables).stored ref after
      exact absurd (mem_deletedSet_partition apart named before) (survives_of_stored after)

theorem edit_sound (write : UnblockingWrite) : (tables.edit write).Sound tables := by
  cases write with
  | close id => exact closeIssue_sound apart id
  | updateStatus id status => exact updateIssueStatus_sound apart id status
  | removeDependency issueId dependsOnId => exact removeDependencyRow_sound issueId dependsOnId
  | delete ids => exact deleteIssues_sound apart ids

end

theorem contained_refl {reached : Set ItemRef} : Contained tables tables reached :=
  fun _ _ _ => Iff.rfl

theorem deleteDependency_absent {plane : Plane} {key : Id × Id} (absent : ∀ row ∈ tables.dependencies plane, row.key ≠ key) :
    tables.deleteDependency plane key = tables := by
  have kept := filter_eq_self.mpr fun row member => bne_iff_ne.mpr (absent row member)
  simp [deleteDependency, withDependencies, kept]

theorem removeDependencyRow_contained {issueId dependsOnId : Id} (within : Within head snapshot)
    (keeps : (UnblockingWrite.removeDependency issueId dependsOnId).Contained snapshot head) :
    Contained head ((snapshot.removeDependencyRow issueId dependsOnId).change.apply head)
      (snapshot.removeDependencyRow issueId dependsOnId).affected.listed := by
  simp only [removeDependencyRow]
  cases found : snapshot.existingDependency (snapshot.routed issueId).plane issueId dependsOnId with
  | none => exact contained_refl
  | some row =>
    obtain ⟨stored, key⟩ := existingDependency_eq_some found
    by_cases still : row ∈ head.dependencies (snapshot.routed issueId).plane
    · have fits : (RowChange.delete row).Fits head (snapshot.routed issueId).plane := still
      have contained := (RowChange.contained_iff fits fun _ inserted => RowChange.noConfusion inserted).mpr (keeps row found)
      refine Contained.mono contained fun ref reached => ?_
      rw [affectedByDepChangeOf_collects.listed]
      obtain ⟨known, below⟩ := reached
      have smaller := (TableChange.deleteDependency (snapshot.routed issueId).plane row).apply_mono within
      have shape := Prod.mk.inj key
      rw [shape.1, shape.2] at below
      exact ⟨known, smaller.atOrBelow smaller.depSeeds below⟩
    · -- Another write has removed the row since.
      have absent : ∀ other ∈ head.dependencies (snapshot.routed issueId).plane, other.key ≠ row.key := by
        intro other member same
        have inSnapshot := within.rows _ member
        rw [inj_on_of_nodup_map (snapshot.dependenciesKeyed _) inSnapshot stored same] at member
        exact still member
      simp only [TableChange.apply, deleteDependency_absent absent]
      exact contained_refl

/-- What a write affects on its snapshot covers what it changes on a store that has shrunk since. -/
theorem edit_contained {write : UnblockingWrite} (within : Within head snapshot) (keeps : write.Contained snapshot head) :
    Contained head ((snapshot.edit write).change.apply head) (snapshot.edit write).affected.listed := by
  cases write with
  | close id =>
    simp only [edit, closeIssue]
    split
    · exact contained_setStatus (((TableChange.setStatus _ _).apply_within head).trans within)
    · exact contained_refl
  | updateStatus id status =>
    simp only [edit, updateIssueStatus]
    split
    · split
      · exact contained_setStatus ((TableChange.setStatus _ _).apply_mono within)
      · rename_i inactive
        rw [Bool.not_eq_true] at inactive
        exact Contained.mono (keeps inactive) (Set.empty_subset _)
    · exact contained_refl
  | removeDependency issueId dependsOnId => exact removeDependencyRow_contained within keeps
  | delete ids =>
    refine Contained.mono keeps fun ref reached => ?_
    simp only [edit, deleteIssues]
    rw [affectedByDeletion_collects.listed]
    exact within.atOrBelow (Set.sdiff_subset_sdiff_left within.deletionSeeds) reached

end Tables

end Beads
