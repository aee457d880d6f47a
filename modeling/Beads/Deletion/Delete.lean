import Beads.Affected.Recompute

/-! A deletion removes the rows of the items and every dependency row that names one of them, and
then recomputes the survivors that were collected beforehand. -/

namespace Beads

namespace Tables

variable (deletedIssues deletedWisps : List Id)

def isDeleted (ref : ItemRef) : Bool :=
  (idsOf deletedIssues deletedWisps ref.plane).contains ref.id

/-- The dependency row names none of the deleted items, as its source or in a
typed target column. -/
def spared (plane : Plane) (row : Dependency) : Bool :=
  !isDeleted deletedIssues deletedWisps ⟨plane, row.issueId⟩ &&
    match row.target with
    | .item ref => !isDeleted deletedIssues deletedWisps ref
    | .external _ => true

def deleteItems (tables : Tables) (deletedIssues deletedWisps : List Id) : Tables where
  items plane := (tables.items plane).filter fun row => !isDeleted deletedIssues deletedWisps ⟨plane, row.id⟩
  dependencies plane := (tables.dependencies plane).filter (spared deletedIssues deletedWisps plane)
  itemsKeyed plane := (tables.itemsKeyed plane).sublist (List.filter_sublist.map _)
  dependenciesKeyed plane := (tables.dependenciesKeyed plane).sublist (List.filter_sublist.map _)

end Tables

/-- A deletion with the recompute of the survivors it affects, which are
collected before the rows go. -/
def Store.deleteAll (store : Store) (session : Session) (deletedIssues deletedWisps : List Id) : Option Store :=
  let affected := store.affectedByDeletion deletedIssues deletedWisps
  let remaining := store.deleteItems deletedIssues deletedWisps
  (remaining.recomputeSeeds session false affected store.isBlocked).map fun bits => ⟨remaining, bits⟩

namespace Tables

variable {tables : Tables} {deletedIssues deletedWisps : List Id} {ref spawner above : ItemRef}
    {row : Dependency} {plane : Plane}

theorem isDeleted_iff : isDeleted deletedIssues deletedWisps ref = true ↔ ref ∈ deletedSet deletedIssues deletedWisps := by
  simp [isDeleted, deletedSet]

theorem spared_iff : spared deletedIssues deletedWisps plane row = true ↔
    (⟨plane, row.issueId⟩ : ItemRef) ∉ deletedSet deletedIssues deletedWisps ∧
      ∀ ref, row.target = .item ref → ref ∉ deletedSet deletedIssues deletedWisps := by
  simp only [spared, Bool.and_eq_true, Bool.not_eq_true', ← Bool.not_eq_true, isDeleted_iff]
  cases row.target <;> simp [isDeleted_iff, ← Bool.not_eq_true]

theorem mem_dependencies_deleteItems : row ∈ (tables.deleteItems deletedIssues deletedWisps).dependencies plane ↔
    row ∈ tables.dependencies plane ∧ (⟨plane, row.issueId⟩ : ItemRef) ∉ deletedSet deletedIssues deletedWisps ∧
      ∀ ref, row.target = .item ref → ref ∉ deletedSet deletedIssues deletedWisps := by
  rw [← spared_iff]
  exact List.mem_filter

theorem any_items_deleteItems (tables : Tables) (survives : ref ∉ deletedSet deletedIssues deletedWisps) (guard : Row → Bool) :
    ((tables.deleteItems deletedIssues deletedWisps).items ref.plane).any (fun row => row.id == ref.id && guard row) =
      (tables.items ref.plane).any fun row => row.id == ref.id && guard row := by
  simp only [deleteItems, List.any_filter]
  refine congrArg (List.any _) (funext fun row => ?_)
  by_cases named : row.id = ref.id
  · have kept : isDeleted deletedIssues deletedWisps ⟨ref.plane, row.id⟩ = false := by
      rw [named, Bool.eq_false_iff, ne_eq, isDeleted_iff]
      exact survives
    simp [kept]
  · simp [named]

section

variable (survives : ref ∉ deletedSet deletedIssues deletedWisps)
include survives

theorem active_deleteItems : (tables.deleteItems deletedIssues deletedWisps).active ref = tables.active ref :=
  any_items_deleteItems tables survives fun row => row.status.active

theorem stored_deleteItems :
    (tables.deleteItems deletedIssues deletedWisps).stored ref = tables.stored ref := by
  simpa [stored] using any_items_deleteItems tables survives fun _ => true

end

theorem survives_of_stored (present : (tables.deleteItems deletedIssues deletedWisps).stored ref = true) :
    ref ∉ deletedSet deletedIssues deletedWisps := by
  obtain ⟨row, member, same⟩ := stored_iff.mp present
  have kept := (List.mem_filter.mp member).2
  rwa [same, Bool.not_eq_true', Bool.eq_false_iff, ne_eq, isDeleted_iff] at kept

theorem parentChild_deleteItems : (tables.deleteItems deletedIssues deletedWisps).ParentChild ref above ↔
    tables.ParentChild ref above ∧ ref ∉ deletedSet deletedIssues deletedWisps ∧
      above ∉ deletedSet deletedIssues deletedWisps := by
  constructor
  · intro ⟨row, member, own, type, target⟩
    obtain ⟨old, source, survives⟩ := mem_dependencies_deleteItems.mp member
    rw [own] at source
    exact ⟨⟨row, old, own, type, target⟩, source, survives above target⟩
  · intro ⟨⟨row, member, own, type, target⟩, source, survives⟩
    refine ⟨row, mem_dependencies_deleteItems.mpr ⟨member, own ▸ source, fun other named => ?_⟩, own, type, target⟩
    rw [target] at named
    cases named
    exact survives

theorem acyclic_deleteItems (acyclic : tables.ParentChildAcyclic) :
    (tables.deleteItems deletedIssues deletedWisps).ParentChildAcyclic :=
  EdgeInsertion.Acyclic.mono acyclic fun _ _ edge => (parentChild_deleteItems.mp edge).1

def deletionTouched (tables : Tables) (deletedIssues deletedWisps : List Id) : Set ItemRef :=
  {ref | ref ∈ deletedSet deletedIssues deletedWisps ∨
    tables.AtOrBelow (tables.deletionSeeds (deletedSet deletedIssues deletedWisps) \ deletedSet deletedIssues deletedWisps)
      (deletedSet deletedIssues deletedWisps) ref}

theorem seed_touched {gone : ItemRef} (deleted : gone ∈ deletedSet deletedIssues deletedWisps)
    (seed : ref ∈ tables.dependers gone ∨ ref ∈ tables.waiters gone ∨
      (∃ parent, tables.ParentChild gone parent ∧ ref ∈ tables.waiters parent) ∨
    tables.ParentChild ref gone) : ref ∈ tables.deletionTouched deletedIssues deletedWisps := by
  by_cases also : ref ∈ deletedSet deletedIssues deletedWisps
  · exact .inl also
  · exact .inr (.start ⟨⟨gone, deleted, seed⟩, also⟩)

theorem frame_deleteItems : Frame tables (tables.deleteItems deletedIssues deletedWisps)
    (tables.deletionTouched deletedIssues deletedWisps) where
  active ref free := (active_deleteItems fun deleted => free (.inl deleted)).symm
  rows ref free row own known := by
    rw [mem_dependencies_deleteItems, own]
    refine ⟨fun member => ⟨member, fun deleted => free (.inl deleted), fun gone named deleted => free ?_⟩, And.left⟩
    -- A row that goes with its target makes its source a seed.
    refine seed_touched deleted ?_
    cases type : row.type with
    | other name => exact absurd type (known name)
    | blocks | conditionalBlocks => exact .inl ⟨row, member, own, by rw [type]; rfl, named⟩
    | waitsFor => exact .inr (.inl ⟨row, member, own, type, named⟩)
    | parentChild => exact .inr (.inr (.inr ⟨row, member, own, type, named⟩))
  reason ref free row member own := by
    obtain ⟨old, _, survives⟩ := mem_dependencies_deleteItems.mp member
    refine blockingReason_congr (fun _ target named => (active_deleteItems (survives target named)).symm) ?_
    intro waits spawner named
    refine ⟨(active_deleteItems (survives spawner named)).symm, fun guard => ?_⟩
    have children : ∀ child, tables.ParentChild child spawner → child ∉ deletedSet deletedIssues deletedWisps :=
      fun child edge deleted => free (seed_touched deleted (.inr (.inr (.inl ⟨spawner, edge, row, old, own, waits, named⟩))))
    refine childWith_congr (fun child => ?_) fun child edge => ?_
    · rw [parentChild_deleteItems]
      exact ⟨fun edge => ⟨edge, children child edge, survives spawner named⟩, And.left⟩
    · exact (any_items_deleteItems tables (parentChild_deleteItems.mp edge).2.1 fun row => guard row.status).symm
  stored ref free above edge := (stored_deleteItems (parentChild_deleteItems.mp edge).2.2).symm
  below ref above edge reached := by
    obtain ⟨old, survives, aboveSurvives⟩ := parentChild_deleteItems.mp edge
    cases reached with
    | inl deleted => exact absurd deleted aboveSurvives
    | inr reached => exact .inr (.child reached old survives)

end Tables

namespace Store

variable {store : Store} {deletedIssues deletedWisps : List Id}

theorem deleteAll_returns (store : Store) (deletedIssues deletedWisps : List Id) (acyclic : store.ParentChildAcyclic)
    (createFastPathsDisabled : Bool) : ∃ passes, ∀ fuel, passes < fuel →
      ∃ result, store.deleteAll ⟨fuel, createFastPathsDisabled⟩ deletedIssues deletedWisps = some result := by
  have after : (store.deleteItems deletedIssues deletedWisps).ParentChildAcyclic := Tables.acyclic_deleteItems acyclic
  have collects : (store.affectedByDeletion deletedIssues deletedWisps).Collects _ := Tables.affectedByDeletion_collects
  obtain ⟨passes, returns⟩ := Tables.recomputeSeeds_returns after collects false createFastPathsDisabled store.isBlocked
  refine ⟨passes, fun fuel enough => ?_⟩
  obtain ⟨bits, returned⟩ := returns fuel enough
  exact ⟨_, by rw [deleteAll, returned]; rfl⟩

/-- A deletion keeps a consistent column consistent exactly when no surviving item that it does not
recompute, open and without a reason of its own, gains its first darkened parent or loses its last
one. -/
theorem deleteAll_consistent_iff (store : Store) (deletedIssues deletedWisps : List Id) (acyclic : store.ParentChildAcyclic)
    (consistent : store.countIsBlockedInconsistencies store.isBlocked = 0) :
    (∀ createFastPathsDisabled, ∃ passes, ∀ fuel, passes < fuel →
      ∃ result, store.deleteAll ⟨fuel, createFastPathsDisabled⟩ deletedIssues deletedWisps =
    some result) ∧ ∀ session result, store.deleteAll session deletedIssues deletedWisps =
      some result → (result.countIsBlockedInconsistencies result.isBlocked = 0 ↔
        ∀ ref, (store.deleteItems deletedIssues deletedWisps).active ref = true →
          ¬(store.deleteItems deletedIssues deletedWisps).HasReason ref →
          ref ∉ store.deletionTouched deletedIssues deletedWisps →
          (store.DarkFromAbove ref ↔ (store.deleteItems deletedIssues deletedWisps).DarkFromAbove ref)) := by
  constructor
  · exact deleteAll_returns store deletedIssues deletedWisps acyclic
  · intro session result deleted
    obtain ⟨bits, returned, rfl⟩ := Option.map_eq_some_iff.mp deleted
    rw [Tables.recomputeSeeds_consistent_iff acyclic (Tables.acyclic_deleteItems acyclic) consistent (fun ref _ present =>
      (Tables.stored_deleteItems (Tables.survives_of_stored present)).symm.trans present)
        Tables.affectedByDeletion_collects returned]
    constructor
    · intro contained ref active reason free
      have present := Tables.stored_of_active active
      exact (Tables.frame_deleteItems.shouldBeBlocked_congr free).mp (contained ref present fun reached => free (.inr reached))
        active reason
    · intro dark ref present free
      have untouched : ref ∉ store.deletionTouched deletedIssues deletedWisps :=
        fun touched => touched.elim (Tables.survives_of_stored present) free
      exact (Tables.frame_deleteItems.shouldBeBlocked_congr untouched).mpr fun active reason => dark ref active reason untouched

/-- `bd-a` waits for `bd-t`, two levels below it, so it holds back neither `bd-m` nor `bd-v`. -/
def nestedWait : Store where
  items
    | .issue => [⟨"bd-a", .opened⟩, ⟨"bd-m", .opened⟩, ⟨"bd-t", .opened⟩, ⟨"bd-v", .opened⟩]
    | .wisp => []
  dependencies
    | .issue => [⟨"bd-a", .item ⟨.issue, "bd-t"⟩, .waitsFor, { members := [("also_blocks", .text "true")] }, none⟩,
        ⟨"bd-t", .item ⟨.issue, "bd-m"⟩, .parentChild, {}, none⟩, ⟨"bd-m", .item ⟨.issue, "bd-a"⟩, .parentChild, {}, none⟩,
        ⟨"bd-v", .item ⟨.issue, "bd-a"⟩, .parentChild, {}, none⟩]
    | .wisp => []
  isBlocked ref := ref == ⟨.issue, "bd-a"⟩

theorem nestedWait_acyclic : nestedWait.ParentChildAcyclic :=
  Tables.acyclic_of_ranked (fun ref => if ref.id == "bd-t" then 2 else if ref.id == "bd-a" then 0 else 1) (by decide)

/-- Deleting the target itself darkens and lightens nothing that is not recomputed. -/
theorem nestedWait_target_deleted : ∃ result, nestedWait.deleteAll ⟨4, false⟩ ["bd-t"] [] =
    some result ∧ result.countIsBlockedInconsistencies result.isBlocked = 0 ∧
    ∀ ref, (nestedWait.deleteItems ["bd-t"] []).active ref = true → ¬(nestedWait.deleteItems ["bd-t"] []).HasReason ref →
      ref ∉ nestedWait.deletionTouched ["bd-t"] [] →
      (nestedWait.DarkFromAbove ref ↔ (nestedWait.deleteItems ["bd-t"] []).DarkFromAbove ref) := by
  have settled := (deleteAll_consistent_iff nestedWait ["bd-t"] [] nestedWait_acyclic (by decide)).2 ⟨4, false⟩
  exact ⟨_, rfl, by decide, (settled _ rfl).mp (by decide)⟩

/-- Without `bd-m` the target lies outside the subtree of `bd-a`, and `bd-v` is not recomputed. -/
theorem nestedWait_middle_deleted : nestedWait.ParentChildAcyclic ∧
    nestedWait.countIsBlockedInconsistencies nestedWait.isBlocked = 0 ∧
    ∃ result, nestedWait.deleteAll ⟨4, false⟩ ["bd-m"] [] = some result ∧
      result.countIsBlockedInconsistencies result.isBlocked = 1 :=
  ⟨nestedWait_acyclic, by decide, _, rfl, by decide⟩

end Store

end Beads
