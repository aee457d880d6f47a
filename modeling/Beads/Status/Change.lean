import Beads.Affected.Recompute

/-! A status write reaches other items by four routes: the blocking dependers of the item, the
waiters on its parents, whose gates count it as a child, the waiters on the item itself, and the
items below all of these. -/

namespace Beads

def Row.withStatus (row : Row) (id : Id) (status : Status) : Row :=
  if row.id = id then { row with status } else row

theorem Row.id_withStatus (row : Row) (id : Id) (status : Status) : (row.withStatus id status).id = row.id := by
  unfold withStatus
  split <;> rfl

namespace Tables

def setStatus (tables : Tables) (ref : ItemRef) (status : Status) : Tables where
  items := Function.update tables.items ref.plane ((tables.items ref.plane).map fun row => row.withStatus ref.id status)
  dependencies := tables.dependencies
  itemsKeyed plane := by
    by_cases same : plane = ref.plane
    · subst same
      have ids : Row.id ∘ (fun row => row.withStatus ref.id status) = Row.id :=
        funext fun row => row.id_withStatus ref.id status
      simpa [ids] using tables.itemsKeyed ref.plane
    · simpa [same] using tables.itemsKeyed plane
  dependenciesKeyed := tables.dependenciesKeyed

def affectedByStatusChangeIn (tables : Tables) : Plane → Id → Seeds
  | .issue => tables.affectedByStatusChange
  | .wisp => tables.affectedByStatusChangeForWisp

end Tables

def Store.changeStatus (store : Store) (session : Session) (ref : ItemRef) (status : Status) : Option Store :=
  let written := store.setStatus ref status
  (written.recomputeSeeds session false (written.affectedByStatusChangeIn ref.plane ref.id) store.isBlocked).map fun bits =>
    ⟨written, bits⟩

namespace Tables

variable {tables : Tables} {ref other spawner : ItemRef} {status : Status} {guard : Status → Bool}

theorem hasStatus_setStatus (differ : other ≠ ref) :
    (tables.setStatus ref status).hasStatus other guard = tables.hasStatus other guard := by
  by_cases same : other.plane = ref.plane
  · have apart : other.id ≠ ref.id := fun id => differ (by cases other; cases ref; simp_all)
    simp only [hasStatus, setStatus, same, Function.update_self, List.any_map]
    refine congrArg (List.any _) (funext fun row => ?_)
    by_cases named : row.id = ref.id
    · simp [named, beq_eq_false_iff_ne.mpr apart.symm, Row.id_withStatus]
    · simp [Row.withStatus, named]
  · simp [hasStatus, setStatus, same]

theorem active_setStatus (differ : other ≠ ref) : (tables.setStatus ref status).active other = tables.active other :=
  hasStatus_setStatus differ

theorem stored_setStatus : (tables.setStatus ref status).stored other = tables.stored other := by
  by_cases same : other.plane = ref.plane
  · simp only [stored, setStatus, same, Function.update_self, List.any_map]
    refine congrArg (List.any _) (funext fun row => ?_)
    simp [Row.id_withStatus]
  · simp [stored, setStatus, same]

theorem sameHierarchy_setStatus : SameHierarchy tables (tables.setStatus ref status) := fun _ => rfl

theorem childWith_setStatus (apart : ¬tables.ParentChild ref spawner) :
    tables.childWith spawner guard = (tables.setStatus ref status).childWith spawner guard := by
  refine childWith_congr (fun _ => Iff.rfl) fun child edge => (hasStatus_setStatus fun same => apart ?_).symm
  rw [← same]
  exact edge

theorem setStatus_shouldBeBlocked
    (free : ¬(tables.setStatus ref status).AtOrBelow ((tables.setStatus ref status).statusSeeds ref) ∅ other) :
    tables.ShouldBeBlocked other ↔ (tables.setStatus ref status).ShouldBeBlocked other := by
  let after := tables.setStatus ref status
  have frame : Frame tables after {other | after.AtOrBelow (after.statusSeeds ref) ∅ other} :=
    { active := fun other free => (active_setStatus fun same => free (.start (.inl same))).symm
      rows := fun _ _ _ _ _ => Iff.rfl
      reason := by
        intro other free row member own
        refine blockingReason_congr ?_ ?_
        · intro blocking target named
          refine (active_setStatus fun same => free (.start (.inr (.inl ?_)))).symm
          exact ⟨row, member, own, blocking, same ▸ named⟩
        · intro waits spawner named
          refine ⟨(active_setStatus fun same => free (.start (.inr (.inr (.inr ?_))))).symm, fun guard => ?_⟩
          · exact ⟨spawner, by rw [same], row, member, own, waits, named⟩
          · refine childWith_setStatus fun edge => free (.start (.inr (.inr (.inl ?_))))
            exact ⟨spawner, edge, row, member, own, waits, named⟩
      stored := fun _ _ above _ => stored_setStatus.symm
      below := fun _ _ edge reached => .child reached edge (Set.notMem_empty _) }
  exact frame.shouldBeBlocked (fun _ _ _ _ _ _ _ _ _ => sameHierarchy_setStatus.insideSubtree) free

end Tables

namespace Store

variable {store : Store} {ref : ItemRef} {status : Status}

theorem affectedByStatusChangeIn_eq (tables : Tables) :
    tables.affectedByStatusChangeIn ref.plane ref.id = tables.affectedByStatusChangeOf ref := by
  obtain ⟨plane, id⟩ := ref
  cases plane <;> rfl

/-- A status change of any item to any status, followed by the recompute of its affected set, keeps
the column consistent. -/
theorem changeStatus_consistent (store : Store) (ref : ItemRef) (status : Status) (acyclic : store.ParentChildAcyclic)
    (consistent : store.countIsBlockedInconsistencies store.isBlocked = 0) :
    (∀ createFastPathsDisabled, ∃ passes, ∀ fuel, passes < fuel →
      ∃ result, store.changeStatus ⟨fuel, createFastPathsDisabled⟩ ref status = some result) ∧
    ∀ session result, store.changeStatus session ref status = some result →
      result.toTables = store.setStatus ref status ∧
        result.countIsBlockedInconsistencies result.isBlocked = 0 := by
  have after : (store.setStatus ref status).ParentChildAcyclic := Tables.sameHierarchy_setStatus.acyclic acyclic
  have collects : ((store.setStatus ref status).affectedByStatusChangeIn ref.plane ref.id).Collects _ :=
    affectedByStatusChangeIn_eq (store.setStatus ref status) ▸ Tables.affectedByStatusChangeOf_collects
  constructor
  · intro createFastPathsDisabled
    obtain ⟨passes, returns⟩ := Tables.recomputeSeeds_returns after collects false createFastPathsDisabled store.isBlocked
    refine ⟨passes, fun fuel enough => ?_⟩
    obtain ⟨bits, returned⟩ := returns fuel enough
    exact ⟨_, by rw [changeStatus, returned]; rfl⟩
  · intro session result changed
    obtain ⟨bits, returned, rfl⟩ := Option.map_eq_some_iff.mp changed
    refine ⟨rfl, (Tables.recomputeSeeds_consistent_iff acyclic after consistent ?_ collects returned).mpr ?_⟩
    · exact fun _ _ present => Tables.stored_setStatus.symm.trans present
    · exact fun other _ free => Tables.setStatus_shouldBeBlocked free

/-- `bd-a` is blocked by the wisp `bd-w`, and `bd-b` is its child. -/
def blockedParent : Store where
  items
    | .issue => [⟨"bd-a", .opened⟩, ⟨"bd-b", .opened⟩]
    | .wisp => [⟨"bd-w", .opened⟩]
  dependencies
    | .issue => [⟨"bd-a", .item ⟨.wisp, "bd-w"⟩, .blocks, {}, none⟩, ⟨"bd-b", .item ⟨.issue, "bd-a"⟩, .parentChild, {}, none⟩]
    | .wisp => []
  isBlocked ref := ref.plane == .issue

theorem blockedParent_closed : ∃ result,
    blockedParent.changeStatus ⟨4, false⟩ ⟨.wisp, "bd-w"⟩ .closed = some result ∧
      result.toTables = blockedParent.setStatus ⟨.wisp, "bd-w"⟩ .closed ∧
      result.countIsBlockedInconsistencies result.isBlocked = 0 := by
  have acyclic : blockedParent.ParentChildAcyclic :=
    Tables.acyclic_of_ranked (fun ref => if ref.id == "bd-b" then 1 else 0) (by decide)
  have settled := (changeStatus_consistent blockedParent ⟨.wisp, "bd-w"⟩ .closed acyclic (by decide)).2 ⟨4, false⟩
  exact ⟨_, rfl, settled _ rfl⟩

end Store

end Beads
