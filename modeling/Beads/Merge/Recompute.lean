import Beads.Affected.Recompute
import Beads.Data.AssocList

namespace Beads

def mergeRecomputeSeedCap : Nat := 1000

structure ChangedDepEdge where
  issueId : Id
  target : Id
  type : DependencyType
  deriving DecidableEq, Repr

def Dependency.changedEdge (row : Dependency) : ChangedDepEdge :=
  ⟨row.issueId, row.target.id, row.type⟩

def Store.issueRow (store : Store) (id : Id) : Option (Status × Bool) :=
  ((store.items .issue).find? fun row => row.id == id).map fun row => (row.status, store.isBlocked ⟨.issue, id⟩)

def Tables.dependencyRow (tables : Tables) (key : Id × Id) : Option Dependency :=
  (tables.dependencies .issue).find? fun row => row.key == key

/-- A merge: the stores before and after it, and the rows it changed in other columns. -/
structure Merge where
  base : Store
  merged : Store
  otherIssues : List Id := []
  otherDependencies : List (Id × Id) := []

variable {ref : ItemRef}

namespace Merge

variable (merge : Merge)

def changedIssueIds : List Id :=
  ((merge.base.items .issue ++ merge.merged.items .issue).map Row.id).dedup.filter fun id =>
    merge.base.issueRow id != merge.merged.issueRow id || merge.otherIssues.contains id

def changedDependencyKeys : List (Id × Id) :=
  ((merge.base.dependencies .issue ++ merge.merged.dependencies .issue).map Dependency.key).dedup.filter fun key =>
    merge.base.dependencyRow key != merge.merged.dependencyRow key || merge.otherDependencies.contains key

def changedDependencyEdges : List ChangedDepEdge :=
  merge.changedDependencyKeys.flatMap fun key =>
    (merge.base.dependencyRow key).toList.map Dependency.changedEdge ++
      (merge.merged.dependencyRow key).toList.map Dependency.changedEdge

/-- `none` asks for a full recompute. -/
def mergeAffectedSets : Option Seeds :=
  if merge.changedIssueIds.length + merge.changedDependencyEdges.length > mergeRecomputeSeedCap then none
  else
    let afterIssues := merge.changedIssueIds.foldl
      (fun seeds id => seeds.join (merge.merged.affectedByStatusChange id)) (.start fun _ => [])
    some (merge.changedDependencyEdges.foldl
      (fun seeds edge => seeds.join (merge.merged.affectedByDepChange edge.issueId edge.target edge.type)) afterIssues)

/-- `recomputeIsBlockedAfterMergeScoped` once something was merged. -/
def recomputeAfterMerge (session : Session) : Option Bits :=
  let all : Seeds := .start fun plane => (merge.merged.items plane).map Row.id
  merge.merged.recomputeSeeds session false (merge.mergeAffectedSets.getD all) merge.merged.isBlocked

def reached : Set ItemRef :=
  {ref | (∃ id ∈ merge.changedIssueIds, merge.merged.AtOrBelow (merge.merged.statusSeeds ⟨.issue, id⟩) ∅ ref) ∨
    ∃ edge ∈ merge.changedDependencyEdges, (∀ name, edge.type ≠ .other name) ∧
      merge.merged.AtOrBelow (merge.merged.depSeeds ⟨.issue, edge.issueId⟩ edge.target edge.type) ∅ ref}

variable {merge}

open Tables

theorem mergeAffectedSets_collects {seeds : Seeds} (within : merge.mergeAffectedSets = some seeds) :
    seeds.Collects merge.reached := by
  unfold mergeAffectedSets at within
  split at within
  · cases within
  · have issues := Seeds.Adds.fold merge.changedIssueIds
      (fun id _ _ good => Seeds.adds_join (merge.merged.affectedByStatusChange id) good) Seeds.good_nil
    have edges := Seeds.Adds.fold merge.changedDependencyEdges (fun edge _ _ good =>
      Seeds.adds_join (merge.merged.affectedByDepChange edge.issueId edge.target edge.type) good) issues.good
    have whole := issues.trans edges
    cases within
    refine ⟨whole.good.nodup, whole.listed.trans ?_⟩
    have statuses : ∀ id, (merge.merged.affectedByStatusChange id).listed = _ :=
      fun id => affectedByStatusChangeOf_collects.listed
    have deps : ∀ edge : ChangedDepEdge, (merge.merged.affectedByDepChange edge.issueId edge.target edge.type).listed = _ :=
      fun edge => affectedByDepChangeOf_collects.listed
    ext ref
    simp [Seeds.listed_nil, statuses, deps, reached]

/-- Neither wisp table is versioned, so a merge does not touch them. -/
structure WispsKept (merge : Merge) : Prop where
  items : merge.base.items .wisp = merge.merged.items .wisp
  dependencies : merge.base.dependencies .wisp = merge.merged.dependencies .wisp
  bits : ∀ id, merge.base.isBlocked ⟨.wisp, id⟩ = merge.merged.isBlocked ⟨.wisp, id⟩

def TargetsNamed (merge : Merge) : Prop := ∀ edge ∈ merge.changedDependencyEdges, edge.type = .parentChild → edge.target ≠ ""

open List

variable {row : Dependency}

theorem mem_dependencies_iff {tables : Tables} :
    row ∈ tables.dependencies .issue ↔ tables.dependencyRow row.key = some row :=
  (AssocList.find?_key (tables.dependenciesKeyed .issue)).symm

theorem hasStatus_issueRow {store : Store} {id : Id} {guard : Status → Bool} :
    store.hasStatus ⟨.issue, id⟩ guard = (store.issueRow id).any fun columns => guard columns.1 := by
  rw [Bool.eq_iff_iff]
  simp only [hasStatus, Store.issueRow, Option.any_map, Option.any_eq_true, any_eq_true,
    Bool.and_eq_true, beq_iff_eq]
  constructor
  · rintro ⟨row, member, named, holds⟩
    subst named
    exact ⟨row, (AssocList.find?_key (store.itemsKeyed .issue)).mpr member, holds⟩
  · rintro ⟨row, found, holds⟩
    exact ⟨row, mem_of_find?_eq_some found, by simpa using List.find?_some found, holds⟩

theorem issueRow_kept {id : Id} (kept : id ∉ merge.changedIssueIds) : merge.base.issueRow id = merge.merged.issueRow id := by
  by_cases known : id ∈ (merge.base.items .issue ++ merge.merged.items .issue).map Row.id
  · have tested := fun differs => kept (mem_filter.mpr ⟨mem_dedup.mpr known, differs⟩)
    by_contra differ
    exact tested (by simp [differ])
  · have absent : ∀ store : Store, id ∉ (store.items .issue).map Row.id → store.issueRow id = none := by
      intro store missing
      simp only [Store.issueRow, Option.map_eq_none_iff, List.find?_eq_none, beq_iff_eq]
      exact fun row member same => missing (mem_map.mpr ⟨row, member, same⟩)
    rw [map_append, mem_append, not_or] at known
    rw [absent _ known.1, absent _ known.2]

theorem item_kept {id : Id} (kept : id ∉ merge.changedIssueIds) :
    (∀ guard, merge.base.hasStatus ⟨.issue, id⟩ guard = merge.merged.hasStatus ⟨.issue, id⟩ guard) ∧
      (merge.merged.stored ⟨.issue, id⟩ = true → merge.base.isBlocked ⟨.issue, id⟩ = merge.merged.isBlocked ⟨.issue, id⟩) := by
  have same := issueRow_kept kept
  refine ⟨fun guard => by rw [hasStatus_issueRow, hasStatus_issueRow, same], fun present => ?_⟩
  obtain ⟨row, member, rfl⟩ := stored_iff.mp present
  have found := (AssocList.find?_key (merge.merged.itemsKeyed .issue)).mpr member
  cases old : (merge.base.items .issue).find? fun other => other.id == row.id with
  | none => simp [Store.issueRow, found, old] at same
  | some other =>
    simp only [Store.issueRow, found, old, Option.map_some, Option.some.injEq, Prod.mk.injEq] at same
    exact same.2

theorem changedEdge_mem
    (differs : ¬(row ∈ merge.base.dependencies .issue ↔ row ∈ merge.merged.dependencies .issue)) :
    row.changedEdge ∈ merge.changedDependencyEdges := by
  rw [mem_dependencies_iff, mem_dependencies_iff] at differs
  have somewhere : merge.base.dependencyRow row.key = some row ∨ merge.merged.dependencyRow row.key = some row := by
    by_contra neither
    rw [not_or] at neither
    exact differs (iff_of_false neither.1 neither.2)
  have changed : row.key ∈ merge.changedDependencyKeys := by
    refine mem_filter.mpr ⟨mem_dedup.mpr (mem_map.mpr ⟨row, mem_append.mpr ?_, rfl⟩), ?_⟩
    · rw [mem_dependencies_iff, mem_dependencies_iff]
      exact somewhere
    · have apart : merge.base.dependencyRow row.key ≠ merge.merged.dependencyRow row.key :=
        fun same => differs (by rw [same])
      simp [apart]
  refine mem_flatMap.mpr ⟨row.key, changed, mem_append.mpr (somewhere.imp ?_ ?_)⟩
  · intro found
    simp [found]
  · intro found
    simp [found]

section Frames

variable (wisps : merge.WispsKept) (targets : merge.TargetsNamed)

include wisps

section

variable (kept : ref.plane = .issue → ref.id ∉ merge.changedIssueIds)
include kept

theorem hasStatus_kept (guard : Status → Bool) :
    merge.base.hasStatus ref guard = merge.merged.hasStatus ref guard := by
  obtain ⟨plane, id⟩ := ref
  cases plane with
  | issue => exact (item_kept (kept rfl)).1 guard
  | wisp => simp only [hasStatus, wisps.items]

theorem stored_kept : merge.base.stored ref = merge.merged.stored ref := by
  rw [stored_eq_hasStatus, stored_eq_hasStatus]
  exact hasStatus_kept wisps kept _

end

theorem row_kept {plane : Plane} (kept : plane = .issue → row.changedEdge ∉ merge.changedDependencyEdges) :
    row ∈ merge.base.dependencies plane ↔ row ∈ merge.merged.dependencies plane := by
  cases plane with
  | wisp => rw [wisps.dependencies]
  | issue =>
    by_contra differs
    exact kept rfl (changedEdge_mem differs)

include targets

theorem frame : Tables.Frame merge.base.toTables merge.merged.toTables merge.reached := by
  -- A seed of a changed issue, and one of a changed row.
  have byIssue : ∀ {id ref}, id ∈ merge.changedIssueIds → ref ∈ merge.merged.statusSeeds ⟨.issue, id⟩ → ref ∈ merge.reached :=
    fun changed seed => .inl ⟨_, changed, .start seed⟩
  have byEdge : ∀ {edge : ChangedDepEdge} {ref}, edge ∈ merge.changedDependencyEdges → (∀ name, edge.type ≠ .other name) →
      ref ∈ merge.merged.depSeeds ⟨.issue, edge.issueId⟩ edge.target edge.type → ref ∈ merge.reached :=
    fun changed known seed => .inr ⟨_, changed, known, .start seed⟩
  have below : ∀ ref above, merge.merged.ParentChild ref above → above ∈ merge.reached → ref ∈ merge.reached := by
    intro ref above edge reached
    cases reached with
    | inl issue =>
      obtain ⟨id, changed, above⟩ := issue
      exact .inl ⟨id, changed, .child above edge (Set.notMem_empty _)⟩
    | inr row =>
      obtain ⟨changedEdge, changed, known, above⟩ := row
      exact .inr ⟨changedEdge, changed, known, .child above edge (Set.notMem_empty _)⟩
  have self : ∀ {ref : ItemRef}, ref ∉ merge.reached → ref.plane = .issue → ref.id ∉ merge.changedIssueIds := by
    intro ref free issue changed
    exact free (byIssue changed (.inl (by rw [← issue])))
  refine ⟨fun ref free => hasStatus_kept wisps (self free) _, ?_, ?_, ?_, below⟩
  · intro ref free row own known
    refine row_kept wisps fun issue changed => free (byEdge changed known (.inl ?_))
    cases ref
    simp_all [Dependency.changedEdge]
  · intro ref free row member own
    refine blockingReason_congr ?_ ?_
    · intro blocking target named
      refine hasStatus_kept wisps (fun issue changed => free (byIssue changed (.inr (.inl ?_)))) _
      exact ⟨row, member, own, blocking, by rw [named, ← issue]⟩
    · intro waits spawner named
      have waiter : ref ∈ merge.merged.waiters spawner := ⟨row, member, own, waits, named⟩
      refine ⟨hasStatus_kept wisps (fun _ changed => free (byIssue changed (.inr (.inr (.inr ⟨spawner, rfl, waiter⟩))))) _, ?_⟩
      refine fun guard => childWith_congr (fun child => exists_congr fun edge => ?_) fun child edge => ?_
      · refine and_congr_left fun ⟨_, type, target⟩ => row_kept wisps fun _ changed =>
          free (byEdge changed (by simp [Dependency.changedEdge, type]) (.inr ?_))
        exact ⟨type, targets _ changed type, .inl ⟨spawner, by rw [Dependency.changedEdge, target]; rfl, waiter⟩⟩
      · refine hasStatus_kept wisps (fun issue changed => free (byIssue changed (.inr (.inr (.inl ⟨spawner, ?_, waiter⟩))))) guard
        rw [← issue]
        exact edge
  · intro ref free above edge
    exact stored_kept wisps (self fun reached => free (below ref above edge reached))

end Frames

end Merge

namespace Tables

variable {tables : Tables} {bits : Bits} {ref : ItemRef}

theorem blocked_iff_of_consistent (consistent : tables.countIsBlockedInconsistencies bits = 0)
    (present : tables.stored ref = true) :
    bits ref = true ↔ tables.active ref = true ∧ (tables.HasReason ref ∨ tables.PassedDown bits ref) := by
  rw [passedDown_iff]
  exact consistent_iff.mp (countIsBlockedInconsistencies_eq_zero.mp consistent) ref present

end Tables

namespace Merge

variable {merge : Merge}

theorem isBlocked_kept (wisps : merge.WispsKept) (present : merge.merged.stored ref = true)
    (free : ref ∉ merge.reached) : merge.base.isBlocked ref = merge.merged.isBlocked ref := by
  obtain ⟨plane, id⟩ := ref
  cases plane with
  | wisp => exact wisps.bits id
  | issue => exact (item_kept fun changed => free (.inl ⟨id, changed, .start (.inl rfl)⟩)).2 present

/-- The scoped recompute after a merge leaves a consistent column exactly when no item that it does
not reach, open and without a reason of its own, had a blocked parent passing its mark on and has
none now, or the other way round. -/
theorem recomputeAfterMerge_consistent_iff (merge : Merge) (wisps : merge.WispsKept)
    (targets : merge.TargetsNamed) (acyclic : merge.merged.ParentChildAcyclic)
    (consistent : merge.base.countIsBlockedInconsistencies merge.base.isBlocked = 0)
    (within : merge.changedIssueIds.length + merge.changedDependencyEdges.length ≤ mergeRecomputeSeedCap) :
    (∀ createFastPathsDisabled, ∃ passes, ∀ fuel, passes < fuel →
      ∃ result, merge.recomputeAfterMerge ⟨fuel, createFastPathsDisabled⟩ = some result) ∧
    ∀ session result, merge.recomputeAfterMerge session = some result →
      (merge.merged.countIsBlockedInconsistencies result = 0 ↔
        ∀ ref, merge.merged.active ref = true → ¬merge.merged.HasReason ref → ref ∉ merge.reached →
          (merge.base.PassedDown merge.base.isBlocked ref ↔ merge.merged.DarkFromAbove ref)) := by
  obtain ⟨seeds, listed⟩ : ∃ seeds, merge.mergeAffectedSets = some seeds := ⟨_, if_neg (Nat.not_lt.mpr within)⟩
  have collects := mergeAffectedSets_collects listed
  have unreached := frame wisps targets
  have scopedRun : ∀ session, merge.recomputeAfterMerge session =
      merge.merged.recomputeSeeds session false seeds merge.merged.isBlocked := by
    intro session
    rw [recomputeAfterMerge, listed]
    rfl
  simp only [scopedRun]
  refine ⟨fun disabled => Tables.recomputeSeeds_returns acyclic collects false disabled _, fun session result returned => ?_⟩
  obtain ⟨outcome, recomputed, rfl⟩ := Option.map_eq_some_iff.mp returned
  rw [Tables.recomputeIsBlocked_consistent_iff acyclic recomputed]
  simp only [Tables.mem_idsOf, collects.listed]
  -- Outside the reached set the status and the reasons are those of the base, so the two equations
  -- differ in one leg.
  have equation : ∀ ref ∉ merge.reached, merge.merged.stored ref = true →
      (merge.merged.isBlocked ref = true ↔ merge.merged.active ref = true ∧
        (merge.merged.HasReason ref ∨ merge.base.PassedDown merge.base.isBlocked ref)) := by
    intro ref free present
    have self : ref.plane = .issue → ref.id ∉ merge.changedIssueIds := by
      intro issue changed
      exact free (.inl ⟨ref.id, changed, .start (.inl (by rw [← issue]))⟩)
    rw [← isBlocked_kept wisps present free, ← unreached.active ref free, ← unreached.hasReason free]
    exact Tables.blocked_iff_of_consistent consistent ((stored_kept wisps self).trans present)
  constructor
  · intro kept ref active reason free
    have present := Tables.stored_of_active active
    have both := kept ref present free
    rw [equation ref free present, Tables.shouldBeBlocked_iff] at both
    simpa [active, reason] using both
  · intro dark ref present free
    rw [equation ref free present, Tables.shouldBeBlocked_iff]
    refine and_congr_right fun active => ?_
    by_cases reason : merge.merged.HasReason ref
    · simp [reason]
    · simpa [reason] using dark ref active reason free

/-- `bd-a` waits for its own phase `bd-c`, so it holds back neither the phase nor `bd-v`. -/
def onePhase : Store where
  items
    | .issue => [⟨"bd-a", .opened⟩, ⟨"bd-q", .opened⟩, ⟨"bd-c", .opened⟩, ⟨"bd-v", .opened⟩]
    | .wisp => []
  dependencies
    | .issue => [⟨"bd-a", .item ⟨.issue, "bd-c"⟩, .waitsFor,
      ⟨[("also_blocks", .text "true")], List.nodup_singleton "also_blocks"⟩, none⟩,
        ⟨"bd-c", .item ⟨.issue, "bd-a"⟩, .parentChild, {}, none⟩, ⟨"bd-v", .item ⟨.issue, "bd-a"⟩, .parentChild, {}, none⟩]
    | .wisp => []
  isBlocked ref := ref == ⟨.issue, "bd-a"⟩

def phaseClosed : Merge where
  base := onePhase
  merged := { onePhase with
    items := fun
      | .issue => [⟨"bd-a", .opened⟩, ⟨"bd-q", .opened⟩, ⟨"bd-c", .closed⟩, ⟨"bd-v", .opened⟩]
      | .wisp => []
    itemsKeyed := by decide }

/-- The other clone put the phase under a second parent. -/
def phaseShared : Merge where
  base := onePhase
  merged := { onePhase with
    dependencies := fun
      | .issue => onePhase.dependencies .issue ++ [⟨"bd-c", .item ⟨.issue, "bd-q"⟩, .parentChild, {}, none⟩]
      | .wisp => []
    dependenciesKeyed := by decide }

theorem phaseClosed_recomputed : ∃ result, phaseClosed.recomputeAfterMerge ⟨4, false⟩ =
    some result ∧ phaseClosed.merged.countIsBlockedInconsistencies result = 0 ∧
    ∀ ref, phaseClosed.merged.active ref = true → ¬phaseClosed.merged.HasReason ref → ref ∉ phaseClosed.reached →
      (phaseClosed.base.PassedDown phaseClosed.base.isBlocked ref ↔ phaseClosed.merged.DarkFromAbove ref) := by
  have acyclic : phaseClosed.merged.ParentChildAcyclic :=
    Tables.acyclic_of_ranked (fun ref => if ref.id == "bd-a" then 0 else 1) (by decide)
  have settled := (recomputeAfterMerge_consistent_iff phaseClosed ⟨rfl, rfl, fun _ => rfl⟩
    (by unfold TargetsNamed; decide) acyclic (by decide) (by decide)).2 ⟨4, false⟩
  exact ⟨_, rfl, by decide, (settled _ rfl).mp (by decide)⟩

/-- The reason of `bd-a` now lies outside its subtree, and `bd-v` is not recomputed. -/
theorem phaseShared_leaves_stale : phaseShared.merged.ParentChildAcyclic ∧
    phaseShared.base.countIsBlockedInconsistencies phaseShared.base.isBlocked = 0 ∧
    phaseShared.WispsKept ∧ phaseShared.TargetsNamed ∧
    phaseShared.changedIssueIds.length + phaseShared.changedDependencyEdges.length ≤
    mergeRecomputeSeedCap ∧ ∃ result, phaseShared.recomputeAfterMerge ⟨4, false⟩ = some result ∧
      phaseShared.merged.countIsBlockedInconsistencies result = 1 := by
  refine ⟨?_, by decide, ⟨rfl, rfl, fun _ => rfl⟩, by unfold TargetsNamed; decide, by decide, _, rfl, by decide⟩
  exact Tables.acyclic_of_ranked (fun ref => if ref.id == "bd-a" || ref.id == "bd-q" then 0 else 1) (by decide)

end Merge

end Beads
