import Beads.Create.Batch

namespace Beads

open Fallible Tables PersistedDependency List

namespace Tables

variable {tables : Tables} {ref other : ItemRef} {status : Status} {guard : Status → Bool}

@[simp] theorem dependencies_insertItem : (tables.insertItem ref status).dependencies = tables.dependencies := by
  unfold insertItem
  split <;> rfl

theorem hasStatus_insertItem (differ : other ≠ ref) :
    (tables.insertItem ref status).hasStatus other guard = tables.hasStatus other guard := by
  unfold insertItem
  split
  · by_cases same : other.plane = ref.plane
    · have apart : ref.id ≠ other.id := fun id => differ (by cases other; cases ref; simp_all)
      simp [hasStatus, same, beq_eq_false_iff_ne.mpr apart]
    · simp [hasStatus, same]
  · rfl

theorem stored_insertItem (differ : other ≠ ref) : (tables.insertItem ref status).stored other = tables.stored other := by
  rw [stored_eq_hasStatus, stored_eq_hasStatus, hasStatus_insertItem differ]

theorem named_insertItem (named : tables.Named) (hasId : ref.id ≠ "") : (tables.insertItem ref status).Named := by
  refine ⟨fun plane row member => ?_, by simpa using named.sources⟩
  unfold insertItem at member
  split at member
  · by_cases same : plane = ref.plane
    · subst same
      cases mem_cons.mp (by simpa using member) with
      | inl new => exact new ▸ hasId
      | inr old => exact named.items _ row old
    · exact named.items plane row (by simpa [same] using member)
  · exact named.items plane row member

theorem named_setStatus (named : tables.Named) : (tables.setStatus ref status).Named := by
  refine ⟨fun plane row member => ?_, named.sources⟩
  by_cases same : plane = ref.plane
  · subst same
    obtain ⟨old, listed, shape⟩ : ∃ old ∈ tables.items ref.plane, old.withStatus ref.id status = row := by
      simpa [setStatus] using member
    rw [← shape, Row.id_withStatus]
    exact named.items _ old listed
  · exact named.items plane row (by simpa [setStatus, same] using member)

end Tables

structure BatchState.Extends (store : Store) (state : BatchState) : Prop where
  dependencies : state.tables.dependencies = store.dependencies
  named : state.tables.Named
  stored : ∀ ref, store.stored ref = true → state.tables.stored ref = true
  bits : ∀ ref, store.stored ref = true → state.isBlocked ref = store.isBlocked ref
  elsewhere : ∀ ref, (∀ issue ∈ state.accepted, ref ≠ issue.ref) →
    ∀ guard, state.tables.hasStatus ref guard = store.hasStatus ref guard

namespace BatchState.Extends

variable {store : Store} {state : BatchState} {issue : NewIssue}

section

variable (kept : state.Extends store)
include kept

theorem accept (issue : NewIssue) : (state.accept issue).Extends store :=
  { kept with elsewhere := fun ref free => kept.elsewhere ref fun other member => free other (mem_append_left _ member) }

theorem accept_insert (absent : state.tables.stored issue.ref = false) :
    ((state.insert issue).accept issue).Extends store := by
  have old : ∀ {ref}, store.stored ref = true → ref ≠ issue.ref := by
    intro ref present same
    exact Bool.false_ne_true (absent.symm.trans (same ▸ kept.stored ref present))
  refine ⟨?_, named_insertItem kept.named issue.named, ?_, ?_, ?_⟩
  · exact dependencies_insertItem.trans kept.dependencies
  · intro ref present
    exact (stored_insertItem (old present)).trans (kept.stored ref present)
  · intro ref present
    exact (Function.update_of_ne (old present) _ _).trans (kept.bits ref present)
  · intro ref free guard
    have apart : ref ≠ issue.ref := free issue (mem_append_right _ (.head _))
    exact (hasStatus_insertItem apart).trans ((kept.accept issue).elsewhere ref free guard)

theorem accept_overwrite : ((state.overwrite issue).accept issue).Extends store := by
  refine ⟨kept.dependencies, named_setStatus kept.named, ?_, kept.bits, ?_⟩
  · intro ref present
    exact stored_setStatus.trans (kept.stored ref present)
  · intro ref free guard
    have apart : ref ≠ issue.ref := free issue (mem_append_right _ (.head _))
    exact (hasStatus_setStatus apart).trans ((kept.accept issue).elsewhere ref free guard)

theorem createIssue {context : BatchContext} {next : BatchState}
    (step : createIssue context state issue = .ok next) : next.Extends store := by
  simp only [Beads.createIssue] at step
  split_ifs at step with invalid taken collides skips absent
  · exact Except.ok.inj step ▸ kept.accept issue
  · exact Except.ok.inj step ▸ kept.accept_insert (by simpa using absent)
  · exact Except.ok.inj step ▸ kept.accept issue
  · exact Except.ok.inj step ▸ kept
  · exact Except.ok.inj step ▸ kept.accept issue
  · exact Except.ok.inj step ▸ kept.accept_overwrite

end

end BatchState.Extends

theorem BatchState.extends_rows {store : Store} {context : BatchContext} {updatedAt : ItemRef → Nat} {issues : List NewIssue}
    {rows : BatchState} (named : store.Named)
    (written : issues.foldlM (createIssue context)
      { tables := store.toTables, isBlocked := store.isBlocked, updatedAt } = .ok rows) :
    rows.Extends store :=
  foldlM_preserves (BatchState.Extends store) (fun _ _ _ _ kept step => kept.createIssue step)
    ⟨rfl, named, fun _ present => present, fun _ _ => rfl, fun _ _ _ => rfl⟩ written

theorem Written.recompute_ok (written : Written) {session : Session} {result : Store}
    (recomputed : written.recompute session = .ok result) : result.toTables = written.tables ∧
      written.tables.recomputeSeeds session true (written.tables.createBlockedRecomputeIds written.accepted written.persisted)
        written.isBlocked = some result.isBlocked := by
  unfold recompute at recomputed
  split at recomputed
  · rename_i bits returned
    cases recomputed
    exact ⟨rfl, returned⟩
  · cases recomputed

def Tables.createSeeds (tables : Tables) (persisted : List PersistedDependency) : Set ItemRef :=
  {other | ∃ dependency ∈ persisted, dependency.maintained = true ∧ (other = dependency.source ∨
    dependency.type = .parentChild ∧ dependency.target ≠ "" ∧
      ∃ spawner : ItemRef, spawner.id = dependency.target ∧ other ∈ tables.waiters spawner)}

def Written.reached (written : Written) : Set ItemRef :=
  {ref | (∃ issue ∈ written.accepted, ref = issue.ref) ∨
    written.tables.AtOrBelow (written.tables.createSeeds written.persisted) ∅ ref}

theorem Written.collects (written : Written) :
    (written.tables.createBlockedRecomputeIds written.accepted written.persisted).Collects written.reached := by
  let maintained := written.persisted.filter maintained
  let spawnerIds := ((maintained.filter fun dependency => dependency.type == .parentChild && dependency.target != "").map
    target).eraseDups
  have sources := Seeds.adds_refs source maintained Seeds.good_nil
  have seeds := sources.trans (adds_waiters written.tables sources.good spawnerIds)
  have shape := seeds.listed.trans (c := written.tables.createSeeds written.persisted) <| by
    ext other
    simp only [Seeds.listed_nil, Set.empty_union, Set.sdiff_empty, Set.mem_union, Set.mem_ofPred_eq,
      maintained, spawnerIds, mem_eraseDups, mem_map, mem_filter, Bool.and_eq_true, beq_iff_eq,
      bne_iff_ne, createSeeds, and_or_left, exists_or, and_assoc]
    refine or_congr_right ⟨?_, ?_⟩
    · intro ⟨spawner, ⟨dependency, member, kind, type, nonempty, named⟩, waits⟩
      exact ⟨dependency, member, kind, type, nonempty, spawner, named.symm, waits⟩
    · intro ⟨dependency, member, kind, type, nonempty, spawner, named, waits⟩
      exact ⟨spawner, ⟨dependency, member, kind, type, nonempty, named.symm⟩, waits⟩
  have below : (written.tables.expandByParentChildDescendants _).Collects _ := collects_expand seeds.good
  rw [shape] at below
  have batch := Seeds.adds_refs NewIssue.ref written.accepted Seeds.good_nil
  have joined : Seeds.Adds ∅ _ _ (written.tables.createBlockedRecomputeIds written.accepted written.persisted) :=
    Seeds.adds_join _ batch.good
  refine ⟨joined.good.nodup, (batch.trans joined).listed.trans ?_⟩
  rw [below.listed, Seeds.listed_nil, Set.empty_union, Set.sdiff_empty]
  rfl

namespace Store

variable {store : Store} {context : BatchContext} {updatedAt : ItemRef → Nat}
  {createFastPathsDisabled : Bool} {issues : List NewIssue} {written : Written}

structure Extends (store : Store) (written : Written) : Prop where
  acyclic : written.tables.ParentChildAcyclic
  bits : ∀ ref, store.stored ref = true → written.isBlocked ref = store.isBlocked ref
  elsewhere : ∀ ref, (∀ issue ∈ written.accepted, ref ≠ issue.ref) →
    ∀ guard, written.tables.hasStatus ref guard = store.hasStatus ref guard

theorem writeBatch_ok (wrote : store.writeBatch context updatedAt createFastPathsDisabled issues = .ok written) :
    ∃ rows edges, issues.foldlM (createIssue context)
        { tables := store.toTables, isBlocked := store.isBlocked, updatedAt } = .ok rows ∧
      persistDependencies context.opts context.clientFoundRows createFastPathsDisabled rows.tables
        (rows.accepted.flatMap NewIssue.requests) = .ok edges ∧
      written = ⟨edges.tables, rows.isBlocked, rows.accepted, edges.persisted⟩ := by
  unfold writeBatch at wrote
  split at wrote
  on_goal 1 => obtain ⟨_, _, wrote⟩ := bind_eq_ok wrote
  -- Past the check of the planes, both cases write the rows and then their edges.
  all_goals
    obtain ⟨rows, rowsWritten, wrote⟩ := bind_eq_ok wrote
    obtain ⟨edges, edgesWritten, same⟩ := bind_eq_ok wrote
    exact ⟨rows, edges, rowsWritten, edgesWritten, (Except.ok.inj same).symm⟩

theorem NewIssue.requests_named {issue : NewIssue} {request : DependencyRequest}
    (member : request ∈ issue.requests) : request.issueId ≠ "" := by
  obtain ⟨asked, _, rfl⟩ := mem_map.mp member
  split
  · exact issue.named
  · rename_i own
    simpa using own

theorem writeBatch_extends (named : store.Named) (acyclic : store.ParentChildAcyclic)
    (wrote : store.writeBatch context updatedAt createFastPathsDisabled issues = .ok written) : store.Extends written := by
  obtain ⟨rows, edges, rowsWritten, edgesWritten, rfl⟩ := writeBatch_ok wrote
  have extended : rows.Extends store := BatchState.extends_rows named rowsWritten
  have kept : edges.tables.Named ∧ edges.tables.items = rows.tables.items ∧ edges.tables.ParentChildAcyclic := by
    refine persistDependencies_preserves (fun tables => tables.items = rows.tables.items ∧ tables.ParentChildAcyclic)
      ?_ extended.named ?_ ⟨rfl, ?_⟩ edgesWritten
    · intro request member
      obtain ⟨issue, _, listed⟩ := mem_flatMap.mp member
      exact NewIssue.requests_named listed
    · intro request before after row ⟨items, acyclic⟩ edge
      refine ⟨?_, edge.acyclic acyclic⟩
      rw [edge.written, items_insertDependency, items]
    · have same : Tables.SameHierarchy store.toTables rows.tables := by
        intro plane
        rw [hierarchyRows, hierarchyRows, extended.dependencies]
      exact same.acyclic acyclic
  refine ⟨kept.2.2, extended.bits, fun ref free guard => ?_⟩
  rw [← extended.elsewhere ref free guard, hasStatus, kept.2.1]
  rfl

theorem writeBatch_finished :
    store.writeBatch context updatedAt createFastPathsDisabled issues ≠ .error .recomputeUnfinished := by
  have rows : ∀ state, issues.foldlM (createIssue context) state ≠ .error .recomputeUnfinished := by
    refine foldlM_never (fun state issue failed => ?_) issues
    simp only [createIssue] at failed
    split_ifs at failed <;> exact absurd (Except.error.inj failed) nofun
  have planes : validateCreateIssuesMixedBucketDependencies issues ≠ .error .recomputeUnfinished := by
    simp only [validateCreateIssuesMixedBucketDependencies]
    split <;> exact nofun
  unfold writeBatch
  split
  on_goal 1 => refine bind_never planes fun _ _ => ?_
  all_goals exact bind_never (rows _) fun _ _ => bind_never persistDependencies_finished fun _ => nofun

/-- A batch on a consistent store with an acyclic hierarchy runs to its end, and it leaves the
column consistent exactly when no open item that it does not recompute gets its first reason or
darkened parent, or loses its last one. -/
theorem createIssues_consistent_iff (store : Store) (context : BatchContext)
    (updatedAt : ItemRef → Nat) (issues : List NewIssue)
    (named : store.Named) (acyclic : store.ParentChildAcyclic)
    (consistent : store.countIsBlockedInconsistencies store.isBlocked = 0) :
    (∀ createFastPathsDisabled, ∃ passes, ∀ fuel, passes < fuel →
      store.createIssues ⟨fuel, createFastPathsDisabled⟩ context updatedAt issues ≠ .error .recomputeUnfinished) ∧
    ∀ session result, store.createIssues session context updatedAt issues = .ok result →
      ∃ written, store.writeBatch context updatedAt session.createFastPathsDisabled issues =
        .ok written ∧ (result.countIsBlockedInconsistencies result.isBlocked = 0 ↔
          ∀ ref, written.tables.active ref = true → ref ∉ written.reached →
            (store.HasReason ref ∨ store.DarkFromAbove ref ↔
              written.tables.HasReason ref ∨ written.tables.DarkFromAbove ref)) := by
  constructor
  · intro createFastPathsDisabled
    cases wrote : store.writeBatch context updatedAt createFastPathsDisabled issues with
    | error refusal =>
      refine ⟨0, fun fuel _ failed => writeBatch_finished (wrote.trans ?_)⟩
      rw [createIssues, wrote] at failed
      exact congrArg Except.error (Except.error.inj failed)
    | ok written =>
      have kept := writeBatch_extends named acyclic wrote
      obtain ⟨passes, returns⟩ := Tables.recomputeSeeds_returns kept.acyclic written.collects true createFastPathsDisabled
        written.isBlocked
      refine ⟨passes, fun fuel enough failed => ?_⟩
      obtain ⟨bits, returned⟩ := returns fuel enough
      have created : written.recompute ⟨fuel, createFastPathsDisabled⟩ = .ok ⟨written.tables, bits⟩ := by
        rw [Written.recompute, returned]
      rw [createIssues, wrote] at failed
      exact absurd (created.symm.trans failed) nofun
  · intro session result created
    obtain ⟨written, wrote, rest⟩ := bind_eq_ok created
    have kept := writeBatch_extends named acyclic wrote
    obtain ⟨tables, returned⟩ := written.recompute_ok rest
    refine ⟨written, wrote, ?_⟩
    have before : store.countIsBlockedInconsistencies written.isBlocked = 0 := by
      refine (Tables.consistent_iff_settled acyclic).mpr fun ref present => ?_
      rw [kept.bits ref present]
      exact (Tables.consistent_iff_settled acyclic).mp consistent ref present
    have elsewhere : ∀ ref ∉ written.reached, ∀ guard, written.tables.hasStatus ref guard = store.hasStatus ref guard :=
      fun ref free => kept.elsewhere ref fun issue member same => free (.inl ⟨issue, member, same⟩)
    rw [tables, Tables.recomputeSeeds_consistent_iff acyclic kept.acyclic before ?_ written.collects returned]
    · constructor
      · intro contained ref active free
        have both := contained ref (Tables.stored_of_active active) free
        have was : store.active ref = true := (elsewhere ref free Status.active).symm.trans active
        simpa [Tables.shouldBeBlocked_iff, active, was] using both
      · intro same ref _ free
        have was : written.tables.active ref = store.active ref := elsewhere ref free Status.active
        rw [Tables.shouldBeBlocked_iff, Tables.shouldBeBlocked_iff, was]
        exact and_congr_right fun active => same ref (was.trans active) free
    · intro ref free present
      rw [Tables.stored_eq_hasStatus] at present ⊢
      rw [← elsewhere ref free, present]

/-- `bd-a` waits for `bd-t`, which is not below it, so its child `bd-v` is held back; `bd-b` is
blocked by `bd-t`. -/
def tracker : Store where
  items
    | .issue => [⟨"bd-a", .opened⟩, ⟨"bd-b", .opened⟩, ⟨"bd-t", .opened⟩, ⟨"bd-v", .opened⟩]
    | .wisp => []
  dependencies
    | .issue => [⟨"bd-a", .item ⟨.issue, "bd-t"⟩, .waitsFor,
        ⟨[("also_blocks", .text "true")], List.nodup_singleton "also_blocks"⟩, none⟩,
        ⟨"bd-b", .item ⟨.issue, "bd-t"⟩, .blocks, {}, none⟩, ⟨"bd-v", .item ⟨.issue, "bd-a"⟩, .parentChild, {}, none⟩]
    | .wisp => []
  isBlocked ref := ref == ⟨.issue, "bd-a"⟩ || ref == ⟨.issue, "bd-b"⟩ || ref == ⟨.issue, "bd-v"⟩

theorem tracker_acyclic : tracker.ParentChildAcyclic :=
  acyclic_of_ranked (fun ref => if ref.id == "bd-v" then 1 else 0) (by decide)

theorem tracker_named : tracker.Named := ⟨by decide, by decide⟩

/-- A new task under `bd-b` that blocks on a new wisp. -/
def newTask : List NewIssue :=
  [{ id := "bd-n", plane := .issue, status := .opened,
     dependencies := [⟨"", "bd-b", .parentChild, {}, ""⟩, ⟨"", "bd-w", .blocks, {}, ""⟩] },
   { id := "bd-w", plane := .wisp, status := .opened }]

theorem newTask_consistent : ∃ result, tracker.createIssues ⟨5, false⟩ { opts.skipDependencyValidationErrors := true }
    (fun _ => 0) newTask = .ok result ∧ result.countIsBlockedInconsistencies result.isBlocked = 0 ∧
    ∃ written, tracker.writeBatch { opts.skipDependencyValidationErrors := true } (fun _ => 0) false newTask = .ok written ∧
      ∀ ref, written.tables.active ref = true → ref ∉ written.reached →
        (tracker.HasReason ref ∨ tracker.DarkFromAbove ref ↔ written.tables.HasReason ref ∨
          written.tables.DarkFromAbove ref) := by
  have settled := (createIssues_consistent_iff tracker { opts.skipDependencyValidationErrors := true } (fun _ => 0) newTask
    tracker_named tracker_acyclic (by decide)).2 ⟨5, false⟩
  obtain ⟨written, wrote, condition⟩ := settled _ rfl
  exact ⟨_, rfl, by decide, written, wrote, condition.mp (by decide)⟩

/-- An import of `bd-t` as closed. -/
def closedTarget : List NewIssue := [{ id := "bd-t", plane := .issue, status := .closed }]

/-- An import of `bd-t` as a child of `bd-a`. -/
def adoptedTarget : List NewIssue :=
  [{ id := "bd-t", plane := .issue, status := .opened, dependencies := [⟨"", "bd-a", .parentChild, {}, ""⟩] }]

/-- The first leaves the dependers of `bd-t` blocked, the second leaves `bd-v` held back. -/
theorem createIssues_leaves_stale : tracker.Named ∧ tracker.ParentChildAcyclic ∧
    tracker.countIsBlockedInconsistencies tracker.isBlocked = 0 ∧
    (∃ result, tracker.createIssues ⟨5, false⟩ {} (fun _ => 0) closedTarget = .ok result ∧
      result.countIsBlockedInconsistencies result.isBlocked = 2) ∧
    ∃ result, tracker.createIssues ⟨5, false⟩ {} (fun _ => 0) adoptedTarget = .ok result ∧
      result.countIsBlockedInconsistencies result.isBlocked = 1 :=
  ⟨tracker_named, tracker_acyclic, by decide, ⟨_, rfl, by decide⟩, _, rfl, by decide⟩

end Store

end Beads
