import Beads.Create.Consistency
import Beads.Deletion.Delete
import Beads.Dependencies.Consistency

namespace Beads

open EdgeInsertion Fallible Relation Tables List

/-- No id leads back to itself along blocking and parent-child rows. -/
def Tables.SchedulingAcyclic (tables : Tables) : Prop :=
  Acyclic (tables.Linked DependencyType.scheduling)

variable {request : DependencyRequest} {opts : AddDependencyOpts}

namespace Tables

variable {tables : Tables} {types : DependencyType → Bool} {plane : Plane} {row : Dependency} {source target : Id}

theorem linked_insertDependency (absent : row.key ∉ (tables.dependencies plane).map Dependency.key) :
    (tables.insertDependency plane row).Linked types source target ↔
      tables.Linked types source target ∨ types row.type = true ∧ source = row.issueId ∧ target = row.target.id := by
  simp only [Linked, mem_insertDependency absent]
  constructor
  · rintro ⟨other, next, ⟨rfl, rfl⟩ | old, own, type, reached⟩
    · exact .inr ⟨type, own.symm, reached.symm⟩
    · exact .inl ⟨other, next, old, own, type, reached⟩
  · rintro (⟨other, next, member, named⟩ | ⟨type, rfl, rfl⟩)
    · exact ⟨other, next, .inr member, named⟩
    · exact ⟨plane, row, .inl ⟨rfl, rfl⟩, rfl, type, rfl⟩

theorem linked_refreshDependency {key : Id × Id} {metadata : Metadata} {threadId : Option String} :
    (tables.refreshDependency plane key metadata threadId).Linked types source target ↔ tables.Linked types source target := by
  simp only [Linked, dependencies_refreshDependency]
  constructor
  · rintro ⟨other, next, member, own, type, reached⟩
    obtain ⟨old, listed, rfl⟩ := mem_map.mp member
    refine ⟨other, old, listed, ?_⟩
    split at own <;> simp_all
  · rintro ⟨other, old, listed, own, type, reached⟩
    refine ⟨other, _, mem_map_of_mem listed, ?_⟩
    split <;> exact ⟨own, type, reached⟩

theorem schedulingAcyclic_insertDependency
    (absent : (request.issueId, request.dependsOnId) ∉ (tables.dependencies plane).map Dependency.key)
    (checked : tables.checkDependencyCycle request = .ok ()) (acyclic : tables.SchedulingAcyclic) :
    (tables.insertDependency plane (tables.newDependency request opts)).SchedulingAcyclic := by
  rw [← newDependency_key] at absent
  cases scheduling : request.type.scheduling with
  | false =>
    refine Acyclic.mono acyclic fun source target link => ?_
    refine ((linked_insertDependency absent).mp link).resolve_right fun new => ?_
    exact Bool.false_ne_true (scheduling.symm.trans new.1)
  | true =>
    have open_ := (checkDependencyCycle_ok.mp checked).2 scheduling
    refine Acyclic.mono ((acyclic_extended_iff acyclic).mpr open_) fun source target link => ?_
    refine ((linked_insertDependency absent).mp link).imp_right fun new => ⟨new.2.1, ?_⟩
    rw [new.2.2, newDependency_id]

theorem admitted_newEdge
    (admitted : tables.admitDependency request opts = .ok ()) (checks : opts.skipCycleCheck = false)
    (absent : (request.issueId, request.dependsOnId) ∉
      (tables.dependencies (tables.wispTableRouting request.issueId)).map Dependency.key) :
    NewEdge tables (tables.insertDependency (tables.wispTableRouting request.issueId) (tables.newDependency request opts))
      request opts := by
  obtain ⟨_, source, target, cycle⟩ := admitDependency_ok.mp admitted
  refine ⟨cycle checks, fun ref named => ?_, source, absent, rfl⟩
  have validated : (!hasExternalPrefix request.dependsOnId && !opts.isCrossPrefix) = true := by
    simp only [newDependency, classifyDepTarget] at named
    split at named
    · cases named
    · rename_i local_
      simp only [isExternalDepTarget, Bool.or_eq_true, not_or, Bool.not_eq_true] at local_
      simp [local_]
  have passed := target validated
  unfold checkDependencyTarget at passed
  split at passed
  · exact passed
  · cases passed

end Tables

/-- A write of the dependency rows, as a caller asks for it. An add checks for cycles. -/
inductive GraphWrite where
  | addDependency (request : DependencyRequest) (isCrossPrefix : Bool)
  | createIssues (context : BatchContext) (updatedAt : ItemRef → Nat) (issues : List NewIssue)
  | removeDependency (issueId dependsOnId : Id)
  | deleteIssues (deletedIssues deletedWisps : List Id)

namespace Store

variable {store result : Store} {session : Session}

def perform (store : Store) (session : Session) : GraphWrite → Store
  | .addDependency request isCrossPrefix => (store.addDependency session request { isCrossPrefix }).toOption.getD store
  | .createIssues context updatedAt issues => (store.createIssues session context updatedAt issues).toOption.getD store
  | .removeDependency issueId dependsOnId => (store.removeDependency session issueId dependsOnId).toOption.getD store
  | .deleteIssues deletedIssues deletedWisps => (store.deleteAll session deletedIssues deletedWisps).getD store

structure Scheduled (tables : Tables) : Prop where
  named : tables.Named
  acyclic : tables.SchedulingAcyclic

theorem getD_preserves {holds : Tables → Prop} {outcome : Option Store} (start : holds store.toTables)
    (each : ∀ result, outcome = some result → holds result.toTables) : holds (outcome.getD store).toTables := by
  cases outcome with
  | none => exact start
  | some result => exact each result rfl

theorem Scheduled.of_subset {before after : Tables} (scheduled : Scheduled before)
    (items : ∀ plane, after.items plane ⊆ before.items plane)
    (rows : ∀ plane, after.dependencies plane ⊆ before.dependencies plane) : Scheduled after where
  named := ⟨fun plane row member => scheduled.named.items plane row (items plane member),
    fun plane row member => scheduled.named.sources plane row (rows plane member)⟩
  acyclic := scheduled.acyclic.mono fun _ _ link => linked_mono rows link

theorem Scheduled.insert {before after : Tables}
    (scheduled : Scheduled before) (edge : NewEdge before after request opts) : Scheduled after := by
  rw [edge.written]
  refine ⟨⟨?_, fun plane row member => ?_⟩, schedulingAcyclic_insertDependency edge.absent edge.cycle scheduled.acyclic⟩
  · simpa using scheduled.named.items
  · cases (mem_insertDependency (newDependency_key ▸ edge.absent)).mp member with
    | inl new =>
      obtain ⟨item, listed, same⟩ := stored_iff.mp edge.source
      have id : row.issueId = item.id := by rw [new.2, same]; rfl
      exact id ▸ scheduled.named.items _ item listed
    | inr old => exact scheduled.named.sources _ row old

theorem Scheduled.refresh {tables : Tables} {plane : Plane} {key : Id × Id} {metadata : Metadata} {threadId : Option String}
    (scheduled : Scheduled tables) : Scheduled (tables.refreshDependency plane key metadata threadId) := by
  refine ⟨⟨scheduled.named.items, fun other row member => ?_⟩, scheduled.acyclic.mono fun _ _ => linked_refreshDependency.mp⟩
  rw [dependencies_refreshDependency] at member
  obtain ⟨old, listed, rfl⟩ := mem_map.mp member
  have source := scheduled.named.sources other old listed
  split <;> exact source

section

variable (scheduled : Scheduled store.toTables)
include scheduled

theorem Scheduled.rewritten {edit : DependencyEdit} (checks : edit.skipsCycleCheck = false)
    (admitted : ∀ request opts, edit = .add request opts → store.admitDependency request opts =
    .ok ()) : Scheduled (edit.rewritten store.toTables) := by
  have fits : (edit.change store.toTables).Fits store.toTables (store.wispTableRouting edit.issueId)
    := DependencyEdit.change_fits
  unfold DependencyEdit.rewritten
  cases change : edit.change store.toTables with
  | none => exact scheduled
  | refresh row metadata threadId => exact scheduled.refresh
  | delete row => exact scheduled.of_subset (fun _ => List.Subset.refl _) deleteDependency_subset
  | insert row =>
    obtain ⟨request, opts, rfl, rfl⟩ := edit.change_insert change
    rw [change, RowChange.Fits, newDependency_key] at fits
    exact scheduled.insert (admitted_newEdge (admitted request opts rfl) checks fits)

theorem Scheduled.createIssues {context : BatchContext} {updatedAt : ItemRef → Nat} {issues : List NewIssue}
    (created : store.createIssues session context updatedAt issues = .ok result) :
    Scheduled result.toTables := by
  obtain ⟨written, wrote, rest⟩ := bind_eq_ok created
  obtain ⟨tables, _⟩ := written.recompute_ok rest
  obtain ⟨rows, edges, rowsWritten, edgesWritten, rfl⟩ := writeBatch_ok wrote
  have extended : rows.Extends store := BatchState.extends_rows scheduled.named rowsWritten
  have start : Scheduled rows.tables :=
    ⟨extended.named, scheduled.acyclic.mono fun _ _ link =>
      linked_mono (fun plane => by rw [extended.dependencies]; exact List.Subset.refl _) link⟩
  rw [tables]
  refine (persistDependencies_preserves Scheduled (fun request member => ?_) extended.named
    (fun _ _ _ _ scheduled edge => scheduled.insert edge) start edgesWritten).2
  obtain ⟨issue, _, listed⟩ := mem_flatMap.mp member
  exact NewIssue.requests_named listed

theorem Scheduled.applyEdit (edit : DependencyEdit) (checks : edit.skipsCycleCheck = false) :
    Scheduled ((store.applyEdit session edit).toOption.getD store).toTables := by
  refine getD_preserves scheduled fun result returned => ?_
  obtain ⟨tables, admitted, _⟩ := applyEdit_tables (toOption_eq_some returned)
  rw [tables]
  exact scheduled.rewritten checks admitted

theorem Scheduled.perform (write : GraphWrite) : Scheduled (store.perform session write).toTables := by
  cases write with
  | addDependency request isCrossPrefix => exact scheduled.applyEdit (.add request { isCrossPrefix }) rfl
  | createIssues context updatedAt issues =>
    exact getD_preserves scheduled fun result returned => scheduled.createIssues (toOption_eq_some returned)
  | removeDependency issueId dependsOnId => exact scheduled.applyEdit (.remove issueId dependsOnId) rfl
  | deleteIssues deletedIssues deletedWisps =>
    refine getD_preserves scheduled fun result deleted => ?_
    obtain ⟨bits, _, rfl⟩ := Option.map_eq_some_iff.mp deleted
    exact scheduled.of_subset (fun _ => filter_subset_self _) fun _ => filter_subset_self _

end

def performAll (store : Store) (session : Session) (writes : List GraphWrite) : Store :=
  writes.foldl (fun store write => store.perform session write) store

theorem Scheduled.performAll (writes : List GraphWrite) (scheduled : Scheduled store.toTables) :
    Scheduled (store.performAll session writes).toTables := by
  induction writes generalizing store with
  | nil => exact scheduled
  | cons write rest ih => exact ih (scheduled.perform write)

theorem checkDependencyCycle_of_refused
    (refused : store.addDependency session request opts = .error .dependencyCycle) :
    store.checkDependencyCycle request = .error .dependencyCycle := by
  have admission : store.admitDependency request opts = .error .dependencyCycle := by
    cases admitted : store.admitDependency request opts with
    | error error =>
      rw [addDependency, admitted] at refused
      exact congrArg Except.error (Except.error.inj refused)
    | ok _ =>
      rw [addDependency, admitted, ok_bind] at refused
      dsimp only at refused
      split at refused
      · unfold readdDependency at refused
        simp only at refused
        split at refused
        · split at refused <;> cases refused
        · cases refused
      · simp only [withColumn] at refused
        split at refused
        · cases refused
        · cases refused
  have target : store.checkDependencyTarget request ≠ .error .dependencyCycle := by
    unfold checkDependencyTarget checkBlockingHierarchy
    split_ifs <;> simp
  unfold admitDependency at admission
  generalize store.checkDependencyTarget request = targetCheck at admission target
  generalize store.checkDependencyCycle request = cycleCheck at admission ⊢
  cases targetCheck <;> split_ifs at admission <;>
    simp_all [bind, Except.bind, throw, throwThe, MonadExceptOf.throw, pure, Except.pure]

/-- Every sequence of these writes keeps the scheduling graph acyclic, and where it leads an add is
refused for a cycle only if its edge would close one. -/
theorem performAll_schedulingAcyclic (session : Session) (store : Store) (writes : List GraphWrite)
    (named : store.Named) (acyclic : store.SchedulingAcyclic) :
    (store.performAll session writes).SchedulingAcyclic ∧
    ∀ request isCrossPrefix,
      (store.performAll session writes).addDependency session request { isCrossPrefix } =
        .error .dependencyCycle → request.type.scheduling = true ∧
          ¬Acyclic (extended ((store.performAll session writes).Linked DependencyType.scheduling)
            request.issueId request.dependsOnId) := by
  have kept : Scheduled (store.performAll session writes).toTables := Scheduled.performAll writes ⟨named, acyclic⟩
  refine ⟨kept.acyclic, fun request isCrossPrefix refused => ?_⟩
  obtain ⟨scheduling, back⟩ := Tables.checkDependencyCycle_cycle (checkDependencyCycle_of_refused refused)
  exact ⟨scheduling, fun still => (acyclic_extended_iff kept.acyclic).mp still back⟩

theorem chain_keyed : ∀ plane : Plane, ((match plane with
    | .issue => [⟨"bd-a", .opened⟩, ⟨"bd-b", .opened⟩, ⟨"bd-c", .opened⟩]
    | .wisp => [] : List Row).map Row.id).Nodup := by decide

/-- `bd-a` is blocked by `bd-b`; nothing else is connected. -/
def chain : Store where
  items
    | .issue => [⟨"bd-a", .opened⟩, ⟨"bd-b", .opened⟩, ⟨"bd-c", .opened⟩]
    | .wisp => []
  itemsKeyed := chain_keyed
  dependencies
    | .issue => [⟨"bd-a", .item ⟨.issue, "bd-b"⟩, .blocks, {}, none⟩]
    | .wisp => []
  isBlocked ref := ref == ⟨.issue, "bd-a"⟩

theorem chain_acyclic : chain.SchedulingAcyclic := by
  refine Acyclic.of_rank (fun id => if id = "bd-a" then 0 else 1) fun source target ⟨plane, row, member, own, _, reached⟩ => ?_
  subst own reached
  have ranked : ∀ plane, ∀ row ∈ chain.dependencies plane,
      (if row.issueId = "bd-a" then 0 else 1) < if row.target.id = "bd-a" then 0 else 1 := by decide
  exact ranked plane row member

theorem chain_closing_refused :
    (chain.performAll ⟨4, false⟩ [.addDependency ⟨"bd-b", "bd-c", .parentChild, {}, ""⟩ false]).SchedulingAcyclic ∧
    ¬Acyclic (extended ((chain.performAll ⟨4, false⟩ [.addDependency ⟨"bd-b", "bd-c", .parentChild, {}, ""⟩ false]).Linked
      DependencyType.scheduling) "bd-c" "bd-a") := by
  have kept := performAll_schedulingAcyclic ⟨4, false⟩ chain [.addDependency ⟨"bd-b", "bd-c", .parentChild, {}, ""⟩ false]
    ⟨by decide, by decide⟩ chain_acyclic
  exact ⟨kept.1, (kept.2 ⟨"bd-c", "bd-a", .blocks, {}, ""⟩ false rfl).2⟩

end Store

end Beads
