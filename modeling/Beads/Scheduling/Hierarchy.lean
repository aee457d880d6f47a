import Beads.Scheduling.Acyclic
import Beads.Scheduling.ApplyBatch

namespace Beads

open EdgeInsertion Fallible Relation Tables DependencyEdit List

namespace Tables

variable (tables : Tables)

def parentLink : Id → Id → Prop := tables.Linked (· == .parentChild)

def Related (one other : Id) : Prop := TransGen tables.parentLink one other ∨ TransGen tables.parentLink other one

def HierarchyFree : Prop := ∀ source target, tables.Linked DependencyType.blocking source target → ¬tables.Related source target

/-- One of the ids is at or below the child and the other at or above the parent. -/
def Joined (child parent one other : Id) : Prop :=
  ReflTransGen tables.parentLink one child ∧ ReflTransGen tables.parentLink parent other ∨
    ReflTransGen tables.parentLink other child ∧ ReflTransGen tables.parentLink parent one

/-- The parent-child edge that the request asks for joins no blocking edge of the tables, but
perhaps ones it added itself. -/
def Unjoined (own : Id → Id → Prop) (child parent : Id) : Prop :=
  ∀ source target, tables.Linked DependencyType.blocking source target → own source target ∨
    ¬tables.Joined child parent source target

def LinksWithin (after tables : Tables) : Prop :=
  ∀ types source target, after.Linked types source target → tables.Linked types source target

def FreeBut (own : Id → Id → Prop) : Prop :=
  ∀ source target, tables.Linked DependencyType.blocking source target → own source target ∨ ¬tables.Related source target

variable {tables} {after : Tables} {child parent one other : Id} {request : DependencyRequest} {own : Id → Id → Prop}

theorem Related.mono (within : ∀ a b, after.parentLink a b → tables.parentLink a b)
    (related : after.Related one other) : tables.Related one other :=
  related.imp (fun path => TransGen.mono within _ _ path) fun path => TransGen.mono within _ _ path

theorem FreeBut.mono (free : tables.FreeBut own) (within : after.LinksWithin tables) : after.FreeBut own :=
  fun source target link => (free source target (within _ source target link)).imp_right fun unrelated related =>
    unrelated (related.mono fun _ _ parent => within _ _ _ parent)

theorem freeBut_none : tables.FreeBut (fun _ _ => False) ↔ tables.HierarchyFree :=
  forall₃_congr fun _ _ _ => iff_of_eq (false_or _)

theorem Unjoined.mono (unjoined : tables.Unjoined own child parent)
    (within : after.LinksWithin tables) : after.Unjoined own child parent := by
  have paths : ∀ {one other}, ReflTransGen after.parentLink one other → ReflTransGen tables.parentLink one other :=
    fun path => ReflTransGen.mono (fun _ _ link => within _ _ _ link) _ _ path
  intro source target link
  refine (unjoined source target (within _ _ _ link)).imp_right fun apart joined => apart ?_
  exact joined.imp (fun both => ⟨paths both.1, paths both.2⟩) fun both => ⟨paths both.1, paths both.2⟩

theorem related_extended_iff (links : ∀ a b, after.parentLink a b ↔ extended tables.parentLink child parent a b) :
    after.Related one other ↔ tables.Related one other ∨ tables.Joined child parent one other := by
  have same : after.parentLink = extended tables.parentLink child parent := funext₂ fun a b => propext (links a b)
  simp only [Related, Joined, same, proper_path_extended_iff]
  tauto

theorem checkBlockingHierarchy_ok (blocking : request.type.blocking = true) (proper : request.issueId ≠ request.dependsOnId)
    (passed : tables.checkBlockingHierarchy request = .ok ()) : ¬tables.Related request.issueId request.dependsOnId := by
  unfold checkBlockingHierarchy at passed
  simp only [blocking, Bool.not_true, Bool.false_or, beq_eq_false_iff_ne.mpr proper, Bool.false_eq_true, if_false] at passed
  split_ifs at passed with above below
  rw [isAncestor_iff] at above below
  intro related
  exact related.elim (fun path => above path.to_reflTransGen) fun path => below path.to_reflTransGen

end Tables

namespace Store

variable {store result : Store} {session : Session} {request : DependencyRequest}
  {opts : AddDependencyOpts} {source target : Id} {own more : Id → Id → Prop}

section

variable (added : store.addDependency session request opts = .ok result)
include added

theorem addDependency_linked (types : DependencyType → Bool) :
    result.Linked types source target ↔ store.Linked types source target ∨
      types request.type = true ∧ source = request.issueId ∧ target = request.dependsOnId := by
  have applied : store.applyEdit session (.add request opts) = .ok result := added
  obtain ⟨tables, admitted, _⟩ := applyEdit_tables applied
  rw [tables, rewritten]
  cases found : store.existingDependency (store.wispTableRouting request.issueId) request.issueId request.dependsOnId with
  | none =>
    have change : (add request opts).change store.toTables = .insert (store.newDependency request opts) := by
      simp only [change, found]
    have absent := existingDependency_eq_none found
    rw [← newDependency_key] at absent
    rw [change, RowChange.apply, issueId, linked_insertDependency absent, newDependency_id]
    rfl
  | some row =>
    obtain ⟨member, key⟩ := existingDependency_eq_some found
    have readded : store.readdDependency (store.wispTableRouting request.issueId) request row = .ok result := by
      simpa [addDependency, admitted request opts rfl, found, bind, Except.bind] using added
    have type : row.type = request.type := by
      by_contra differs
      simp [readdDependency, differs] at readded
    have kept : (((add request opts).change store.toTables).apply store.toTables
        (store.wispTableRouting (add request opts).issueId)).Linked types source target ↔
        store.Linked types source target := by
      simp only [change, found]
      split
      · rfl
      · exact linked_refreshDependency
    rw [kept]
    refine ⟨.inl, ?_⟩
    rintro (linked | ⟨kind, sourceIs, targetIs⟩)
    · exact linked
    obtain ⟨own, reached⟩ := Prod.mk.inj key
    exact ⟨_, row, member, own.trans sourceIs.symm, type ▸ kind, reached.trans targetIs.symm⟩

theorem addDependency_admitted : store.admitDependency request opts = .ok () :=
  (applyEdit_tables (show store.applyEdit session (.add request opts) = .ok result from added)).2.1 request opts rfl

theorem addDependency_unrelated
    (blocking : request.type.blocking = true) (proper : request.issueId ≠ request.dependsOnId)
    (inDatabase : isExternalDepTarget request.issueId request.dependsOnId = false) (samePrefix : opts.isCrossPrefix = false) :
    ¬store.Related request.issueId request.dependsOnId := by
  obtain ⟨_, _, target, _⟩ := admitDependency_ok.mp (addDependency_admitted added)
  have inner := (Bool.or_eq_false_iff.mp inDatabase).1
  have passed := target (by simp [inner, samePrefix])
  unfold checkDependencyTarget at passed
  split at passed
  · exact checkBlockingHierarchy_ok blocking proper passed
  · cases passed

theorem addDependency_proper (checks : opts.skipCycleCheck = false) :
    request.issueId ≠ request.dependsOnId := by
  obtain ⟨_, _, _, cycle⟩ := admitDependency_ok.mp (addDependency_admitted added)
  exact (checkDependencyCycle_ok.mp (cycle checks)).1

theorem addDependency_parentLink
    (type : request.type ≠ .parentChild) (one other : Id) : result.parentLink one other ↔ store.parentLink one other := by
  rw [parentLink, parentLink, addDependency_linked added, beq_eq_false_iff_ne.mpr type]
  simp

theorem addDependency_joins (type : request.type = .parentChild) {one other : Id} :
    result.Related one other ↔ store.Related one other ∨ store.Joined request.issueId request.dependsOnId one other := by
  refine related_extended_iff fun source target => ?_
  rw [parentLink, parentLink, addDependency_linked added]
  simp [extended, type]

theorem addDependency_freeBut (free : store.FreeBut own) (grows : own ≤ more)
    (blocked : request.type.blocking = true → more request.issueId request.dependsOnId ∨
      ¬store.Related request.issueId request.dependsOnId)
    (unjoined : request.type = .parentChild → store.Unjoined own request.issueId request.dependsOnId) : result.FreeBut more := by
  intro source target link
  by_cases type : request.type = .parentChild
  · have old : store.Linked DependencyType.blocking source target := by
      refine ((addDependency_linked added _).mp link).resolve_right fun new => ?_
      rw [type] at new
      exact absurd new.1 nofun
    rw [addDependency_joins added type]
    cases free source target old with
    | inl mine => exact .inl (grows _ _ mine)
    | inr unrelated =>
      refine (unjoined type source target old).imp (fun mine => grows _ _ mine) fun apart related => ?_
      exact related.elim unrelated apart
  · have same : result.Related source target → store.Related source target :=
      Tables.Related.mono fun one other => (addDependency_parentLink added type one other).mp
    cases (addDependency_linked added _).mp link with
    | inl old => exact (free source target old).imp (fun mine => grows _ _ mine) fun unrelated related => unrelated (same related)
    | inr new =>
      obtain ⟨blocking, rfl, rfl⟩ := new
      exact (blocked blocking).imp_right fun unrelated related => unrelated (same related)

theorem addDependency_hierarchyFree_iff (free : store.HierarchyFree) (checks : opts.skipCycleCheck = false)
    (inDatabase : isExternalDepTarget request.issueId request.dependsOnId = false)
    (samePrefix : opts.isCrossPrefix = false) : result.HierarchyFree ↔
      (request.type = .parentChild → store.Unjoined (fun _ _ => False) request.issueId request.dependsOnId) := by
  constructor
  · intro after type source target link
    have kept := (addDependency_linked added _).mpr (.inl link)
    exact .inr fun joined => after source target kept ((addDependency_joins added type).mpr (.inr joined))
  · intro unjoined
    refine freeBut_none.mp (addDependency_freeBut added (freeBut_none.mpr free) le_rfl (fun blocking => .inr ?_) unjoined)
    exact addDependency_unrelated added blocking (addDependency_proper added checks) inDatabase samePrefix

end

theorem removeDependency_linked {issueId dependsOnId : Id}
    (removed : store.removeDependency session issueId dependsOnId = .ok result) :
    result.LinksWithin store.toTables := by
  intro types source target link
  have applied : store.applyEdit session (.remove issueId dependsOnId) = .ok result := removed
  rw [(applyEdit_tables applied).1, rewritten, change] at link
  split at link
  · exact link
  · exact linked_mono deleteDependency_subset link

theorem applyParentPatch_freeBut {id parent : Id} (patched : store.applyParentPatch session id parent = .ok result)
    (free : store.FreeBut own) (unjoined : parent ≠ "" → store.Unjoined own id parent) : result.FreeBut own := by
  obtain ⟨cleared, removed, added⟩ := bind_eq_ok patched
  have within : cleared.LinksWithin store.toTables := by
    refine foldlM_preserves (fun next : Store => next.LinksWithin store.toTables)
      (fun _ _ state next kept step types source target link => ?_) (fun _ _ _ link => link) removed
    exact kept types source target (removeDependency_linked step types source target link)
  have start : cleared.FreeBut own := free.mono within
  by_cases clears : parent = ""
  · simp only [clears, beq_self_eq_true, if_true, filter_nil, foldlM_nil] at added
    cases added
    exact start
  · simp only [beq_eq_false_iff_ne.mpr clears, Bool.false_eq_true, if_false] at added
    cases listed : (store.parentsOf id).contains parent with
    | false =>
      simp only [filter_cons, listed, Bool.not_false, if_true, filter_nil, foldlM_cons] at added
      obtain ⟨next, step, ⟨⟩⟩ := bind_eq_ok added
      refine addDependency_freeBut step start le_rfl (by rintro ⟨⟩) fun _ => ?_
      exact (unjoined clears).mono within
    | true =>
      simp only [filter_cons, listed, Bool.not_true, Bool.false_eq_true, if_false, filter_nil] at added
      cases added
      exact start

theorem createIssue_rows {context : BatchContext} {state next : BatchState} {issue : NewIssue}
    (step : createIssue context state issue = .ok next) :
    next.tables.dependencies = state.tables.dependencies ∧ next.accepted ⊆ state.accepted ++ [issue] := by
  have own : state.accepted ⊆ state.accepted ++ [issue] := subset_append_left _ _
  simp only [createIssue] at step
  split_ifs at step
  · exact Except.ok.inj step ▸ ⟨rfl, List.Subset.refl _⟩
  · exact Except.ok.inj step ▸ ⟨dependencies_insertItem, List.Subset.refl _⟩
  · exact Except.ok.inj step ▸ ⟨rfl, List.Subset.refl _⟩
  · exact Except.ok.inj step ▸ ⟨rfl, own⟩
  · exact Except.ok.inj step ▸ ⟨rfl, List.Subset.refl _⟩
  · exact Except.ok.inj step ▸ ⟨rfl, List.Subset.refl _⟩

theorem createIssues_linked {context : BatchContext} {updatedAt : ItemRef → Nat} {issue : NewIssue}
    (edgeless : issue.dependencies = []) (created : store.createIssues session context updatedAt [issue] = .ok result) :
    result.LinksWithin store.toTables := by
  intro types source target link
  obtain ⟨written, wrote, rest⟩ := bind_eq_ok created
  obtain ⟨tables, _⟩ := written.recompute_ok rest
  obtain ⟨rows, edges, rowsWritten, edgesWritten, rfl⟩ := writeBatch_ok wrote
  have kept : rows.tables.dependencies = store.dependencies ∧ ∀ other ∈ rows.accepted, other = issue := by
    refine foldlM_preserves (fun state : BatchState => state.tables.dependencies = store.dependencies ∧
      ∀ other ∈ state.accepted, other = issue) (fun other member state next kept step => ?_) ⟨rfl, forall_mem_nil _⟩ rowsWritten
    obtain ⟨same, accepted⟩ := createIssue_rows step
    refine ⟨same.trans kept.1, fun row listed => ?_⟩
    cases mem_append.mp (accepted listed) with
    | inl old => exact kept.2 row old
    | inr new => exact (mem_singleton.mp new).trans (mem_singleton.mp member)
  have none : rows.accepted.flatMap NewIssue.requests = [] := by
    refine flatMap_eq_nil_iff.mpr fun other member => ?_
    rw [kept.2 other member, NewIssue.requests, edgeless, map_nil]
  rw [none] at edgesWritten
  cases edgesWritten
  rw [tables] at link
  exact linked_mono (fun plane => by rw [kept.1]; exact List.Subset.refl _) link

theorem close_linked {id : Id} (closed : store.close session id = some result) : result.LinksWithin store.toTables := by
  intro types source target link
  obtain ⟨effect, transacted, rfl⟩ := Option.map_eq_some_iff.mp closed
  obtain ⟨bits, _, rfl⟩ := Option.map_eq_some_iff.mp transacted
  have same : (((store.closeIssue id).change.apply store.toTables)).dependencies = store.dependencies := by
    simp only [closeIssue]
    split <;> rfl
  exact linked_mono (fun plane => by rw [← same]; exact List.Subset.refl _) link

end Store

def ApplyItem.parentEdge : ApplyItem → Option (Id × Id)
  | .create _ => none
  | .update id parent => (parent.filter (· != "")).map fun parent => (id, parent)
  | .close _ => none
  | .depAdd request => if request.type == .parentChild then some (request.issueId, request.dependsOnId) else none

def ApplyItem.InDatabase : ApplyItem → Prop
  | .depAdd request => isExternalDepTarget request.issueId request.dependsOnId = false
  | _ => True

namespace ApplyBatchRun

variable {run next : ApplyBatchRun} {session : Session} {plan : ApplyBatchPlan} {index : Nat} {item : ApplyItem}

def Own (run : ApplyBatchRun) (source target : Id) : Prop :=
  ∃ edge ∈ run.edges, edge.2.type.blocking = true ∧ source = edge.2.issueId ∧ target = edge.2.dependsOnId

/-- The item's parent-child edge joins no blocking edge that was there before the request. -/
def Keeps (run : ApplyBatchRun) (item : ApplyItem) : Prop :=
  ∀ edge, item.parentEdge = some edge → run.store.Unjoined run.Own edge.1 edge.2

/-- Every blocking edge is free of the hierarchy, but perhaps those the end gate
is going to check. -/
structure Free (run : ApplyBatchRun) : Prop where
  edges : ∀ edge ∈ run.edges, edge.2.issueId ≠ edge.2.dependsOnId ∧ isExternalDepTarget edge.2.issueId edge.2.dependsOnId = false
  blocking : run.store.FreeBut run.Own

theorem applyDepAdd_free {request : DependencyRequest} (free : run.Free) (keeps : run.Keeps (.depAdd request))
    (inDatabase : isExternalDepTarget request.issueId request.dependsOnId = false)
    (applied : run.applyDepAdd session plan index request = .ok next) : next.Free := by
  unfold applyDepAdd at applied
  split_ifs at applied with itself
  simp only at applied
  split at applied
  · rename_i store added
    cases applied
    have proper : request.issueId ≠ request.dependsOnId := by simpa using itself
    refine ⟨fun edge member => ?_, ?_⟩
    · cases mem_append.mp member with
      | inl old => exact free.edges edge old
      | inr new => exact mem_singleton.mp new ▸ ⟨proper, inDatabase⟩
    · refine Store.addDependency_freeBut added free.blocking ?_ (fun blocking => .inl ?_) fun type => ?_
      · intro source target ⟨edge, member, own⟩
        exact ⟨edge, mem_append_left _ member, own⟩
      · exact ⟨(index, request), mem_append_right _ (.head _), blocking, rfl, rfl⟩
      · exact keeps (request.issueId, request.dependsOnId) (by simp [ApplyItem.parentEdge, type])
  · cases applied

theorem applyItem_free (free : run.Free) (keeps : run.Keeps item) (inDatabase : item.InDatabase)
    (applied : run.applyItem session plan index item = .ok next) : next.Free := by
  unfold applyItem at applied
  split_ifs at applied
  cases item with
  | create issue =>
    simp only [applyCreate] at applied
    split at applied
    · rename_i store created
      cases applied
      exact ⟨free.edges, free.blocking.mono (Store.createIssues_linked rfl created)⟩
    · cases applied
  | update id parent =>
    cases parent with
    | none => exact Except.ok.inj applied ▸ free
    | some parent =>
      simp only [applyUpdate] at applied
      split at applied
      · rename_i store patched
        cases applied
        refine ⟨free.edges, Store.applyParentPatch_freeBut patched free.blocking fun names => ?_⟩
        exact keeps (id, parent) (by simp [ApplyItem.parentEdge, names])
      · cases applied
  | close id =>
    simp only [applyClose] at applied
    split at applied
    · rename_i store closed
      cases applied
      exact ⟨free.edges, free.blocking.mono (Store.close_linked closed)⟩
    · cases applied
  | depAdd request => exact applyDepAdd_free free keeps inDatabase applied

theorem runEndGate_free (free : run.Free) (passed : run.runEndGate = .ok ()) : run.store.HierarchyFree := by
  have checked : ∀ edge ∈ run.edges, run.store.checkBlockingHierarchy edge.2 = .ok () := by
    intro edge member
    cases closes : run.closesCycle with
    | true =>
      rw [runEndGate, closes] at passed
      cases passed
    | false =>
    simp only [runEndGate, closes, Bool.false_eq_true, if_false] at passed
    have here := forM_ok passed edge member
    simp only [(free.edges edge member).2, Bool.false_eq_true, if_false] at here
    split at here
    · assumption
    · cases here
  intro source target link
  refine (free.blocking source target link).elim (fun own => ?_) id
  obtain ⟨edge, member, blocking, rfl, rfl⟩ := own
  exact checkBlockingHierarchy_ok blocking (free.edges edge member).1 (checked edge member)

end ApplyBatchRun

def ApplyBatchPlan.Keeps (plan : ApplyBatchPlan) (session : Session) : List (ApplyItem × Nat) → ApplyBatchRun → Prop
  | [], _ => True
  | item :: rest, run => run.Keeps item.1 ∧ ∀ next, plan.step session run item = .ok next → plan.Keeps session rest next

theorem ApplyBatchPlan.items_free {plan : ApplyBatchPlan} {session : Session}
    {items : List (ApplyItem × Nat)} {run last : ApplyBatchRun}
    (free : run.Free) (inDatabase : ∀ item ∈ items, item.1.InDatabase) (keeps : plan.Keeps session items run)
    (finished : items.foldlM (plan.step session) run = .ok last) : last.Free := by
  induction items generalizing run with
  | nil => exact Except.ok.inj finished ▸ free
  | cons item rest ih =>
    obtain ⟨next, step, later⟩ := bind_eq_ok finished
    refine ih ?_ (fun other member => inDatabase other (.tail _ member)) (keeps.2 next step) later
    unfold ApplyBatchPlan.step at step
    split at step
    · rename_i applied
      cases step
      exact ApplyBatchRun.applyItem_free free keeps.1 (inDatabase item (.head _)) applied
    · cases step

inductive HierarchyRequest where
  | addDependency (request : DependencyRequest)
  | applyBatch (plan : ApplyBatchPlan)

namespace HierarchyRequest

def InDatabase : HierarchyRequest → Prop
  | .addDependency request => isExternalDepTarget request.issueId request.dependsOnId = false
  | .applyBatch plan => ∀ item ∈ plan.items, item.InDatabase

/-- No parent-child edge of the request joins the ends of a blocking edge that
another request has added. -/
def Unjoining (session : Session) (store : Store) : HierarchyRequest → Prop
  | .addDependency request => request.type = .parentChild → store.Unjoined (fun _ _ => False) request.issueId request.dependsOnId
  | .applyBatch plan => plan.Keeps session plan.items.zipIdx { store }

end HierarchyRequest

namespace Store

variable {store result : Store} {session : Session} {requests : List HierarchyRequest}

def serve (session : Session) (store : Store) : HierarchyRequest → Option Store
  | .addDependency request => (store.addDependency session request {}).toOption
  | .applyBatch plan => (store.applyBatch session plan).toOption

def serveAll (session : Session) (store : Store) (requests : List HierarchyRequest) : Option Store :=
  requests.foldlM (serve session) store

def Unjoining (session : Session) : Store → List HierarchyRequest → Prop
  | _, [] => True
  | store, request :: rest => request.Unjoining session store ∧
      ∀ next, store.serve session request = some next → next.Unjoining session rest

theorem applyBatch_hierarchyFree {plan : ApplyBatchPlan} (free : store.HierarchyFree)
    (inDatabase : ∀ item ∈ plan.items, item.InDatabase)
    (keeps : plan.Keeps session plan.items.zipIdx { store })
    (applied : store.applyBatch session plan = .ok result) : result.HierarchyFree := by
  obtain ⟨run, finished, rest⟩ := bind_eq_ok applied
  obtain ⟨_, passed, same⟩ := bind_eq_ok rest
  have start : ApplyBatchRun.Free { store } :=
    ⟨nofun, fun source target link => .inr (free source target link)⟩
  have each : ∀ item ∈ plan.items.zipIdx, item.1.InDatabase := fun item member =>
    inDatabase item.1 (fst_mem_of_mem_zipIdx member)
  exact Except.ok.inj same ▸ ApplyBatchRun.runEndGate_free (ApplyBatchPlan.items_free start each keeps finished) passed

theorem serve_hierarchyFree {request : HierarchyRequest} (free : store.HierarchyFree) (inDatabase : request.InDatabase)
    (unjoining : request.Unjoining session store)
    (served : store.serve session request = some result) : result.HierarchyFree := by
  cases request with
  | addDependency request =>
    exact (addDependency_hierarchyFree_iff (toOption_eq_some served) free rfl inDatabase rfl).mpr unjoining
  | applyBatch plan => exact applyBatch_hierarchyFree free inDatabase unjoining (toOption_eq_some served)

/-- A sequence of successful requests keeps the blocking edges free of the hierarchy as long as no
parent-child edge joins the ends of a blocking edge from another request; an add that does so breaks
it. -/
theorem serveAll_hierarchyFree (session : Session) (store : Store) (free : store.HierarchyFree) :
    (∀ requests result, (∀ request ∈ requests, HierarchyRequest.InDatabase request) → store.Unjoining session requests →
      store.serveAll session requests = some result → result.HierarchyFree) ∧
    ∀ request result, isExternalDepTarget request.issueId request.dependsOnId = false →
      store.addDependency session request {} = .ok result →
      (result.HierarchyFree ↔ HierarchyRequest.Unjoining session store (.addDependency request)) := by
  constructor
  · intro requests result inDatabase unjoining served
    induction requests generalizing store with
    | nil => exact Option.some.inj served ▸ free
    | cons request rest ih =>
      obtain ⟨next, here, later⟩ := Option.bind_eq_some_iff.mp served
      have kept := serve_hierarchyFree free (inDatabase request (.head _)) unjoining.1 here
      exact ih next kept (fun other member => inDatabase other (.tail _ member)) (unjoining.2 next here) later
  · intro request result inDatabase added
    exact addDependency_hierarchyFree_iff added free rfl inDatabase rfl

def unrelated : Store where
  items
    | .issue => [⟨"bd-x", .opened⟩, ⟨"bd-m", .opened⟩, ⟨"bd-y", .opened⟩]
    | .wisp => []
  dependencies _ := []
  isBlocked _ := false

theorem unrelated_free : unrelated.HierarchyFree := fun _ _ ⟨_, _, member, _⟩ => absurd member nofun

theorem unrelated_chain_free : ∃ result, unrelated.serveAll ⟨4, false⟩
      [.addDependency ⟨"bd-x", "bd-m", .parentChild, {}, ""⟩,
    .addDependency ⟨"bd-x", "bd-y", .blocks, {}, ""⟩] = some result ∧ result.HierarchyFree := by
  have unjoining : unrelated.Unjoining ⟨4, false⟩
      [.addDependency ⟨"bd-x", "bd-m", .parentChild, {}, ""⟩, .addDependency ⟨"bd-x", "bd-y", .blocks, {}, ""⟩] :=
    ⟨fun _ _ _ ⟨_, _, member, _⟩ => absurd member nofun, fun _ _ => ⟨fun type => absurd type nofun, fun _ _ => trivial⟩⟩
  refine ⟨_, rfl, (serveAll_hierarchyFree ⟨4, false⟩ unrelated unrelated_free).1 _ _ (fun request member => ?_) unjoining rfl⟩
  rcases mem_pair.mp member with rfl | rfl <;> rfl

/-- `bd-x` is blocked by `bd-y`, and then `bd-y` becomes the parent of the parent of `bd-x`. -/
theorem unrelated_chain_joined : unrelated.HierarchyFree ∧ ∃ result, unrelated.serveAll ⟨4, false⟩
      [.addDependency ⟨"bd-x", "bd-y", .blocks, {}, ""⟩, .addDependency ⟨"bd-x", "bd-m", .parentChild, {}, ""⟩,
        .addDependency ⟨"bd-m", "bd-y", .parentChild, {}, ""⟩] = some result ∧ ¬result.HierarchyFree := by
  refine ⟨unrelated_free, _, rfl, fun free => free "bd-x" "bd-y" ⟨.issue, by decide⟩ (.inl ?_)⟩
  exact .tail (.single (b := "bd-m") ⟨.issue, by decide⟩) ⟨.issue, by decide⟩

end Store

end Beads
