import Beads.Dependencies.Maintenance

namespace Beads

/-- What an edit does to the source's dependency table. -/
inductive RowChange where
  | none
  | insert (row : Dependency)
  | refresh (row : Dependency) (metadata : Metadata) (threadId : Option String)
  | delete (row : Dependency)

open Tables

namespace RowChange

variable (tables : Tables) (plane : Plane)

def apply : RowChange → Tables
  | .none => tables
  | .insert row => tables.insertDependency plane row
  | .refresh row metadata threadId => tables.refreshDependency plane row.key metadata threadId
  | .delete row => tables.deleteDependency plane row.key

def column (session : Session) (bits : Bits) : RowChange → Option Bits
  | .none => some bits
  | .insert row => (tables.insertDependency plane row).maintainNewDependency session ⟨plane, row.issueId⟩ row bits
  | .refresh _ _ _ => some bits
  | .delete row =>
    let deleted := tables.deleteDependency plane row.key
    deleted.recomputeSeeds session false (deleted.affectedByDepChangeOf ⟨plane, row.issueId⟩ row.target.id row.type) bits

def reachedBy (after : Tables) (row : Dependency) : Set ItemRef :=
  {ref | (∀ name, row.type ≠ .other name) ∧ after.AtOrBelow (after.depSeeds ⟨plane, row.issueId⟩ row.target.id row.type) ∅ ref}

def reached : RowChange → Set ItemRef
  | .none => ∅
  | .insert row => reachedBy plane (tables.insertDependency plane row) row
  | .refresh _ _ _ => ∅
  | .delete row => reachedBy plane (tables.deleteDependency plane row.key) row

/-- The changes that can reach further than their maintenance: a refreshed waits-for row whose gate
moves, and a parent-child row of an item that has another one, or one that names the empty id. -/
def Suspect : RowChange → Prop
  | .none => False
  | .insert row => row.type = .parentChild ∧ (row.target.id = "" ∨ ¬tables.Rootless row.issueId)
  | .refresh row metadata _ =>
    row.type = .waitsFor ∧ tables.waitsForGateBlocked { row with metadata } ≠ tables.waitsForGateBlocked row
  | .delete row =>
    row.type = .parentChild ∧ (row.target.id = "" ∨ ¬(tables.deleteDependency plane row.key).Rootless row.issueId)

/-- The row of the change is where the edit found it, or is not there yet. -/
def Fits : RowChange → Prop
  | .none => True
  | .insert row => row.key ∉ (tables.dependencies plane).map Dependency.key
  | .refresh row _ _ => row ∈ tables.dependencies plane
  | .delete row => row ∈ tables.dependencies plane

variable {tables plane} {change : RowChange} {row : Dependency} {bits result : Bits} {session : Session}

theorem items_apply : (change.apply tables plane).items = tables.items := by
  cases change with
  | none => rfl
  | insert row => exact items_insertDependency
  | refresh row metadata threadId | delete row => rfl

theorem stored_apply (ref : ItemRef) : (change.apply tables plane).stored ref = tables.stored ref := by
  simp only [stored, items_apply]

section

variable (fits : row ∈ tables.dependencies plane)
include fits

theorem row_of_key {next : Dependency} (member : next ∈ tables.dependencies plane) (key : next.key = row.key) : next = row :=
  List.inj_on_of_nodup_map (tables.dependenciesKeyed plane) member fits key

theorem refresh_contained {metadata : Metadata} {threadId : Option String}
    (gate : row.type = .waitsFor → tables.waitsForGateBlocked { row with metadata } = tables.waitsForGateBlocked row) :
    Tables.Contained tables (tables.refreshDependency plane row.key metadata threadId) ∅ := by
  let after := tables.refreshDependency plane row.key metadata threadId
  have same : Tables.SameHierarchy tables after := sameHierarchy_refresh
  have edits : Tables.EditsRowsOf tables after ⟨plane, row.issueId⟩ := editsRowsOf_refresh
  have reasons := same.blockingReason edits.items
  -- The refreshed row is a reason exactly when the old one was.
  have refreshed : tables.blockingReason { row with metadata, threadId } = tables.blockingReason row := by
    by_cases waits : row.type = .waitsFor
    · have moved : tables.waitsForGateBlocked { row with metadata, threadId } = tables.waitsForGateBlocked row := gate waits
      simp only [blockingReason, moved]
      rfl
    · have plain : (row.type == .waitsFor) = false := beq_eq_false_iff_ne.mpr waits
      simp only [blockingReason, plain, Bool.false_and]
      rfl
  intro ref _ _
  constructor
  · refine edits.shouldBeBlocked_mono same fun next member own reason => ?_
    refine ⟨if next.key = row.key then { next with metadata, threadId } else next, ?_, ?_, ?_, ?_⟩
    · rw [dependencies_refreshDependency]
      exact List.mem_map.mpr ⟨next, member, by simp⟩
    · split <;> exact own
    · split <;> rfl
    · rw [← reasons]
      split
      · rename_i key
        rw [row_of_key fits member key, refreshed, ← row_of_key fits member key, reason]
      · exact reason
  · refine edits.symm.shouldBeBlocked_mono same.symm fun next member own reason => ?_
    rw [dependencies_refreshDependency] at member
    obtain ⟨old, listed, image⟩ := List.mem_map.mp member
    rw [← reasons] at reason
    by_cases key : old.key = row.key
    · rw [if_pos ⟨rfl, key⟩] at image
      have here := row_of_key fits listed key
      subst here image
      exact ⟨old, listed, own, rfl, refreshed ▸ reason⟩
    · rw [if_neg fun both => key both.2] at image
      subst image
      exact ⟨old, listed, own, rfl, reason⟩

theorem delete_contained (type : row.type ≠ .parentChild) :
    Tables.Contained tables (tables.deleteDependency plane row.key)
      (reachedBy plane (tables.deleteDependency plane row.key) row) := by
  let after := tables.deleteDependency plane row.key
  have same : Tables.SameHierarchy tables after :=
    sameHierarchy_delete fun next member key => row_of_key fits member key ▸ type
  have edits : Tables.EditsRowsOf tables after ⟨plane, row.issueId⟩ := editsRowsOf_delete
  intro ref _ free
  rw [reachedBy, depSeeds_of_ne type] at free
  refine edits.shouldBeBlocked same (fun next other => ?_) free
  rw [dependencies_deleteDependency, List.mem_filter]
  refine ⟨fun member => ⟨member, ?_⟩, And.left⟩
  have apart : next.key ≠ row.key := fun key => other (row_of_key fits member key)
  simpa using apart

end

theorem rehangs_contained {after : Tables} (moved : Tables.Rehangs tables after ⟨plane, row.issueId⟩ row.target)
    (type : row.type = .parentChild) (named : row.target.id ≠ "") :
    Tables.Contained tables after (reachedBy plane after row) := by
  intro ref _ free
  refine moved.shouldBeBlocked named fun reached => free ⟨by simp [type], ?_⟩
  rw [type]
  exact reached

/-- Every change of a row that is no new edge of another type is contained unless it is suspect. -/
theorem contained_iff (fits : change.Fits tables plane) (structural : ∀ row, change = .insert row → row.type = .parentChild) :
    Tables.Contained tables (change.apply tables plane) (change.reached tables plane) ↔
      (change.Suspect tables plane → Tables.Contained tables (change.apply tables plane) (change.reached tables plane)) := by
  refine ⟨fun contained _ => contained, fun whenSuspect => ?_⟩
  by_cases suspect : change.Suspect tables plane
  · exact whenSuspect suspect
  · cases change with
    | none => exact fun _ _ _ => Iff.rfl
    | refresh row metadata threadId =>
      refine refresh_contained fits fun waits => ?_
      by_contra moved
      exact suspect ⟨waits, moved⟩
    | insert row =>
      have type := structural row rfl
      have clean := not_or.mp fun bad => suspect ⟨type, bad⟩
      exact rehangs_contained ((hangs_insert fits type).rehangs_added (not_not.mp clean.2)) type clean.1
    | delete row =>
      by_cases type : row.type = .parentChild
      · have clean := not_or.mp fun bad => suspect ⟨type, bad⟩
        exact rehangs_contained ((hangs_delete fits type).rehangs_removed (not_not.mp clean.2)) type clean.1
      · exact delete_contained fits type

theorem column_consistent_iff (fits : change.Fits tables plane) (wasAcyclic : tables.ParentChildAcyclic)
    (acyclic : (change.apply tables plane).ParentChildAcyclic) (consistent : tables.countIsBlockedInconsistencies bits = 0)
    (returned : change.column tables plane session bits = some result) :
    (change.apply tables plane).countIsBlockedInconsistencies result = 0 ↔
      (change.Suspect tables plane → Tables.Contained tables (change.apply tables plane) (change.reached tables plane)) := by
  have kept : ∀ ref ∉ change.reached tables plane, (change.apply tables plane).stored ref = true → tables.stored ref = true :=
    fun ref _ present => (stored_apply ref).symm.trans present
  by_cases structural : ∀ row, change = .insert row → row.type = .parentChild
  · rw [← contained_iff fits structural]
    cases change with
    | none =>
      cases returned
      exact iff_of_true consistent fun _ _ _ => Iff.rfl
    | refresh row metadata threadId =>
      cases returned
      have right := (consistent_iff_settled wasAcyclic).mp consistent
      rw [consistent_iff_settled acyclic]
      refine forall₂_congr fun ref present => ?_
      rw [right ref ((stored_apply ref).symm.trans present)]
      exact ⟨fun agree _ => agree, fun agree => agree (Set.notMem_empty ref)⟩
    | insert row =>
      simp only [column, maintainNewDependency, structural row rfl, beq_self_eq_true, if_true] at returned
      refine recomputeSeeds_consistent_iff wasAcyclic acyclic consistent kept ?_ returned
      simpa only [reached, reachedBy, structural row rfl] using affectedByDepChangeOf_collects
    | delete row =>
      exact recomputeSeeds_consistent_iff wasAcyclic acyclic consistent kept
        affectedByDepChangeOf_collects returned
  · push Not at structural
    obtain ⟨row, rfl, type⟩ := structural
    refine iff_of_true ?_ fun suspect => absurd suspect.1 type
    exact maintainNewDependency_consistent fits type wasAcyclic consistent returned

theorem column_returns (acyclic : (change.apply tables plane).ParentChildAcyclic)
    (createFastPathsDisabled : Bool) (bits : Bits) :
    ∃ passes, ∀ fuel, passes < fuel → ∃ result,
      change.column tables plane ⟨fuel, createFastPathsDisabled⟩ bits = some result := by
  cases change with
  | none | refresh row metadata threadId => exact ⟨0, fun _ _ => ⟨bits, rfl⟩⟩
  | delete row => exact recomputeSeeds_returns acyclic affectedByDepChangeOf_collects _ _ bits
  | insert row =>
    by_cases type : (row.type == .parentChild) = true
    · have collects : ((tables.insertDependency plane row).affectedByDepChangeOf ⟨plane, row.issueId⟩
          row.target.id row.type).Collects _ := affectedByDepChangeOf_collects
      simp only [column, maintainNewDependency, type, if_true]
      exact recomputeSeeds_returns acyclic collects false createFastPathsDisabled bits
    · let after := tables.insertDependency plane row
      refine ⟨(after.items .issue).length + (after.items .wisp).length, fun fuel enough => ?_⟩
      simp only [column, maintainNewDependency]
      rw [if_neg type]
      split
      · exact markIsBlocked_returns enough
      · exact markIsBlocked_returns enough

theorem acyclic_apply (fits : change.Fits tables plane) (acyclic : tables.ParentChildAcyclic)
    (apart : ∀ row, change = .insert row → row.type = .parentChild → ∀ parent, row.target = .item parent →
      ¬Relation.ReflTransGen tables.ParentChild parent ⟨plane, row.issueId⟩) :
    (change.apply tables plane).ParentChildAcyclic := by
  cases change with
  | none => exact acyclic
  | refresh row metadata threadId => exact sameHierarchy_refresh.acyclic acyclic
  | insert row =>
    by_cases type : row.type = .parentChild
    · exact (hangs_insert fits type).acyclic_upper acyclic (apart row rfl type)
    · exact (sameHierarchy_insert type).acyclic acyclic
  | delete row =>
    by_cases type : row.type = .parentChild
    · exact (hangs_delete fits type).acyclic_lower acyclic
    · refine (sameHierarchy_delete fun next member key => ?_).acyclic acyclic
      rw [row_of_key fits member key]
      exact type

end RowChange

inductive DependencyEdit where
  | add (request : DependencyRequest) (opts : AddDependencyOpts)
  | remove (issueId dependsOnId : Id)

namespace DependencyEdit

def issueId : DependencyEdit → Id
  | .add request _ => request.issueId
  | .remove issueId _ => issueId

def skipsCycleCheck : DependencyEdit → Bool
  | .add _ opts => opts.skipCycleCheck
  | .remove _ _ => false

section

variable (tables : Tables)

def change : DependencyEdit → RowChange
  | .add request opts =>
    match tables.existingDependency (tables.wispTableRouting request.issueId) request.issueId request.dependsOnId with
    | none => .insert (tables.newDependency request opts)
    | some row =>
      let thread := reAddedDependencyThread row.threadId request.threadId
      if !thread.2 && dependencyMetadataEqual row.metadata request.metadata then .none
      else .refresh row request.metadata thread.1
  | .remove issueId dependsOnId =>
    match tables.existingDependency (tables.wispTableRouting issueId) issueId dependsOnId with
    | none => .none
    | some row => .delete row

variable (edit : DependencyEdit)

def rewritten : Tables :=
  (edit.change tables).apply tables (tables.wispTableRouting edit.issueId)

def reached : Set ItemRef :=
  (edit.change tables).reached tables (tables.wispTableRouting edit.issueId)

def Suspect : Prop :=
  (edit.change tables).Suspect tables (tables.wispTableRouting edit.issueId)

end

variable {tables : Tables} {edit : DependencyEdit}

theorem change_fits : (edit.change tables).Fits tables (tables.wispTableRouting edit.issueId) := by
  cases edit with
  | add request opts =>
    cases found : tables.existingDependency (tables.wispTableRouting request.issueId) request.issueId request.dependsOnId with
    | none =>
      simp only [change, found, RowChange.Fits, newDependency_key]
      exact existingDependency_eq_none found
    | some row =>
      simp only [change, found]
      split
      · trivial
      · exact (existingDependency_eq_some found).1
  | remove issueId dependsOnId =>
    cases found : tables.existingDependency (tables.wispTableRouting issueId) issueId dependsOnId with
    | none =>
      simp only [change, found]
      trivial
    | some row =>
      simp only [change, found]
      exact (existingDependency_eq_some found).1

theorem change_insert {row : Dependency} (edit : DependencyEdit) (inserts : edit.change tables = .insert row) :
    ∃ request opts, edit = .add request opts ∧ row = tables.newDependency request opts := by
  cases edit with
  | add request opts =>
    refine ⟨request, opts, rfl, ?_⟩
    cases found : tables.existingDependency (tables.wispTableRouting request.issueId) request.issueId request.dependsOnId with
    | none =>
      simp only [change, found, RowChange.insert.injEq] at inserts
      exact inserts.symm
    | some old =>
      simp only [change, found] at inserts
      split at inserts <;> cases inserts
  | remove issueId dependsOnId =>
    simp only [change] at inserts
    split at inserts <;> cases inserts

end DependencyEdit

namespace Store

open DependencyEdit

variable {store result : Store} {session : Session} {edit : DependencyEdit}

def applyEdit (store : Store) (session : Session) : DependencyEdit → Except DependencyError Store
  | .add request opts => store.addDependency session request opts
  | .remove issueId dependsOnId => store.removeDependency session issueId dependsOnId

theorem applyEdit_cases (store : Store) (session : Session) (edit : DependencyEdit) :
    (∃ error, error ≠ .recomputeUnfinished ∧ store.applyEdit session edit = .error error) ∨
    ((∀ request opts, edit = .add request opts → store.admitDependency request opts = .ok ()) ∧
      store.applyEdit session edit = withColumn (edit.rewritten store.toTables)
        ((edit.change store.toTables).column store.toTables (store.wispTableRouting edit.issueId) session store.isBlocked)) := by
  cases edit with
  | remove issueId dependsOnId =>
    refine .inr ⟨nofun, ?_⟩
    cases found : store.existingDependency (store.wispTableRouting issueId) issueId dependsOnId with
    | none => simp [applyEdit, removeDependency, rewritten, change, found, RowChange.apply,
        RowChange.column, withColumn]
    | some row =>
      have key := (existingDependency_eq_some found).2
      have source : row.issueId = issueId := congrArg Prod.fst key
      have target : row.target.id = dependsOnId := congrArg Prod.snd key
      simp [applyEdit, removeDependency, rewritten, change, DependencyEdit.issueId, found,
        RowChange.apply, RowChange.column, source, target]
  | add request opts =>
    cases admitted : store.admitDependency request opts with
    | error error =>
      refine .inl ⟨error, fun same => ?_, by simp [applyEdit, addDependency, admitted, bind, Except.bind]⟩
      exact admitDependency_finished (admitted.trans (by rw [same]))
    | ok _ =>
      have allowed : ∀ other given, add request opts = .add other given → store.admitDependency other given = .ok () := by
        intro _ _ same
        cases same
        exact admitted
      cases found : store.existingDependency (store.wispTableRouting request.issueId) request.issueId request.dependsOnId with
      | none =>
        refine .inr ⟨allowed, ?_⟩
        simp [applyEdit, addDependency, rewritten, change, DependencyEdit.issueId, found,
          RowChange.apply, RowChange.column, admitted, bind, Except.bind, newDependency]
      | some row =>
        by_cases type : row.type = request.type
        · refine .inr ⟨allowed, ?_⟩
          simp only [applyEdit, addDependency, rewritten, change, DependencyEdit.issueId,
            found, admitted, bind, Except.bind, readdDependency, type, if_true]
          split <;> rfl
        · refine .inl ⟨.typeConflict request.issueId request.dependsOnId row.type request.type, by simp, ?_⟩
          simp [applyEdit, addDependency, found, admitted, bind, Except.bind, readdDependency, type]

theorem applyEdit_tables (applied : store.applyEdit session edit = .ok result) : result.toTables =
    edit.rewritten store.toTables ∧
    (∀ request opts, edit = .add request opts → store.admitDependency request opts = .ok ()) ∧
    (edit.change store.toTables).column store.toTables (store.wispTableRouting edit.issueId) session store.isBlocked =
      some result.isBlocked := by
  cases applyEdit_cases store session edit with
  | inl refused =>
    obtain ⟨error, _, failed⟩ := refused
    exact absurd (failed.symm.trans applied) nofun
  | inr accepted =>
    rw [accepted.2] at applied
    unfold withColumn at applied
    split at applied
    · rename_i bits column
      cases applied
      exact ⟨rfl, accepted.1, column⟩
    · cases applied

theorem rewritten_acyclic (acyclic : store.ParentChildAcyclic)
    (admitted : ∀ request opts, edit = .add request opts → store.admitDependency request opts = .ok ())
    (promised : edit.skipsCycleCheck = true → (edit.rewritten store.toTables).ParentChildAcyclic) :
    (edit.rewritten store.toTables).ParentChildAcyclic := by
  cases skips : edit.skipsCycleCheck with
  | true => exact promised skips
  | false =>
    refine RowChange.acyclic_apply change_fits acyclic fun row change type parent named chain => ?_
    obtain ⟨request, opts, rfl, rfl⟩ := edit.change_insert change
    have checked := (admitDependency_ok.mp (admitted request opts rfl)).2.2.2 skips
    exact not_ancestor_of_checked checked type named chain

/-- A dependency edit on a consistent store with an acyclic hierarchy runs to its end, and it leaves
the column consistent exactly when it is not a suspect change of an answer that its maintenance does
not reach. -/
theorem dependencyEdit_consistent_iff (store : Store) (edit : DependencyEdit) (acyclic : store.ParentChildAcyclic)
    (consistent : store.countIsBlockedInconsistencies store.isBlocked = 0)
    (promised : edit.skipsCycleCheck = true → (edit.rewritten store.toTables).ParentChildAcyclic) :
    (∀ createFastPathsDisabled, ∃ passes, ∀ fuel, passes < fuel →
      store.applyEdit ⟨fuel, createFastPathsDisabled⟩ edit ≠ .error .recomputeUnfinished) ∧
    ∀ session result, store.applyEdit session edit = .ok result →
      (result.countIsBlockedInconsistencies result.isBlocked = 0 ↔
        (edit.Suspect store.toTables →
          Tables.Contained store.toTables (edit.rewritten store.toTables) (edit.reached store.toTables))) := by
  constructor
  · intro createFastPathsDisabled
    have accepted := fun fuel (failed : store.applyEdit ⟨fuel, createFastPathsDisabled⟩ edit = .error .recomputeUnfinished) =>
      (applyEdit_cases store ⟨fuel, createFastPathsDisabled⟩ edit).resolve_left fun ⟨error, other, step⟩ =>
        other (Except.error.inj (step.symm.trans failed))
    by_cases after : (edit.rewritten store.toTables).ParentChildAcyclic
    · obtain ⟨passes, returns⟩ := RowChange.column_returns after createFastPathsDisabled store.isBlocked
      refine ⟨passes, fun fuel enough failed => ?_⟩
      obtain ⟨bits, returned⟩ := returns fuel enough
      rw [(accepted _ failed).2, returned] at failed
      cases failed
    · exact ⟨0, fun fuel _ failed => after (rewritten_acyclic acyclic (accepted _ failed).1 promised)⟩
  · intro session result applied
    obtain ⟨tables, admitted, column⟩ := applyEdit_tables applied
    have after := rewritten_acyclic acyclic admitted promised
    rw [tables]
    exact RowChange.column_consistent_iff change_fits acyclic after consistent column

/-- `bd-w` waits for the children of `bd-s`, one of which is closed. -/
def openGate : Store where
  items
    | .issue => [⟨"bd-w", .opened⟩, ⟨"bd-s", .opened⟩, ⟨"bd-c", .opened⟩, ⟨"bd-d", .closed⟩]
    | .wisp => []
  dependencies
    | .issue => [⟨"bd-w", .item ⟨.issue, "bd-s"⟩, .waitsFor, {}, none⟩,
        ⟨"bd-c", .item ⟨.issue, "bd-s"⟩, .parentChild, {}, none⟩, ⟨"bd-d", .item ⟨.issue, "bd-s"⟩, .parentChild, {}, none⟩]
    | .wisp => []
  isBlocked ref := ref == ⟨.issue, "bd-w"⟩

/-- `bd-p` waits for its own phase `bd-c`, so it holds back neither the phase nor `bd-v`. -/
def phasedEpic : Store where
  items
    | .issue => [⟨"bd-p", .opened⟩, ⟨"bd-q", .opened⟩, ⟨"bd-c", .opened⟩, ⟨"bd-t", .opened⟩, ⟨"bd-v", .opened⟩]
    | .wisp => []
  dependencies
    | .issue => [⟨"bd-p", .item ⟨.issue, "bd-c"⟩, .waitsFor, {}, none⟩, ⟨"bd-c", .item ⟨.issue, "bd-p"⟩, .parentChild, {}, none⟩,
        ⟨"bd-t", .item ⟨.issue, "bd-c"⟩, .parentChild, {}, none⟩, ⟨"bd-v", .item ⟨.issue, "bd-p"⟩, .parentChild, {}, none⟩]
    | .wisp => []
  isBlocked ref := ref == ⟨.issue, "bd-p"⟩

/-- A rank of the items of an example store along its hierarchy, listed for
those that are no roots. -/
def listedRank (ranks : List (Id × Nat)) (ref : ItemRef) : Nat := (ranks.lookup ref.id).getD 0

theorem openGate_acyclic : openGate.ParentChildAcyclic :=
  acyclic_of_ranked (listedRank [("bd-c", 1), ("bd-d", 1)]) (by decide)

/-- Removing the waits-for row is not suspect, so its waiter is unblocked. -/
theorem openGate_removal_consistent : ∃ result, openGate.applyEdit ⟨5, false⟩ (.remove "bd-w" "bd-s") = .ok result ∧
    result.countIsBlockedInconsistencies result.isBlocked = 0 := by
  have settled := (dependencyEdit_consistent_iff openGate (.remove "bd-w" "bd-s") openGate_acyclic (by decide)
    (fun skips => absurd skips (by decide))).2 ⟨5, false⟩
  exact ⟨_, rfl, (settled _ rfl).mpr fun suspect => absurd suspect.1 (by decide)⟩

/-- The re-add as an any-children gate opens the gate and leaves the waiter blocked; the second
parent takes the phase out of the epic's subtree and leaves the epic's other child free. -/
theorem dependencyEdit_leaves_stale :
    (openGate.ParentChildAcyclic ∧ openGate.countIsBlockedInconsistencies openGate.isBlocked = 0 ∧
      ∃ result, openGate.applyEdit ⟨5, false⟩
        (.add ⟨"bd-w", "bd-s", .waitsFor, { members := [("gate", .text "any-children")] }, ""⟩ {}) = .ok result ∧
        result.countIsBlockedInconsistencies result.isBlocked = 1) ∧
    phasedEpic.ParentChildAcyclic ∧ phasedEpic.countIsBlockedInconsistencies phasedEpic.isBlocked = 0 ∧
      ∃ result, phasedEpic.applyEdit ⟨5, false⟩ (.add ⟨"bd-c", "bd-q", .parentChild, {}, ""⟩ {}) = .ok result ∧
        result.countIsBlockedInconsistencies result.isBlocked = 1 := by
  refine ⟨⟨openGate_acyclic, by decide, _, rfl, by decide⟩, ?_, by decide, _, rfl, by decide⟩
  exact Tables.acyclic_of_ranked (listedRank [("bd-c", 1), ("bd-v", 1), ("bd-t", 2)]) (by decide)

end Store

end Beads
