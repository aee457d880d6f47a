import Beads.Blocked.Repair

namespace Beads

open Propagation Batches Settling

namespace Tables

variable {tables : Tables} {bits : Bits} {plane : Plane} {mode : SplitMode}
  {issueIds wispIds : List Id} {ref : ItemRef} {fuel : Nat}

def batchSet (tables : Tables) (plane : Plane) (ids : List Id) : Set ItemRef :=
  tables.scopeSet plane (batchScope ids)

theorem mem_batchSet {ids : List Id} :
    ref ∈ tables.batchSet plane ids ↔ ref.plane = plane ∧ ref.id ∈ ids ∧ tables.stored ref = true := by
  simp [batchSet, scopeSet, batchScope]

def batched (issueIds wispIds : List Id) : List (Plane × List Id) :=
  planes.flatMap fun plane => (batches queryBatchSize (idsOf issueIds wispIds plane)).map (plane, ·)

theorem mem_batched {ids : List Id} :
    (plane, ids) ∈ batched issueIds wispIds ↔ ids ∈ batches queryBatchSize (idsOf issueIds wispIds plane) := by
  simp [batched, mem_planes]

def scopes (tables : Tables) (issueIds wispIds : List Id) : List (Set ItemRef) :=
  (batched issueIds wispIds).map fun batch => tables.batchSet batch.1 batch.2

def listedSet (tables : Tables) (issueIds wispIds : List Id) : Set ItemRef :=
  {ref | ref.id ∈ idsOf issueIds wispIds ref.plane ∧ tables.stored ref = true}

theorem mem_scopes : (∃ scope ∈ tables.scopes issueIds wispIds, ref ∈ scope) ↔ ref ∈ tables.listedSet issueIds wispIds := by
  constructor
  · intro ⟨scope, listed, inside⟩
    obtain ⟨⟨plane, ids⟩, batch, rfl⟩ := List.mem_map.mp listed
    obtain ⟨rfl, member, present⟩ := mem_batchSet.mp inside
    exact ⟨(mem_batches (by decide)).mp ⟨ids, mem_batched.mp batch, member⟩, present⟩
  · intro ⟨listed, present⟩
    obtain ⟨ids, batch, member⟩ := (mem_batches (by decide : 0 < queryBatchSize)).mpr listed
    exact ⟨_, List.mem_map.mpr ⟨_, mem_batched.mpr batch, rfl⟩, mem_batchSet.mpr ⟨rfl, member, present⟩⟩

theorem scopes_disjoint (issueNodup : issueIds.Nodup) (wispNodup : wispIds.Nodup) :
    (tables.scopes issueIds wispIds).Pairwise Disjoint := by
  have apart : ∀ plane, (idsOf issueIds wispIds plane).Nodup →
      ((batches queryBatchSize (idsOf issueIds wispIds plane)).map (plane, ·)).Pairwise fun one two =>
        Disjoint (tables.batchSet one.1 one.2) (tables.batchSet two.1 two.2) := by
    intro plane nodup
    have parts : (batches queryBatchSize (idsOf issueIds wispIds plane)).flatten.Nodup := by rwa [flatten_batches (by decide)]
    refine List.pairwise_map.mpr ((List.nodup_flatten.mp parts).2.imp
      fun {first second} distinct => Set.disjoint_left.mpr fun ref one two => ?_)
    exact distinct (mem_batchSet.mp one).2.1 (mem_batchSet.mp two).2.1
  rw [scopes, List.pairwise_map, batched, planes, List.flatMap_cons, List.flatMap_singleton, List.pairwise_append]
  refine ⟨apart .issue issueNodup, apart .wisp wispNodup, fun first one second two =>
    Set.disjoint_left.mpr fun ref issue wisp => ?_⟩
  obtain ⟨_, _, rfl⟩ := List.mem_map.mp one
  obtain ⟨_, _, rfl⟩ := List.mem_map.mp two
  exact Plane.noConfusion ((mem_batchSet.mp issue).1.symm.trans (mem_batchSet.mp wisp).1)

section Passes

variable {statement : Plane → Bits → List Id → Bits × Nat} {step : Set ItemRef → Set ItemRef → Set ItemRef}

/-- One pass of a loop: a statement for each batch of the issues, then for each
batch of the wisps. -/
def passOver (statement : Plane → Bits → List Id → Bits × Nat) (issueIds wispIds : List Id) (bits : Bits) : Bits × Nat :=
  let issues := runStatements (statement .issue) bits (batches queryBatchSize issueIds)
  let wisps := runStatements (statement .wisp) issues.1 (batches queryBatchSize wispIds)
  (wisps.1, issues.2 + wisps.2)

theorem passOver_eq : passOver statement issueIds wispIds bits =
    runStatements (fun bits batch => statement batch.1 bits batch.2) bits (batched issueIds wispIds) := by
  have inPlane : ∀ plane bits ids, runStatements (fun bits batch => statement batch.1 bits batch.2) bits
      (List.map (plane, ·) ids) = runStatements (statement plane) bits ids := fun _ _ _ => List.foldl_map
  rw [batched, planes, List.flatMap_cons, List.flatMap_singleton, runStatements_append, inPlane, inPlane]
  rfl

/-- The statement changes the marks as the step does, and counts the rows it changes. -/
structure Performs (tables : Tables) (step : Set ItemRef → Set ItemRef → Set ItemRef)
    (statement : Plane → Bits → List Id → Bits × Nat) : Prop where
  marked : ∀ plane bits ids, marks (statement plane bits ids).1 = step (marks bits) (tables.batchSet plane ids)
  unchanged : ∀ plane bits ids, (statement plane bits ids).2 = 0 ↔ (statement plane bits ids).1 = bits

theorem Performs.views (performs : tables.Performs step statement) :
    Views (passOver statement issueIds wispIds) marks ((tables.scopes issueIds wispIds).foldl step)
      fun state => ∀ scope ∈ tables.scopes issueIds wispIds, step state scope = state := by
  have run : ∀ bits (inputs : List (Plane × List Id)),
      marks (runStatements (fun bits batch => statement batch.1 bits batch.2) bits inputs).1 =
          (inputs.map fun batch => tables.batchSet batch.1 batch.2).foldl step (marks bits) ∧
        ((runStatements (fun bits batch => statement batch.1 bits batch.2) bits inputs).2 = 0 ↔
          ∀ scope ∈ inputs.map fun batch => tables.batchSet batch.1 batch.2, step (marks bits) scope = marks bits) := by
    intro bits inputs
    induction inputs generalizing bits with
    | nil => exact ⟨rfl, iff_of_true rfl nofun⟩
    | cons batch rest ih =>
      obtain ⟨marked, quiet⟩ := ih (statement batch.1 bits batch.2).1
      rw [runStatements_cons, List.map_cons, List.foldl_cons, List.forall_mem_cons, ← performs.marked]
      refine ⟨marked, ?_⟩
      rw [Nat.add_eq_zero_iff, quiet, performs.unchanged, marks_inj]
      exact and_congr_right fun same => by rw [same]
  exact ⟨fun bits => by rw [passOver_eq]; exact (run bits _).1, fun bits => by
    rw [passOver_eq]; exact (run bits _).2, fun _ => foldl_of_quiet⟩

theorem passOver_returned {result : Bits} (returned : (if issueIds.isEmpty && wispIds.isEmpty then some bits
      else untilQuiet (passOver statement issueIds wispIds) fuel bits) = some result) :
    ∃ fuel, untilQuiet (passOver statement issueIds wispIds) fuel bits = some result := by
  split at returned
  · rename_i empty
    simp only [Bool.and_eq_true, List.isEmpty_iff] at empty
    obtain ⟨rfl, rfl⟩ := empty
    exact ⟨1, returned⟩
  · exact ⟨fuel, returned⟩

end Passes

def rounds (tables : Tables) (issueIds wispIds : List Id) : List (List (Set ItemRef)) :=
  (tables.scopes issueIds wispIds).map ([·])

theorem rounds_flatten : (tables.rounds issueIds wispIds).flatten = tables.scopes issueIds wispIds := List.flatMap_singleton' _

theorem rounds_disjoint (issueNodup : issueIds.Nodup) (wispNodup : wispIds.Nodup) :
    (tables.rounds issueIds wispIds).flatten.Pairwise Disjoint := by
  rw [rounds_flatten]
  exact scopes_disjoint issueNodup wispNodup

theorem swept_iff : Network.Swept (tables.rounds issueIds wispIds) ref ↔ ref ∈ tables.listedSet issueIds wispIds := by
  rw [← mem_scopes]
  simp [Network.Swept, rounds]

theorem rounds_rows : ∀ scopes ∈ tables.rounds issueIds wispIds, ∀ scope ∈ scopes, scope ⊆ tables.network.rows :=
  fun scopes listed scope member _ inside => (swept_iff.mp ⟨scopes, listed, scope, member, inside⟩).2

theorem views_recompute : Views (passOver tables.markUnmarkBatch issueIds wispIds) marks
    (tables.network.pass (tables.rounds issueIds wispIds)) (tables.network.Quiet (tables.rounds issueIds wispIds)) := by
  have performs : tables.Performs (fun state scope => tables.network.round state [scope]) tables.markUnmarkBatch :=
    ⟨fun _ _ _ => marks_markUnmark readsAs_scoped, fun _ _ _ => markUnmark_unchanged readsAs_scoped⟩
  refine ⟨fun bits => (performs.views.viewed bits).trans List.foldl_map.symm, fun bits => ?_, fun _ => Network.pass_of_quiet⟩
  rw [performs.views.unchanged]
  simp only [Network.Quiet, rounds, List.forall_mem_map, List.mem_singleton, forall_eq]
  rfl

theorem recomputeIsBlocked_column : (tables.recomputeIsBlocked mode issueIds wispIds fuel bits).map RecomputeResult.bits =
    if issueIds.isEmpty && wispIds.isEmpty then some bits
    else untilQuiet (passOver tables.markUnmarkBatch issueIds wispIds) fuel bits := by
  have loop : (tables.recomputeUnsplit issueIds wispIds fuel bits).map RecomputeResult.bits =
      untilQuiet (passOver tables.markUnmarkBatch issueIds wispIds) fuel bits := by
    induction fuel generalizing bits with
    | zero => rfl
    | succ fuel ih =>
      rw [recomputeUnsplit, untilQuiet, ← ih, apply_ite (Option.map RecomputeResult.bits), Option.map_map]
      rfl
  rw [recomputeIsBlocked, recomputeFixpoint_eq (.inl rfl), apply_ite (Option.map RecomputeResult.bits), loop]
  rfl

theorem recomputeIsBlocked_ends {result : RecomputeResult} (holds : Set ItemRef → Prop)
    (kept : ∀ state, holds state →
      holds (tables.network.pass (tables.rounds issueIds wispIds) state))
      (start : holds (marks bits))
    (returned : tables.recomputeIsBlocked mode issueIds wispIds fuel bits = some result) :
    tables.network.Quiet (tables.rounds issueIds wispIds) (marks result.bits) ∧ holds (marks result.bits) := by
  have column := recomputeIsBlocked_column.symm.trans (congrArg (Option.map RecomputeResult.bits) returned)
  obtain ⟨fuel, loop⟩ := passOver_returned column
  exact views_recompute.ends holds kept start loop

theorem quiet_of_recomputeIsBlocked {result : RecomputeResult}
    (returned : tables.recomputeIsBlocked mode issueIds wispIds fuel bits = some result) :
    tables.network.Quiet (tables.rounds issueIds wispIds) (marks result.bits) :=
  (recomputeIsBlocked_ends (fun _ => True) (fun _ _ => trivial) trivial returned).1

theorem recomputeIsBlocked_stops {passes : Nat} (early : passes < fuel)
    (quiet : tables.network.Quiet (tables.rounds issueIds wispIds)
      ((tables.network.pass (tables.rounds issueIds wispIds))^[passes] (marks bits))) :
    ∃ result, tables.recomputeIsBlocked mode issueIds wispIds fuel bits = some result := by
  have column : ∃ column, (tables.recomputeIsBlocked mode issueIds wispIds fuel bits).map RecomputeResult.bits = some column := by
    rw [recomputeIsBlocked_column]
    split
    · exact ⟨_, rfl⟩
    · exact views_recompute.stops early quiet
  obtain ⟨_, returned⟩ := column
  obtain ⟨result, returned, _⟩ := Option.map_eq_some_iff.mp returned
  exact ⟨result, returned⟩

theorem recomputeIsBlocked_returns :
    (∃ fuel result, tables.recomputeIsBlocked mode issueIds wispIds fuel bits = some result) ↔
      ∃ passes, tables.network.Quiet (tables.rounds issueIds wispIds)
        ((tables.network.pass (tables.rounds issueIds wispIds))^[passes] (marks bits)) := by
  constructor
  · intro ⟨fuel, result, returned⟩
    obtain ⟨fuel, loop⟩ := passOver_returned
      (recomputeIsBlocked_column.symm.trans (congrArg (Option.map RecomputeResult.bits) returned))
    exact views_recompute.returns_iff.mp ⟨fuel, _, loop⟩
  · intro ⟨passes, quiet⟩
    exact ⟨passes + 1, recomputeIsBlocked_stops (Nat.lt_succ_self passes) quiet⟩

end Tables

end Beads
