import Beads.Blocked.Recompute

/-! A plan takes the ids without a dependency row of their own out of the mark and unmark statements
and clears them with a plain update, in its first pass only. -/

namespace Beads

open Batches List

section Statements

variable {α : Type} {statement : Bits → α → Bits × Nat} {inputs more : List α} {bits : Bits}

theorem runStatements_from (count : Nat) :
    inputs.foldl (fun state input => let after := statement state.1 input; (after.1, state.2 + after.2)) (bits, count) =
      ((runStatements statement bits inputs).1, count + (runStatements statement bits inputs).2) := by
  induction inputs generalizing bits count with
  | nil => rfl
  | cons input rest ih =>
    simp only [runStatements, foldl_cons] at ih ⊢
    rw [ih, ih (0 + _)]
    simp only [Nat.zero_add, Nat.add_assoc]

theorem runStatements_append : runStatements statement bits (inputs ++ more) =
    ((runStatements statement (runStatements statement bits inputs).1 more).1,
      (runStatements statement bits inputs).2 + (runStatements statement (runStatements statement bits inputs).1 more).2) := by
  rw [← runStatements_from]
  exact foldl_append

theorem runStatements_cons {input : α} : runStatements statement bits (input :: inputs) =
    ((runStatements statement (statement bits input).1 inputs).1,
      (statement bits input).2 + (runStatements statement (statement bits input).1 inputs).2) := by
  rw [← runStatements_from, ← Nat.zero_add (statement bits input).2]
  rfl

theorem runStatements_map {β : Type} {inputs : List β} {plan : β → α}
    {other : Bits → β → Bits × Nat} (holds : Bits → Prop) (start : holds bits)
    (same : ∀ input ∈ inputs, ∀ bits, holds bits →
      statement bits (plan input) = other bits input ∧ holds (other bits input).1) :
    runStatements statement bits (inputs.map plan) = runStatements other bits inputs := by
  induction inputs generalizing bits with
  | nil => rfl
  | cons input rest ih =>
    obtain ⟨first, kept⟩ := same input (.head _) bits start
    rw [map_cons, runStatements_cons, runStatements_cons, first, ih kept fun next member => same next (.tail _ member)]

end Statements

namespace Tables

variable {tables : Tables} {bits : Bits} {plane : Plane} {scope other : Scope} {explained : ParentsByPlane} {ids : List Id}

section Updates

variable {value : Bool} {guard second : Row → Bool} {ref : ItemRef}

def Matches (tables : Tables) (plane : Plane) (guard : Row → Bool) (ref : ItemRef) : Prop :=
  ref.plane = plane ∧ ∃ row ∈ tables.items plane, row.id = ref.id ∧ guard row = true

theorem setBlocked_of_matches (matched : tables.Matches plane guard ref) :
    (tables.setBlocked plane value guard bits).1 ref = value := by
  obtain ⟨rfl, row, member, same, holds⟩ := matched
  refine if_pos ?_
  simp only [Bool.and_eq_true, beq_self_eq_true, true_and, any_eq_true, mem_filter, beq_iff_eq]
  exact ⟨row, ⟨member, holds⟩, same⟩

theorem setBlocked_of_not_matches (unmatched : ¬tables.Matches plane guard ref) :
    (tables.setBlocked plane value guard bits).1 ref = bits ref := by
  refine if_neg fun found => unmatched ?_
  simp only [Bool.and_eq_true, any_eq_true, mem_filter, beq_iff_eq] at found
  obtain ⟨rfl, row, ⟨member, holds⟩, same⟩ := found
  exact ⟨rfl, row, member, same, holds⟩

theorem setBlocked_congr (same : ∀ row ∈ tables.items plane, guard row = second row) :
    tables.setBlocked plane value guard bits = tables.setBlocked plane value second bits := by
  rw [setBlocked, setBlocked, filter_congr same]

theorem setBlocked_none (none : ∀ row ∈ tables.items plane, guard row = false) :
    tables.setBlocked plane value guard bits = (bits, 0) := by
  have empty : (tables.items plane).filter guard = [] := filter_eq_nil_iff.mpr fun row member => by simp [none row member]
  simp [setBlocked, empty]

/-- Two updates of different rows are one. -/
theorem setBlocked_setBlocked (apart : ∀ row ∈ tables.items plane, guard row = true → second row = false) :
    let first := tables.setBlocked plane value guard bits
    let both := tables.setBlocked plane value second first.1
    (both.1, first.2 + both.2) = tables.setBlocked plane value (fun row => guard row || second row) bits := by
  refine Prod.ext (funext fun ref => ?_) ?_
  · have either : tables.Matches plane (fun row => guard row || second row) ref ↔
        tables.Matches plane guard ref ∨ tables.Matches plane second ref := by
      simp only [Matches, Bool.or_eq_true, and_or_left, exists_or]
    by_cases two : tables.Matches plane second ref
    · exact (setBlocked_of_matches two).trans (setBlocked_of_matches (either.mpr (.inr two))).symm
    · refine (setBlocked_of_not_matches two).trans ?_
      by_cases one : tables.Matches plane guard ref
      · exact (setBlocked_of_matches one).trans (setBlocked_of_matches (either.mpr (.inl one))).symm
      · exact (setBlocked_of_not_matches one).trans (setBlocked_of_not_matches fun found => (either.mp found).elim one two).symm
  · simp only [setBlocked]
    generalize tables.items plane = rows at apart
    induction rows with
    | nil => rfl
    | cons row rest ih =>
      have later := ih fun next member => apart next (.tail _ member)
      have here := apart row (.head _)
      cases one : guard row <;> cases two : second row <;> simp [one, two] at here ⊢ <;> omega

end Updates

def SameSources (tables : Tables) (plane : Plane) (scope other : Scope) : Prop :=
  ∀ row ∈ tables.dependencies plane, scope row.issueId = other row.issueId

theorem SameSources.shouldBeBlockedIds (same : tables.SameSources plane scope other) :
    tables.shouldBeBlockedIds plane scope explained bits = tables.shouldBeBlockedIds plane other explained bits := by
  have legs : ∀ guard : Dependency → Bool, ((tables.dependencies plane).filter fun row => scope row.issueId && guard row) =
      (tables.dependencies plane).filter fun row => other row.issueId && guard row :=
    fun guard => filter_congr fun row member => by rw [same row member]
  simp only [Tables.shouldBeBlockedIds, openTargetLeg, blockedParentLeg, waitsForLeg, Bool.and_assoc, legs]

theorem SameSources.scopedExplainedParents (same : tables.SameSources plane scope other) :
    tables.scopedExplainedParents bits plane scope = tables.scopedExplainedParents bits plane other := by
  have kinds : ∀ parentPlane, tables.batchParentKinds plane scope parentPlane =
    tables.batchParentKinds plane other parentPlane :=
    fun parentPlane => by
      rw [Bool.eq_iff_iff, batchParentKinds, batchParentKinds, any_eq_true, any_eq_true]
      exact exists_congr fun row => and_congr_right fun member => by rw [same row member]
  have candidates : ∀ parentPlane, tables.candidateParents parentPlane [(plane, scope)] =
      tables.candidateParents parentPlane [(plane, other)] := by
    intro parentPlane
    simp only [candidateParents, flatMap_singleton]
    exact filterMap_congr fun row member => by simp only [same row member]
  simp only [Tables.scopedExplainedParents, parentsExplainedBySubtree, kinds, candidates]

theorem hasOwnDependencyRow_of_due {id : Id} (due : id ∈ tables.shouldBeBlockedIds plane scope explained bits) :
    tables.hasOwnDependencyRow plane id = true := by
  have source : ∀ {guard : Dependency → Bool}, id ∈ ((tables.dependencies plane).filter guard).map Dependency.issueId →
      tables.hasOwnDependencyRow plane id = true := by
    intro guard member
    obtain ⟨row, kept, same⟩ := mem_map.mp member
    exact any_eq_true.mpr ⟨row, (mem_filter.mp kept).1, beq_iff_eq.mpr same⟩
  simp only [shouldBeBlockedIds, mem_append] at due
  rcases due with (((leg | leg) | leg) | leg) | leg <;> exact source leg

variable (tables plane ids) in
def splitChunk : RecomputeChunk :=
  ⟨ids.filter (tables.hasOwnDependencyRow plane), ids.filter fun id => !tables.hasOwnDependencyRow plane id⟩

theorem batchScope_withEdges {id : Id} (own : tables.hasOwnDependencyRow plane id = true) :
    batchScope ids id = batchScope (tables.splitChunk plane ids).withEdges id := by
  simp [batchScope, splitChunk, own]

theorem sameSources_split : tables.SameSources plane (batchScope ids) (batchScope (tables.splitChunk plane ids).withEdges) :=
  fun row member => batchScope_withEdges (any_eq_true.mpr ⟨row, member, beq_self_eq_true _⟩)

theorem markBlocked_split : tables.markBlocked plane (batchScope ids) explained bits =
    tables.markBlocked plane (batchScope (tables.splitChunk plane ids).withEdges) explained bits := by
  rw [markBlocked, markBlocked, sameSources_split.shouldBeBlockedIds]
  refine setBlocked_congr fun row _ => ?_
  by_cases due : row.id ∈ tables.shouldBeBlockedIds plane (batchScope (tables.splitChunk plane ids).withEdges) explained bits
  · rw [batchScope_withEdges (hasOwnDependencyRow_of_due due)]
  · simp [due]

/-- The unmark of a chunk clears its edgeless rows, whatever they carry. -/
theorem unmarkBlocked_split :
    let unmarked := tables.unmarkBlocked plane (batchScope (tables.splitChunk plane ids).withEdges) explained bits
    let cleared := tables.clearEdgeless plane (tables.splitChunk plane ids).edgeless unmarked.1
    (cleared.1, unmarked.2 + cleared.2) = tables.unmarkBlocked plane (batchScope ids) explained bits := by
  intro unmarked cleared
  let edgeless : Row → Bool := fun row => (tables.splitChunk plane ids).edgeless.contains row.id && bits ⟨plane, row.id⟩
  have apart : ∀ id, (tables.splitChunk plane ids).edgeless.contains id = true →
      batchScope (tables.splitChunk plane ids).withEdges id = false := by
    simp only [splitChunk, batchScope, contains_iff_mem, mem_filter, Bool.not_eq_true', and_imp]
    simp +contextual
  have clears : cleared = tables.setBlocked plane false edgeless unmarked.1 := by
    refine setBlocked_congr fun row _ => ?_
    cases listed : (tables.splitChunk plane ids).edgeless.contains row.id with
    | false => simp only [edgeless, listed, Bool.false_and]
    | true =>
      have untouched : unmarked.1 ⟨plane, row.id⟩ = bits ⟨plane, row.id⟩ := by
        refine setBlocked_of_not_matches fun ⟨_, other, _, same, holds⟩ => ?_
        simp [same, apart _ listed] at holds
      simp only [edgeless, listed, untouched]
  rw [clears]
  refine (setBlocked_setBlocked fun row _ accepted => ?_).trans ?_
  · cases listed : (tables.splitChunk plane ids).edgeless.contains row.id with
    | false => simp only [edgeless, listed, Bool.false_and]
    | true => simp [apart _ listed] at accepted
  · refine setBlocked_congr fun row _ => ?_
    rw [← sameSources_split.shouldBeBlockedIds]
    cases own : tables.hasOwnDependencyRow plane row.id with
    | true => simp [edgeless, splitChunk, batchScope, own]
    | false =>
      have idle : row.id ∉ tables.shouldBeBlockedIds plane (batchScope ids) explained bits :=
        fun due => nomatch own.symm.trans (hasOwnDependencyRow_of_due due)
      simp [edgeless, splitChunk, batchScope, own, idle]

theorem markUnmarkBatch_split (ids : List Id) :
    let swept := tables.markUnmarkBatch plane bits (tables.splitChunk plane ids).withEdges
    let cleared := tables.clearEdgeless plane (tables.splitChunk plane ids).edgeless swept.1
    (cleared.1, swept.2 + cleared.2) = tables.markUnmarkBatch plane bits ids := by
  let scope := batchScope (tables.splitChunk plane ids).withEdges
  let explained := tables.scopedExplainedParents bits plane scope
  let marked := tables.markBlocked plane scope explained bits
  have read : tables.scopedExplainedParents bits plane (batchScope ids) = explained := sameSources_split.scopedExplainedParents
  have marks : tables.markBlocked plane (batchScope ids) explained bits = marked := markBlocked_split
  have unmarks := @unmarkBlocked_split tables marked.1 plane explained ids
  have whole : tables.markUnmarkBatch plane bits ids = ((tables.unmarkBlocked plane (batchScope ids) explained marked.1).1,
      marked.2 + (tables.unmarkBlocked plane (batchScope ids) explained marked.1).2) := by
    rw [markUnmarkBatch, read, markUnmark, marks]
  rw [whole, ← unmarks, ← Nat.add_assoc]
  rfl

theorem clearEdgeless_none (none : ∀ row ∈ tables.items plane, row.id ∈ ids →
    bits ⟨plane, row.id⟩ = false) : tables.clearEdgeless plane ids bits = (bits, 0) := by
  refine setBlocked_none fun row member => ?_
  cases listed : ids.contains row.id with
  | false => rfl
  | true => exact none row member (contains_iff_mem.mp listed)

theorem sweep_withEdges (short : ids.length ≤ queryBatchSize) :
    (if ids.isEmpty then (bits, 0) else tables.runMarkUnmarkBatched plane ids bits) = tables.markUnmarkBatch plane bits ids := by
  by_cases empty : ids = []
  · subst empty
    simp [markUnmarkBatch, markUnmark, markBlocked, unmarkBlocked, batchScope, setBlocked]
  · rw [if_neg (by simpa using empty), runMarkUnmarkBatched, batches_of_length_le (by decide) empty short, runStatements_cons]
    rfl

theorem markUnmark_edgeless {ref : ItemRef} (idle : tables.hasOwnDependencyRow ref.plane ref.id = false)
    (clear : bits ref = false ∨ ref.plane = plane ∧ scope ref.id = true ∧
    tables.stored ref = true) : (tables.markUnmark plane scope explained bits).1 ref = false := by
  let marked := tables.markBlocked plane scope explained bits
  have undue : ∀ {bits}, ref.plane = plane → ref.id ∉ tables.shouldBeBlockedIds plane scope explained bits :=
    fun inPlane due => by simp [inPlane, hasOwnDependencyRow_of_due due] at idle
  have kept : marked.1 ref = bits ref := by
    refine setBlocked_of_not_matches fun ⟨inPlane, row, _, same, holds⟩ => ?_
    simp [same, undue inPlane] at holds
  by_cases unmarked : tables.Matches plane (fun row => scope row.id && marked.1 ⟨plane, row.id⟩ && (!row.status.active ||
      !(tables.shouldBeBlockedIds plane scope explained marked.1).contains row.id)) ref
  · exact setBlocked_of_matches unmarked
  · refine (setBlocked_of_not_matches unmarked).trans (Bool.eq_false_iff.mpr fun (blocked : marked.1 ref = true) => ?_)
    obtain clear | ⟨rfl, inScope, present⟩ := clear
    · exact nomatch clear.symm.trans (kept.symm.trans blocked)
    · obtain ⟨row, member, same⟩ := stored_iff.mp present
      exact unmarked ⟨rfl, row, member, same, by simp [same, inScope, blocked, undue rfl]⟩

theorem runMarkUnmarkBatched_edgeless {ref : ItemRef} (idle : tables.hasOwnDependencyRow ref.plane ref.id = false)
    (clear : bits ref = false ∨ ref.plane = plane ∧ ref.id ∈ ids ∧ tables.stored ref = true) :
    (tables.runMarkUnmarkBatched plane ids bits).1 ref = false := by
  rw [← mem_batches (by decide : 0 < queryBatchSize)] at clear
  rw [runMarkUnmarkBatched]
  generalize batches queryBatchSize ids = batched at clear ⊢
  induction batched generalizing bits with
  | nil => exact clear.resolve_right (by simp)
  | cons batch rest ih =>
    rw [runStatements_cons]
    refine ih ?_
    obtain clear | ⟨inPlane, ⟨other, listed, member⟩, present⟩ := clear
    · exact .inl (markUnmark_edgeless idle (.inl clear))
    rcases mem_cons.mp listed with rfl | listed
    · exact .inl (markUnmark_edgeless idle (.inr ⟨inPlane, contains_iff_mem.mpr member, present⟩))
    · exact .inr ⟨inPlane, ⟨other, listed, member⟩, present⟩

variable {mode : SplitMode} {issueIds wispIds : List Id} {firstPass : Bool}

/-- The stored rows without a dependency row of their own are not blocked, as
far as they are listed. -/
def EdgelessClear (tables : Tables) (plane : Plane) (ids : List Id) (bits : Bits) : Prop :=
  ∀ id ∈ ids, tables.hasOwnDependencyRow plane id = false → tables.stored ⟨plane, id⟩ = true → bits ⟨plane, id⟩ = false

theorem runRecomputeChunk_eq {chunk : RecomputeChunk} (short : ids.length ≤ queryBatchSize)
    (planned : chunk = ⟨ids, []⟩ ∨ chunk = tables.splitChunk plane ids)
    (ready : firstPass = true ∨ tables.EdgelessClear plane ids bits) :
    tables.runRecomputeChunk plane firstPass bits chunk = tables.markUnmarkBatch plane bits ids := by
  obtain rfl | rfl := planned
  · rw [runRecomputeChunk, sweep_withEdges short]
    simp
  · have shorter : (tables.splitChunk plane ids).withEdges.length ≤ queryBatchSize := (length_filter_le _ _).trans short
    rw [runRecomputeChunk, sweep_withEdges shorter, ← markUnmarkBatch_split ids]
    split
    · rename_i skipped
      rw [clearEdgeless_none]
      intro row member listed
      obtain ⟨inside, idle⟩ := mem_filter.mp listed
      rw [Bool.not_eq_true'] at idle
      obtain first | clear := ready
      · simp [first, ne_nil_of_mem listed] at skipped
      · exact markUnmark_edgeless idle (.inl (clear row.id inside idle (stored_iff.mpr ⟨row, member, rfl⟩)))
    · rfl

theorem EdgelessClear.after {other : Plane} {more : List Id} (clear : tables.EdgelessClear plane ids bits) :
    tables.EdgelessClear plane ids (tables.runMarkUnmarkBatched other more bits).1 :=
  fun id listed idle present => runMarkUnmarkBatched_edgeless idle (.inl (clear id listed idle present))

theorem edgelessClear_swept : tables.EdgelessClear plane ids (tables.runMarkUnmarkBatched plane ids bits).1 :=
  fun _ listed idle present => runMarkUnmarkBatched_edgeless idle (.inr ⟨rfl, listed, present⟩)

theorem runRecomputePass_eq (ready : firstPass = true ∨ tables.EdgelessClear plane ids bits) :
    tables.runRecomputePass plane (tables.planRecompute plane mode ids) firstPass bits =
      tables.runMarkUnmarkBatched plane ids bits := by
  refine runStatements_map (fun bits => firstPass = true ∨ tables.EdgelessClear plane ids bits) ready ?_
  intro batch listed bits ready
  have short : batch.length ≤ queryBatchSize := length_of_mem_batches (by decide) listed
  have inside : ∀ id ∈ batch, id ∈ ids := fun id member => (mem_batches (by decide)).mp ⟨batch, listed, member⟩
  refine ⟨runRecomputeChunk_eq short (by split <;> simp [splitChunk])
    (ready.imp_right fun clear id member => clear id (inside id member)), ready.imp_right fun clear id member idle present => ?_⟩
  exact markUnmark_edgeless idle (.inl (clear id member idle present))

variable (tables issueIds wispIds) in
/-- The fixpoint loop without the split. -/
def recomputeUnsplit : Nat → Bits → Option RecomputeResult
  | 0, _ => none
  | fuel + 1, bits =>
      let issues := tables.runMarkUnmarkBatched .issue issueIds bits
      let wisps := tables.runMarkUnmarkBatched .wisp wispIds issues.1
      if issues.2 + wisps.2 = 0 then some ⟨wisps.1, issues.2 > 0, wisps.2 > 0⟩
      else (recomputeUnsplit fuel wisps.1).map fun rest =>
        ⟨rest.bits, issues.2 > 0 || rest.issueRowsChanged, wisps.2 > 0 || rest.wispRowsChanged⟩

theorem recomputeFixpoint_eq {fuel : Nat}
    (ready : firstPass = true ∨ tables.EdgelessClear .issue issueIds bits ∧ tables.EdgelessClear .wisp wispIds bits) :
    tables.recomputeFixpoint (tables.planRecompute .issue mode issueIds) (tables.planRecompute .wisp mode wispIds) fuel
      firstPass bits = tables.recomputeUnsplit issueIds wispIds fuel bits := by
  induction fuel generalizing bits firstPass with
  | zero => rfl
  | succ fuel ih =>
    rw [recomputeFixpoint, runRecomputePass_eq (ready.imp_right And.left),
      runRecomputePass_eq (ready.imp_right fun clear => clear.2.after),
        ih (.inr ⟨edgelessClear_swept.after, edgelessClear_swept⟩)]
    rfl

/-- The split changes neither what a pass does nor what the loop returns. -/
theorem recompute_split (tables : Tables) (mode : SplitMode) (bits : Bits) :
    (∀ plane ids, tables.runRecomputePass plane (tables.planRecompute plane mode ids) true bits =
      tables.runMarkUnmarkBatched plane ids bits) ∧
    ∀ issueIds wispIds fuel, tables.recomputeFixpoint (tables.planRecompute .issue mode issueIds)
      (tables.planRecompute .wisp mode wispIds) fuel true bits = tables.recomputeUnsplit issueIds wispIds fuel bits :=
  ⟨fun _ _ => runRecomputePass_eq (.inl rfl), fun _ _ _ => recomputeFixpoint_eq (.inl rfl)⟩

end Tables

end Beads
