import Beads.Blocked.Explained

namespace Beads

def marks (bits : Bits) : Set ItemRef := {ref | bits ref = true}

open List

theorem mem_parentRefs {read : ParentsByPlane} {ref : ItemRef} :
    ref ∈ parentRefs read ↔ ref.id ∈ read ref.plane := by
  simp only [parentRefs, mem_flatMap, mem_map]
  constructor
  · rintro ⟨plane, _, id, member, rfl⟩
    exact member
  · exact fun member => ⟨ref.plane, mem_planes _, ref.id, member, rfl⟩

theorem mem_idsIn {plane : Plane} {refs : List ItemRef} {id : Id} :
    id ∈ idsIn plane refs ↔ (⟨plane, id⟩ : ItemRef) ∈ refs := by
  simp only [idsIn, mem_map, mem_filter, beq_iff_eq]
  constructor
  · rintro ⟨ref, ⟨member, rfl⟩, rfl⟩
    exact member
  · exact fun member => ⟨_, ⟨member, rfl⟩, rfl⟩

namespace Tables

variable {tables : Tables} {bits : Bits} {plane : Plane} {id : Id} {ref : ItemRef}

theorem mem_candidateParents {sources : List (Plane × Scope)} : id ∈ tables.candidateParents plane sources ↔
    ∃ source ∈ sources, ∃ row ∈ tables.dependencies source.1,
      source.2 row.issueId = true ∧ row.type = .parentChild ∧ row.target = .item ⟨plane, id⟩ := by
  simp [candidateParents, column_eq_some, and_assoc]

theorem mem_reasonRows {candidates : List Id} {row : Dependency} :
    row ∈ tables.reasonRows bits plane candidates ↔ row ∈ tables.dependencies plane ∧
      tables.stored ⟨plane, row.issueId⟩ = true ∧ row.issueId ∈ candidates ∧
      bits ⟨plane, row.issueId⟩ = true ∧ tables.blockingReason row = true := by
  simp [reasonRows, and_assoc]

theorem mem_parentsExplainedBySubtreeCore {candidates : List Id} :
    id ∈ tables.parentsExplainedBySubtreeCore bits plane candidates ↔
      id ∈ candidates ∧ tables.stored ⟨plane, id⟩ = true ∧ bits ⟨plane, id⟩ = true ∧
        tables.HasReason ⟨plane, id⟩ ∧ ¬tables.HasExogenousReason ⟨plane, id⟩ := by
  simp only [parentsExplainedBySubtreeCore, mem_filter, mem_dedup, mem_map,
    all_eq_true, Bool.or_eq_true, bne_iff_ne, mem_reasonRows]
  constructor
  · rintro ⟨⟨row, ⟨member, present, candidate, blocked, reason⟩, rfl⟩, inside⟩
    refine ⟨candidate, present, blocked, ⟨row, member, rfl, reason⟩, ?_⟩
    rintro ⟨other, otherMember, same, otherReason, outside⟩
    change other.issueId = row.issueId at same
    rcases inside other ⟨otherMember, by rwa [same], by rwa [same], by rwa [same], otherReason⟩ with differs | within
    · exact differs same
    · exact absurd (outside.symm.trans within) (by decide)
  · rintro ⟨candidate, present, blocked, ⟨row, member, rfl, reason⟩, notExogenous⟩
    refine ⟨⟨row, ⟨member, present, candidate, blocked, reason⟩, rfl⟩, ?_⟩
    intro other listed
    by_cases same : other.issueId = row.issueId
    · refine .inr ?_
      by_contra outside
      exact notExogenous ⟨other, listed.1, same, listed.2.2.2.2, Bool.eq_false_iff.mpr outside⟩
    · exact .inl same

theorem mem_blockedParentEdges {children : List ItemRef} {child parent : ItemRef} :
    (child, parent) ∈ tables.blockedParentEdges bits children ↔
      child ∈ children ∧ tables.network.parent child parent ∧ bits parent = true := by
  simp only [blockedParentEdges, mem_flatMap, mem_filterMap]
  constructor
  · rintro ⟨plane, _, row, member, found⟩
    cases target : row.target with
    | external other => simp [target] at found
    | item above =>
      simp only [target, Option.ite_none_right_eq_some, Bool.and_eq_true, beq_iff_eq,
        contains_iff_mem, Option.some.injEq, Prod.mk.injEq] at found
      obtain ⟨⟨⟨⟨listed, type⟩, present⟩, blocked⟩, rfl, rfl⟩ := found
      exact ⟨listed, ⟨⟨row, member, rfl, type, target⟩, present⟩, blocked⟩
  · rintro ⟨listed, ⟨⟨row, member, source, type, target⟩, present⟩, blocked⟩
    have same : (⟨child.plane, row.issueId⟩ : ItemRef) = child := by rw [source]
    refine ⟨child.plane, mem_planes _, row, member, ?_⟩
    simp [target, same, listed, type, present, blocked]

theorem mem_explainedAmong {parents : List ItemRef} : ref ∈ tables.explainedAmong bits parents ↔
    ref ∈ parents ∧ tables.stored ref = true ∧ bits ref = true ∧ tables.HasReason ref ∧
      ¬tables.HasExogenousReason ref := by
  simp only [explainedAmong, mem_parentRefs, mem_parentsExplainedBySubtreeCore, mem_filter, mem_idsIn]
  tauto

theorem mem_withoutReasonAmong {parents : List ItemRef} : ref ∈ tables.withoutReasonAmong parents ↔
    ref ∈ parents ∧ ¬tables.HasReason ref := by
  simp only [withoutReasonAmong, mem_filter, Bool.not_eq_true', ← Bool.not_eq_true, any_eq_true,
    Bool.and_eq_true, beq_iff_eq]
  rfl

/-- With a complete read, every blocked parent its own subtree explains has been
met from the start. -/
def ReadComplete (tables : Tables) (bits : Bits) (complete : Bool) (met : List ItemRef) : Prop :=
  complete = true → ∀ child parent, tables.network.parent child parent → bits parent = true →
    tables.HasReason parent → ¬tables.HasExogenousReason parent → parent ∈ met

structure ClimbInvariant (tables : Tables) (bits : Bits) (frontier : List ItemRef) (climb : Climb) : Prop where
  entered : ∀ ref ∈ climb.met, ref ∈ climb.entered ↔ ¬tables.HasExogenousReason ref
  met : ∀ ref ∈ climb.entered, ref ∈ climb.met
  edges : ∀ edge ∈ climb.above, tables.network.parent edge.1 edge.2 ∧ bits edge.2 = true
  recorded : ∀ ref ∈ climb.entered, ref ∉ frontier → ∀ parent, tables.network.parent ref parent →
    bits parent = true → (ref, parent) ∈ climb.above ∧ parent ∈ climb.met

section Climbing

variable {complete : Bool} {frontier : List ItemRef} {climb : Climb}

def unknownParents (tables : Tables) (bits : Bits) (frontier : List ItemRef) (climb : Climb) : List ItemRef :=
  ((tables.blockedParentEdges bits frontier).map Prod.snd).dedup.filter fun parent => !climb.met.contains parent

theorem mem_unknownParents : ref ∈ tables.unknownParents bits frontier climb ↔
    (∃ child ∈ frontier, tables.network.parent child ref ∧ bits ref = true) ∧ ref ∉ climb.met := by
  simp [unknownParents, mem_blockedParentEdges, ← Bool.not_eq_true]

def unmet (tables : Tables) (met : List ItemRef) : List ItemRef :=
  (planes.flatMap fun plane => (tables.items plane).map fun row => ItemRef.mk plane row.id).filter
    fun ref => !met.contains ref

theorem mem_unmet {met : List ItemRef} : ref ∈ tables.unmet met ↔ tables.stored ref = true ∧ ref ∉ met := by
  have listed : tables.unmet met = tables.refs.filter fun ref => !met.contains ref := rfl
  simp [listed, mem_refs]

theorem unmet_length_lt {met fresh : List ItemRef} (present : tables.stored ref = true) (new : ref ∉ met)
    (entered : ref ∈ fresh) : (tables.unmet (met ++ fresh)).length < (tables.unmet met).length := by
  have narrower : (tables.unmet (met ++ fresh)).Sublist (tables.unmet met) := by
    have split : tables.unmet (met ++ fresh) = (tables.unmet met).filter fun ref => !fresh.contains ref := by
      simp only [unmet, filter_filter, contains_append, Bool.not_or, Bool.and_comm]
    rw [split]
    exact filter_sublist
  refine lt_of_le_of_ne narrower.length_le fun same => ?_
  have listed := mem_unmet.mpr ⟨present, new⟩
  rw [← narrower.eq_of_length same] at listed
  exact (mem_unmet.mp listed).2 (mem_append_right _ entered)

section

variable (read : tables.ReadComplete bits complete climb.met)
include read

theorem mem_climbLevel_next : ref ∈ (tables.climbLevel bits complete frontier climb).1 ↔
      ref ∈ tables.unknownParents bits frontier climb ∧ ¬tables.HasExogenousReason ref := by
  have level : (tables.climbLevel bits complete frontier climb).1 =
      let unknown := tables.unknownParents bits frontier climb
      let found := if complete then [] else tables.explainedAmong bits unknown
      found ++ tables.withoutReasonAmong (unknown.filter fun parent => !found.contains parent) := rfl
  have reasoned : tables.HasExogenousReason ref → tables.HasReason ref := tables.network.exogenous_reason
  cases complete with
  | true =>
    simp only [level, if_true, nil_append, mem_withoutReasonAmong, mem_filter, contains_nil,
      Bool.not_false, and_true]
    refine and_congr_right fun unknown => ⟨fun none exogenous => none (reasoned exogenous), fun inside reason => ?_⟩
    obtain ⟨⟨child, _, edge, blocked⟩, unmet⟩ := mem_unknownParents.mp unknown
    exact unmet (read rfl child ref edge blocked reason inside)
  | false =>
    simp only [level, Bool.false_eq_true, if_false, mem_append, mem_withoutReasonAmong, mem_filter,
      mem_explainedAmong, Bool.not_eq_true', ← Bool.not_eq_true, contains_iff_mem]
    constructor
    · rintro (⟨unknown, _, _, _, inside⟩ | ⟨⟨unknown, _⟩, none⟩)
      · exact ⟨unknown, inside⟩
      · exact ⟨unknown, fun exogenous => none (reasoned exogenous)⟩
    · rintro ⟨unknown, inside⟩
      obtain ⟨⟨child, _, edge, blocked⟩, _⟩ := mem_unknownParents.mp unknown
      by_cases reason : tables.HasReason ref
      · exact .inl ⟨unknown, edge.2, blocked, reason, inside⟩
      · exact .inr ⟨⟨unknown, fun found => reason found.2.2.2.1⟩, reason⟩

section

variable (invariant : tables.ClimbInvariant bits frontier climb)
include invariant

theorem ClimbInvariant.level : tables.ClimbInvariant bits (tables.climbLevel bits complete frontier climb).1
      (tables.climbLevel bits complete frontier climb).2 := by
  have climbed : (tables.climbLevel bits complete frontier climb).2 =
      ⟨climb.met ++ tables.unknownParents bits frontier climb,
        climb.entered ++ (tables.climbLevel bits complete frontier climb).1,
        climb.above ++ tables.blockedParentEdges bits frontier⟩ := rfl
  rw [climbed]
  refine ⟨?_, ?_, ?_, ?_⟩
  · intro ref member
    simp only [mem_append, mem_climbLevel_next read] at member ⊢
    by_cases old : ref ∈ climb.met
    · have fresh : ref ∉ tables.unknownParents bits frontier climb :=
        fun unknown => (mem_unknownParents.mp unknown).2 old
      simp [fresh, invariant.entered ref old]
    · have unentered : ref ∉ climb.entered := fun entered => old (invariant.met ref entered)
      simp [unentered, member.resolve_left old]
  · intro ref member
    simp only [mem_append, mem_climbLevel_next read] at member ⊢
    exact member.imp (invariant.met ref) And.left
  · intro edge member
    rcases mem_append.mp member with old | fresh
    · exact invariant.edges edge old
    · exact (mem_blockedParentEdges.mp fresh).2
  · intro ref member unfinished parent edge blocked
    have entered : ref ∈ climb.entered := (mem_append.mp member).resolve_right unfinished
    simp only [mem_append]
    by_cases current : ref ∈ frontier
    · refine ⟨.inr (mem_blockedParentEdges.mpr ⟨current, edge, blocked⟩), ?_⟩
      by_cases old : parent ∈ climb.met
      · exact .inl old
      · exact .inr (mem_unknownParents.mpr ⟨⟨ref, current, edge, blocked⟩, old⟩)
    · exact (invariant.recorded ref entered current parent edge blocked).imp .inl .inl

theorem ClimbInvariant.finish {fuel : Nat} (enough : (tables.unmet climb.met).length < fuel) :
    tables.ClimbInvariant bits [] (tables.climbBlockedParents bits complete fuel frontier climb) := by
  induction fuel generalizing frontier climb with
  | zero => exact absurd enough (Nat.not_lt_zero _)
  | succ fuel ih =>
    simp only [climbBlockedParents]
    split
    · rename_i done
      rwa [isEmpty_iff.mp done] at invariant
    · have level := invariant.level read
      have met : (tables.climbLevel bits complete frontier climb).2.met =
          climb.met ++ tables.unknownParents bits frontier climb := rfl
      cases next : (tables.climbLevel bits complete frontier climb).1 with
      | nil =>
        rw [next] at level
        cases fuel <;> exact level
      | cons ref rest =>
        have entered : ref ∈ (tables.climbLevel bits complete frontier climb).1 := by
          rw [next]
          exact (.head _)
        have unknown := ((mem_climbLevel_next read).mp entered).1
        obtain ⟨⟨_, _, edge, _⟩, new⟩ := mem_unknownParents.mp unknown
        rw [next] at level
        refine ih ?_ level ?_
        · intro whole child parent edge blocked reason inside
          rw [met]
          exact mem_append_left _ (read whole child parent edge blocked reason inside)
        · rw [met]
          have shrinks := unmet_length_lt edge.2 new unknown
          omega

end

end

theorem entered_climbBlockedParents {fuel : Nat} (member : ref ∈ climb.entered) :
    ref ∈ (tables.climbBlockedParents bits complete fuel frontier climb).entered := by
  induction fuel generalizing frontier climb with
  | zero => exact member
  | succ fuel ih =>
    simp only [climbBlockedParents]
    split
    · exact member
    · exact ih (mem_append_left _ member)

end Climbing

section Pruning

variable {complete : Bool} {read : ParentsByPlane}

theorem mem_dropBlockedFromAbove {climb : Climb} (invariant : tables.ClimbInvariant bits [] climb) :
    ref ∈ dropBlockedFromAbove climb ↔ ref ∈ climb.entered ∧ ¬tables.network.FromAbove (marks bits) ref := by
  simp only [dropBlockedFromAbove, Support.mem_drop]
  constructor
  · rintro ⟨part, within, closed, member⟩
    refine ⟨within ref member, fun chain => ?_⟩
    induction chain with
    | source edge marked exogenous =>
      have recorded := invariant.recorded _ (within _ member) not_mem_nil _ edge marked
      have kept := within _ (closed _ recorded.1 member)
      exact (invariant.entered _ recorded.2).mp kept exogenous
    | step edge marked _ ih =>
      have recorded := invariant.recorded _ (within _ member) not_mem_nil _ edge marked
      exact ih (closed _ recorded.1 member)
  · rintro ⟨entered, free⟩
    refine ⟨{x | x ∈ climb.entered ∧ ¬tables.network.FromAbove (marks bits) x}, fun x member =>
      member.1, ?_, entered, free⟩
    rintro ⟨child, parent⟩ listed ⟨childEntered, childFree⟩
    obtain ⟨edge, blocked⟩ := invariant.edges _ listed
    have recorded := invariant.recorded _ childEntered not_mem_nil _ edge blocked
    refine ⟨(invariant.entered _ recorded.2).mpr fun exogenous => ?_, fun chain => ?_⟩
    · exact childFree (.source edge blocked exogenous)
    · exact childFree (.step edge blocked chain)

theorem mem_pruneExplainedByAncestry (inside : ∀ ref ∈ parentRefs read, ¬tables.HasExogenousReason ref)
    (whole : tables.ReadComplete bits complete (parentRefs read)) :
    id ∈ tables.pruneExplainedByAncestry bits complete read plane ↔
      id ∈ read plane ∧ ¬tables.network.FromAbove (marks bits) ⟨plane, id⟩ := by
  unfold pruneExplainedByAncestry
  by_cases empty : (parentRefs read).isEmpty
  · have absent : id ∉ read plane := fun member => by
      have listed : (⟨plane, id⟩ : ItemRef) ∈ parentRefs read := mem_parentRefs.mpr member
      rw [isEmpty_iff.mp empty] at listed
      exact not_mem_nil listed
    simp [empty, absent]
  · have start : tables.ClimbInvariant bits (parentRefs read) ⟨parentRefs read, parentRefs read, []⟩ :=
      { entered := fun ref member => iff_of_true member (inside ref member)
        met := fun _ member => member
        edges := nofun
        recorded := fun ref member unfinished => absurd member unfinished }
    have fuel : (tables.unmet (parentRefs read)).length < tables.climbFuel := by
      refine Nat.lt_succ_of_le ((length_filter_le _ _).trans (le_of_eq ?_))
      simp [planes]
    have climbed : (⟨plane, id⟩ : ItemRef) ∈ dropBlockedFromAbove _ ↔ _ :=
      mem_dropBlockedFromAbove (start.finish whole fuel)
    have refs : (⟨plane, id⟩ : ItemRef) ∈ parentRefs read ↔ id ∈ read plane := mem_parentRefs
    simp only [empty, Bool.false_eq_true, if_false, mem_filter, contains_iff_mem, climbed]
    refine and_congr_right fun member => and_iff_right ?_
    exact entered_climbBlockedParents (refs.mpr member)

def NamedBy (tables : Tables) (sources : List (Plane × Scope)) (parent : ItemRef) : Prop :=
  ∃ source ∈ sources, ∃ child, child.plane = source.1 ∧ source.2 child.id = true ∧ tables.network.parent child parent

theorem mem_parentsExplainedBySubtree {sources : List (Plane × Scope)} :
    id ∈ tables.parentsExplainedBySubtree bits sources plane ↔ tables.NamedBy sources ⟨plane, id⟩ ∧
      bits ⟨plane, id⟩ = true ∧ tables.HasReason ⟨plane, id⟩ ∧ ¬tables.HasExogenousReason ⟨plane, id⟩ := by
  simp only [parentsExplainedBySubtree, mem_parentsExplainedBySubtreeCore, mem_candidateParents, NamedBy]
  constructor
  · rintro ⟨⟨source, listed, row, member, scope, type, target⟩, present, rest⟩
    exact ⟨⟨source, listed, ⟨source.1, row.issueId⟩, rfl, scope, ⟨row, member, rfl, type, target⟩, present⟩, rest⟩
  · rintro ⟨⟨source, listed, child, plane, scope, ⟨row, member, same, type, target⟩, present⟩, rest⟩
    refine ⟨⟨source, listed, row, plane ▸ member, ?_, type, target⟩, present, rest⟩
    rwa [same]

theorem mem_subtreeExplainedParents : id ∈ tables.subtreeExplainedParents bits plane ↔
    (∃ child, tables.network.parent child ⟨plane, id⟩) ∧ (⟨plane, id⟩ : ItemRef) ∈ tables.network.explained (marks bits) := by
  have named : ∀ parent, tables.NamedBy [(.issue, wholeTable), (.wisp, wholeTable)] parent ↔
      ∃ child, tables.network.parent child parent := by
    intro parent
    constructor
    · rintro ⟨_, _, child, _, _, edge⟩
      exact ⟨child, edge⟩
    · rintro ⟨child, edge⟩
      refine ⟨(child.plane, wholeTable), ?_, child, rfl, rfl, edge⟩
      cases child.plane <;> simp
  unfold subtreeExplainedParents
  rw [mem_pruneExplainedByAncestry, mem_parentsExplainedBySubtree, named]
  · simp only [Propagation.Network.explained, marks, Set.mem_ofPred_eq, and_assoc]
    rfl
  · intro ref listed
    exact (mem_parentsExplainedBySubtree.mp (mem_parentRefs.mp listed)).2.2.2
  · intro _ child parent edge blocked reason inside
    exact mem_parentRefs.mpr (mem_parentsExplainedBySubtree.mpr
      ⟨(named parent).mpr ⟨child, edge⟩, blocked, reason, inside⟩)

theorem mem_scopedExplainedParents {depPlane : Plane} {scope : Scope} :
    id ∈ tables.scopedExplainedParents bits depPlane scope plane ↔
      (∃ child, child.plane = depPlane ∧ scope child.id = true ∧ tables.network.parent child ⟨plane, id⟩) ∧
        (⟨plane, id⟩ : ItemRef) ∈ tables.network.explained (marks bits) := by
  have guarded : ∀ parentPlane parentId, parentId ∈ (if tables.batchParentKinds depPlane scope parentPlane
      then tables.parentsExplainedBySubtree bits [(depPlane, scope)] parentPlane else []) ↔
      parentId ∈ tables.parentsExplainedBySubtree bits [(depPlane, scope)] parentPlane := by
    intro parentPlane parentId
    by_cases kind : tables.batchParentKinds depPlane scope parentPlane = true
    · rw [if_pos kind]
    · rw [if_neg kind, mem_parentsExplainedBySubtree]
      simp only [not_mem_nil, false_iff, not_and]
      rintro ⟨source, listed, child, childPlane, inScope, ⟨row, member, same, type, target⟩, _⟩
      obtain rfl := mem_singleton.mp listed
      change child.plane = depPlane at childPlane
      change scope child.id = true at inScope
      refine absurd (any_eq_true.mpr ⟨row, childPlane ▸ member, ?_⟩) kind
      simp [same, inScope, type, column_eq_some.mpr target]
  unfold scopedExplainedParents
  rw [mem_pruneExplainedByAncestry, guarded, mem_parentsExplainedBySubtree]
  · simp only [Propagation.Network.explained, marks, Set.mem_ofPred_eq, NamedBy, mem_singleton, exists_eq_left, and_assoc]
    rfl
  · intro ref listed
    have read := (guarded ref.plane ref.id).mp (mem_parentRefs.mp listed)
    exact (mem_parentsExplainedBySubtree.mp read).2.2.2
  · intro whole
    exact absurd whole (by decide)

/-- A batch's own read and the complete read agree on the parents the batch names, and the last loop
of either returns one set in whatever order its map is walked. -/
theorem explained_reads_agree {depPlane : Plane} {ids : List Id}
    (named : ∃ row ∈ tables.dependencies depPlane, row.issueId ∈ ids ∧ row.type = .parentChild ∧ row.target = .item ⟨plane, id⟩) :
    (id ∈ tables.scopedExplainedParents bits depPlane (batchScope ids) plane ↔ id ∈ tables.subtreeExplainedParents bits plane) ∧
      ∀ (climb : Climb) (order : Nat → List ItemRef → List ItemRef),
        (∀ pass kept, kept ⊆ order pass kept) → ∀ fuel, climb.entered.length < fuel → ∀ ref,
          ref ∈ Support.dropLoopIn climb.above order fuel 0 climb.entered ↔ ref ∈ dropBlockedFromAbove climb := by
  obtain ⟨row, member, listed, type, target⟩ := named
  refine ⟨?_, fun climb order covers fuel enough ref => (Support.mem_dropLoopIn covers enough).trans Support.mem_drop.symm⟩
  rw [mem_scopedExplainedParents, mem_subtreeExplainedParents]
  refine and_congr_left fun _ => ⟨fun ⟨child, _, _, edge⟩ => ⟨child, edge⟩, fun ⟨_, _, present⟩ => ?_⟩
  exact ⟨⟨depPlane, row.issueId⟩, rfl, List.contains_iff_mem.mpr listed, ⟨row, member, rfl, type, target⟩, present⟩

def closeGate : Tables where
  items
    | .issue => [⟨"bd-epic", .opened⟩, ⟨"bd-first", .opened⟩, ⟨"bd-second", .inProgress⟩]
    | .wisp => []
  dependencies
    | .issue => [{ issueId := "bd-first", target := .item ⟨.issue, "bd-epic"⟩, type := .parentChild },
        { issueId := "bd-second", target := .item ⟨.issue, "bd-epic"⟩, type := .parentChild },
        { issueId := "bd-epic", target := .item ⟨.issue, "bd-first"⟩, type := .blocks }]
    | .wisp => []

theorem closeGate_reads_agree :
    ("bd-epic" ∈ closeGate.scopedExplainedParents (fun ref => ref.id == "bd-epic") .issue (batchScope ["bd-first"]) .issue ↔
      "bd-epic" ∈ closeGate.subtreeExplainedParents (fun ref => ref.id == "bd-epic") .issue) ∧
      ∀ (climb : Climb) (order : Nat → List ItemRef → List ItemRef),
        (∀ pass kept, kept ⊆ order pass kept) → ∀ fuel, climb.entered.length < fuel → ∀ ref,
          ref ∈ Support.dropLoopIn climb.above order fuel 0 climb.entered ↔ ref ∈ dropBlockedFromAbove climb :=
  explained_reads_agree ⟨_, .head _, .head _, rfl, rfl⟩

end Pruning

end Tables

end Beads
