import Beads.Dependencies.Rows

/-! Hanging an item below a target it had no other parent-child row beside: the gates of the waiters
on the target can change, and reasons of the target and of what lies above it can move inside their
subtree. -/

namespace Beads

namespace Tables

/-- The upper tables have one parent-child row of the child more, and the same
rows of every other item. -/
structure Hangs (lower upper : Tables) (child : ItemRef) (target : Target) : Prop where
  edits : EditsRowsOf lower upper child
  edges : ∀ plane edge, edge ∈ upper.hierarchyRows plane ↔
    edge ∈ lower.hierarchyRows plane ∨ plane = child.plane ∧ edge = (child.id, target)
  elsewhere : ∀ plane start, start ≠ child.id →
    lower.parentTargets plane (some start) = upper.parentTargets plane (some start)

def Rootless (tables : Tables) (id : Id) : Prop := ∀ plane, ∀ edge ∈ tables.hierarchyRows plane, edge.1 ≠ id

variable {tables lower upper : Tables} {child : ItemRef} {target : Target} {ancestor : Id} {depth : Nat}

variable {node : Id} {ref : ItemRef}

open List

theorem linked_iff {source : Id} : tables.Linked (· == .parentChild) source node ↔
    ∃ plane, ∃ edge ∈ tables.hierarchyRows plane, edge.1 = source ∧ edge.2.id = node := by
  simp only [Linked, mem_hierarchyRows, beq_iff_eq]
  constructor
  · intro ⟨plane, row, member, source, type, target⟩
    exact ⟨plane, _, ⟨row, member, type, rfl⟩, source, target⟩
  · rintro ⟨plane, _, ⟨row, member, type, rfl⟩, source, target⟩
    exact ⟨plane, row, member, source, type, target⟩

theorem Rootless.walkLevel {id : Id} (rootless : tables.Rootless id) : tables.walkLevel (some id) = [none] := by
  have bare : ∀ plane, tables.parentTargets plane (some id) = [] := by
    intro plane
    rw [parentTargets_eq, map_eq_nil_iff, filter_eq_nil_iff]
    exact fun edge member => by simpa using rootless plane edge member
  simp only [parentTargets] at bare
  simp [walkLevel_eq, leftJoin_bind, bare]

namespace Hangs

variable (hangs : Hangs lower upper child target)

include hangs

theorem reachable_lower (chain : Relation.ReflTransGen (upper.Linked (· == .parentChild)) target.id node) :
    Relation.ReflTransGen (lower.Linked (· == .parentChild)) target.id node := by
  induction chain with
  | refl => exact .refl
  | tail _ link ih =>
    obtain ⟨plane, edge, member, source, named⟩ := linked_iff.mp link
    cases (hangs.edges plane edge).mp member with
    | inl old => exact ih.tail (linked_iff.mpr ⟨plane, edge, old, source, named⟩)
    | inr new =>
      rw [← named, new.2]

theorem reachable_upper (chain : Relation.ReflTransGen (lower.Linked (· == .parentChild)) target.id node) :
    Relation.ReflTransGen (upper.Linked (· == .parentChild)) target.id node := by
  have within : lower.Linked (· == .parentChild) ≤ upper.Linked (· == .parentChild) := by
    intro source node link
    obtain ⟨plane, edge, member, ends⟩ := linked_iff.mp link
    exact linked_iff.mpr ⟨plane, edge, (hangs.edges plane edge).mpr (.inl member), ends⟩
  exact Relation.ReflTransGen.mono within _ _ chain

theorem parentChild {parent : ItemRef} :
    upper.ParentChild ref parent ↔ lower.ParentChild ref parent ∨ ref = child ∧ target = .item parent := by
  rw [parentChild_iff, parentChild_iff, hangs.edges]
  refine or_congr_right ?_
  obtain ⟨refPlane, refId⟩ := ref
  obtain ⟨childPlane, childId⟩ := child
  simp [and_assoc, eq_comm]

theorem acyclic_lower (acyclic : upper.ParentChildAcyclic) : lower.ParentChildAcyclic :=
  EdgeInsertion.Acyclic.mono acyclic fun _ _ edge => hangs.parentChild.mpr (.inl edge)

theorem acyclic_upper (acyclic : lower.ParentChildAcyclic)
    (apart : ∀ parent, target = .item parent →
    ¬Relation.ReflTransGen lower.ParentChild parent child) : upper.ParentChildAcyclic := by
  cases target with
  | external id =>
    exact EdgeInsertion.Acyclic.mono acyclic fun _ _ edge => (hangs.parentChild.mp edge).resolve_right fun new => nomatch new.2
  | item parent =>
    refine EdgeInsertion.Acyclic.mono
      ((EdgeInsertion.acyclic_extended_iff acyclic).mpr (apart parent rfl)) fun ref above edge => ?_
    exact (hangs.parentChild.mp edge).imp_right fun ⟨here, named⟩ => ⟨here, (Target.item.inj named).symm⟩

theorem blockingReason {row : Dependency}
    (other : row.type = .waitsFor → ∀ spawner, target = .item spawner →
    row.target ≠ .item spawner) : lower.blockingReason row = upper.blockingReason row := by
  refine blockingReason_congr (fun _ target _ => hangs.edits.active target) fun waits spawner named => ?_
  refine ⟨hangs.edits.active spawner, fun guard => childWith_congr (fun ref => ?_) fun ref _ => ?_⟩
  · rw [hangs.parentChild]
    exact (or_iff_left fun new => other waits spawner new.2 named).symm
  · simp only [hasStatus, hangs.edits.items]

section

variable (rootless : lower.Rootless child.id)
include rootless

theorem walkLevel_upper : ∀ parent ∈ upper.walkLevel (some child.id), parent = target.localId := by
  have named : ∀ plane, ∀ row ∈ upper.parentRows plane (some child.id), plane = child.plane ∧ row.target = target := by
    intro plane row member
    obtain ⟨listed, source, type⟩ := mem_parentRows.mp member
    cases (hangs.edges plane _).mp (mem_hierarchyRows.mpr ⟨row, listed, type, rfl⟩) with
    | inl old => exact absurd source (rootless plane _ old)
    | inr new => exact ⟨new.1, (Prod.mk.inj new.2).2⟩
  intro parent member
  rw [walkLevel_single fun _ first _ second => absurd ((named _ _ first).1.trans (named _ _ second).1.symm) (by decide),
    mem_leftJoin_bind] at member
  obtain ⟨row, listed, rfl⟩ | ⟨empty, _⟩ := member
  · obtain ⟨plane, listed⟩ := mem_parentRowsOf.mp listed
    rw [(named plane row (mem_parentRows.mpr listed)).2]
  · obtain ⟨row, listed, type, same⟩ := mem_hierarchyRows.mp ((hangs.edges child.plane _).mpr (.inr ⟨rfl, rfl⟩))
    exact absurd empty (ne_nil_of_mem (mem_parentRowsOf.mpr ⟨_, listed, (Prod.mk.inj same).1, type⟩))

theorem inside_upper {start : Option Id} (inside : lower.Inside ancestor depth start) :
    upper.Inside ancestor depth start := by
  induction depth generalizing start with
  | zero => exact absurd inside not_inside_zero
  | succ depth ih =>
    cases start with
    | none => exact absurd inside not_inside_none
    | some start =>
      rw [inside_succ] at inside ⊢
      by_cases same : start = child.id
      · subst same
        rw [rootless.walkLevel] at inside
        cases inside none (.head _) with
        | inl here => cases here
        | inr further => exact absurd further not_inside_none
      · intro parent member
        rw [← walkLevel_congr fun plane => hangs.elsewhere plane start same] at member
        exact (inside parent member).imp_right ih

theorem linked_of_inside {start : Option Id} (inside : upper.Inside ancestor depth start)
    (outside : ¬lower.Inside ancestor depth start) :
    Relation.ReflTransGen (upper.Linked (· == .parentChild)) target.id ancestor := by
  induction depth generalizing start with
  | zero => exact absurd inside not_inside_zero
  | succ depth ih =>
    cases start with
    | none => exact absurd inside not_inside_none
    | some start =>
      rw [inside_succ] at inside outside
      by_cases same : start = child.id
      · subst same
        obtain ⟨parent, member⟩ := exists_mem_of_ne_nil _ (walkLevel_ne_nil upper (some child.id))
        have met := inside parent member
        rw [hangs.walkLevel_upper rootless parent member] at met
        cases target with
        | external other => exact absurd met fun either => either.elim nofun not_inside_none
        | item ref =>
          cases met with
          | inl here => exact Option.some.inj here ▸ .refl
          | inr further => exact further.linked
      · push Not at outside
        obtain ⟨parent, member, elsewhere, missed⟩ := outside
        rw [walkLevel_congr fun plane => hangs.elsewhere plane start same] at member
        exact ih ((inside parent member).resolve_left elsewhere) missed

theorem insideSubtree {row : Dependency}
    (apart : ¬Relation.ReflTransGen (lower.Linked (· == .parentChild)) target.id ancestor) :
    lower.insideSubtree ancestor row = upper.insideSubtree ancestor row := by
  rw [Bool.eq_iff_iff, insideSubtree_iff, insideSubtree_iff]
  refine ⟨hangs.inside_upper rootless, fun inside => ?_⟩
  by_contra outside
  exact apart (hangs.reachable_lower (hangs.linked_of_inside rootless inside outside))

end

end Hangs

/-- The child is moved to or from its only place, below the target. -/
structure Rehangs (before after : Tables) (child : ItemRef) (target : Target) : Prop where
  edits : EditsRowsOf before after child
  reason : ∀ row : Dependency, (row.type = .waitsFor → ∀ spawner, target = .item spawner →
    row.target ≠ .item spawner) → before.blockingReason row = after.blockingReason row
  side : ∀ ancestor row, ¬Relation.ReflTransGen (after.Linked (· == .parentChild)) target.id ancestor →
    before.insideSubtree ancestor row = after.insideSubtree ancestor row

section

variable (hangs : Hangs lower upper child target)
include hangs

theorem Hangs.rehangs_added (rootless : lower.Rootless child.id) : Rehangs lower upper child target where
  edits := hangs.edits
  reason _ other := hangs.blockingReason other
  side _ _ apart := hangs.insideSubtree rootless fun chain => apart (hangs.reachable_upper chain)

theorem Hangs.rehangs_removed (rootless : lower.Rootless child.id) : Rehangs upper lower child target where
  edits := hangs.edits.symm
  reason _ other := (hangs.blockingReason other).symm
  side _ _ apart := (hangs.insideSubtree rootless apart).symm

end

theorem Rehangs.shouldBeBlocked {before after : Tables} (moved : Rehangs before after child target) (named : target.id ≠ "")
    (free : ¬after.AtOrBelow (after.depSeeds child target.id .parentChild) ∅ ref) :
    before.ShouldBeBlocked ref ↔ after.ShouldBeBlocked ref := by
  have other : ∀ ref, ¬after.AtOrBelow (after.depSeeds child target.id .parentChild) ∅ ref → ref ≠ child :=
    fun ref free same => free (.start (.inl same))
  have frame : Frame before after {ref | after.AtOrBelow (after.depSeeds child target.id .parentChild) ∅ ref} :=
    { active := fun ref _ => moved.edits.active ref
      rows := fun ref free row own _ => moved.edits.rows ref (other ref free) row own
      reason := by
        intro ref free row member own
        refine moved.reason row fun waits spawner hung same => free (.start (.inr ⟨rfl, named, .inl ⟨spawner, ?_, ?_⟩⟩))
        · rw [hung]
          rfl
        · exact ⟨row, member, own, waits, same⟩
      stored := fun _ _ above _ => moved.edits.stored above
      below := fun _ _ edge reached => .of_parent edge reached }
  refine frame.shouldBeBlocked (fun ref free above edge _ row member own reason => ?_) free
  -- A parent that the target reaches and that has a reason is on the ancestor chain, so its
  -- children are seeds.
  refine moved.side above.id row fun chain => free (.start (.inr ⟨rfl, named, .inr ⟨above, ?_, edge⟩⟩))
  have otherType : row.type ≠ .parentChild := by
    intro type
    simp [Tables.blockingReason, type, DependencyType.blocking] at reason
  exact mem_ancestorChain.mpr ⟨named, chain, .inr (hasOtherRow_iff.mpr ⟨_, row, member, own, otherType⟩)⟩

variable {plane : Plane} {row : Dependency}

theorem hangs_insert (absent : row.key ∉ (tables.dependencies plane).map Dependency.key) (type : row.type = .parentChild) :
    Hangs tables (tables.insertDependency plane row) ⟨plane, row.issueId⟩ row.target where
  edits := editsRowsOf_insert
  edges other edge := by
    simp only [mem_hierarchyRows, dependencies_insertDependency absent]
    by_cases same : other = plane
    · subst same
      simp [type, or_comm, eq_comm]
    · simp [same]
  elsewhere other start differ := by
    simp only [parentTargets, parentRows, dependencies_insertDependency absent]
    by_cases same : other = plane
    · subst same
      simp [Ne.symm differ]
    · simp [same]

theorem hangs_delete (member : row ∈ tables.dependencies plane) (type : row.type = .parentChild) :
    Hangs (tables.deleteDependency plane row.key) tables ⟨plane, row.issueId⟩ row.target where
  edits := editsRowsOf_delete.symm
  edges other edge := by
    simp only [mem_hierarchyRows, dependencies_deleteDependency, mem_filter]
    constructor
    · intro ⟨next, listed, parent, same⟩
      by_cases removed : other = plane ∧ next.key = row.key
      · obtain ⟨rfl, key⟩ := removed
        have equal := inj_on_of_nodup_map (tables.dependenciesKeyed other) listed member key
        exact .inr ⟨rfl, by rw [← same, equal]⟩
      · exact .inl ⟨next, ⟨listed, by simpa using not_and_or.mp removed⟩, parent, same⟩
    · intro either
      cases either with
      | inl kept =>
        obtain ⟨next, ⟨listed, _⟩, parent, same⟩ := kept
        exact ⟨next, listed, parent, same⟩
      | inr removed =>
        obtain ⟨rfl, same⟩ := removed
        exact ⟨row, member, type, same.symm⟩
  elsewhere other start differ := by
    simp only [parentTargets, parentRows, dependencies_deleteDependency, filter_filter]
    refine congrArg (map _) (filter_congr fun next _ => ?_)
    by_cases own : next.issueId = start
    · have kept : (next.key == row.key) = false := by
        refine beq_eq_false_iff_ne.mpr fun same => differ ?_
        rw [← own]
        exact congrArg Prod.fst same
      simp [kept]
    · simp [own]

section

variable {request : DependencyRequest} {opts : AddDependencyOpts} (checked : tables.checkDependencyCycle request = .ok ())
include checked

theorem not_ancestor_of_checked {parent : ItemRef} (type : request.type = .parentChild)
    (named : (tables.newDependency request opts).target = .item parent) :
    ¬Relation.ReflTransGen tables.ParentChild parent ⟨plane, request.issueId⟩ := by
  intro chain
  have target : parent.id = request.dependsOnId := by
    have id : (tables.newDependency request opts).target.id = _ := newDependency_id
    rwa [named] at id
  have linked := linked_scheduling (linked_of_ancestor chain)
  rw [target] at linked
  refine (checkDependencyCycle_ok.mp checked).2 ?_ linked
  rw [type]
  rfl

theorem acyclic_insertDependency
    (absent : (request.issueId, request.dependsOnId) ∉
      (tables.dependencies plane).map Dependency.key) (acyclic : tables.ParentChildAcyclic) :
    (tables.insertDependency plane (tables.newDependency request opts)).ParentChildAcyclic := by
  rw [← newDependency_key] at absent
  by_cases type : (tables.newDependency request opts).type = .parentChild
  · exact (hangs_insert absent type).acyclic_upper acyclic fun parent named => not_ancestor_of_checked checked type named
  · exact (sameHierarchy_insert type).acyclic acyclic

end

end Tables

end Beads
