import Beads.Blocked.Incremental
import Beads.Dependencies.Reachability

/-! The subtree walk as a recursion over its levels, and the items whose answer an edit leaves
alone: their rows, their reasons and their parents are as before, nothing above them is touched, and
no parent of theirs has gained or lost a reason from outside its own subtree. -/

namespace Beads

open Propagation List

namespace Tables

variable {row : Dependency}

section Walk

variable (tables : Tables)

def parentTargets (plane : Plane) (child : Option Id) : List (Option Id) :=
  (tables.parentRows plane child).map fun row => row.target.localId

/-- Every joined row of a walk of the depth meets the id. -/
def Inside (ancestor : Id) (depth : Nat) (start : Option Id) : Prop :=
  ∀ levels ∈ tables.walk depth start, some ancestor ∈ levels

/-- What one table shows as the parent of a child: the local target of one of its parent-child rows,
or nothing when it has no such row. -/
def ShowsIn (plane : Plane) (child : Id) (parent : Option Id) : Prop :=
  (∃ row ∈ tables.parentRows plane (some child), row.target.localId = parent) ∨
    tables.parentRows plane (some child) = [] ∧ parent = none

def Shows (child : Id) (parent : Option Id) : Prop :=
  ∃ issue wisp, tables.ShowsIn .issue child issue ∧ tables.ShowsIn .wisp child wisp ∧ issue.or wisp = parent

/-- A parent-child row of either table hangs the child under the parent. -/
def HangsUnder (child parent : Id) : Prop :=
  ∃ plane, ∃ row ∈ tables.parentRows plane (some child), row.target.localId = some parent

variable {tables} {before after : Tables} {ancestor : Id} {depth : Nat} {start : Option Id}

theorem leftJoin_ne_nil {α : Type} (rows : List α) : leftJoin rows ≠ [] := by
  cases rows <;> simp [leftJoin]

theorem leftJoin_bind {α β : Type} {rows : List α} {value : α → Option β} :
    (leftJoin rows).map (·.bind value) = if (rows.map value).isEmpty then [none] else rows.map value := by
  cases rows <;> simp [leftJoin]

theorem walkLevel_eq : tables.walkLevel start =
    ((leftJoin (tables.parentRows .issue start)).map (·.bind fun row => row.target.localId)).flatMap fun issue =>
      ((leftJoin (tables.parentRows .wisp start)).map (·.bind fun row => row.target.localId)).map issue.or := by
  simp [walkLevel, flatMap_map, map_map, Function.comp_def]

theorem walkLevel_congr (same : ∀ plane, before.parentTargets plane start = after.parentTargets plane start) :
    before.walkLevel start = after.walkLevel start := by
  simp only [parentTargets] at same
  simp only [walkLevel_eq, leftJoin_bind, same]

theorem walkLevel_ne_nil (tables : Tables) (start : Option Id) : tables.walkLevel start ≠ [] := by
  simp only [walkLevel, ne_eq, flatMap_eq_nil_iff, map_eq_nil_iff, leftJoin_ne_nil, imp_false]
  exact fun none => leftJoin_ne_nil _ (eq_nil_iff_forall_not_mem.mpr none)

theorem walkLevel_none : tables.walkLevel none = [none] := rfl

variable {child : Id}

theorem mem_parentRows {plane : Plane} : row ∈ tables.parentRows plane (some child) ↔
    row ∈ tables.dependencies plane ∧ row.issueId = child ∧ row.type = .parentChild := by
  simp [parentRows]

theorem mem_leftJoin_bind {rows : List Dependency} {parent : Option Id} :
    parent ∈ (leftJoin rows).map (·.bind fun row => row.target.localId) ↔
      (∃ row ∈ rows, row.target.localId = parent) ∨ rows = [] ∧ parent = none := by
  cases rows with
  | nil => simp [leftJoin]
  | cons first rest => simp [leftJoin, or_comm, eq_comm]

def parentRowsOf (tables : Tables) (child : Id) : List Dependency := planes.flatMap fun plane =>
    tables.parentRows plane (some child)

theorem mem_parentRowsOf : row ∈ tables.parentRowsOf child ↔
    ∃ plane, row ∈ tables.dependencies plane ∧ row.issueId = child ∧ row.type = .parentChild := by
  simp [parentRowsOf, mem_planes, mem_parentRows]

theorem walkLevel_single
    (apart : ∀ one ∈ tables.parentRows .issue (some child), ∀ other ∈ tables.parentRows .wisp (some child), False) :
    tables.walkLevel (some child) = (leftJoin (tables.parentRowsOf child)).map (·.bind fun row => row.target.localId) := by
  have single : tables.parentRows .issue (some child) = [] ∨ tables.parentRows .wisp (some child) = [] := by
    by_contra both
    rw [not_or] at both
    obtain ⟨one, first⟩ := exists_mem_of_ne_nil _ both.1
    obtain ⟨other, second⟩ := exists_mem_of_ne_nil _ both.2
    exact apart one first other second
  rw [walkLevel_eq]
  cases single with
  | inl empty | inr empty => simp [parentRowsOf, planes, empty, leftJoin]

theorem mem_walkLevel {parent : Option Id} :
    parent ∈ tables.walkLevel (some child) ↔ tables.Shows child parent := by
  simp only [walkLevel_eq, mem_flatMap, mem_leftJoin_bind, mem_map (f := Option.or _), Shows,
    ShowsIn, exists_and_left]

theorem hangsUnder_of_walkLevel {parent : Id}
    (reached : some parent ∈ tables.walkLevel (some child)) : tables.HangsUnder child parent := by
  obtain ⟨issue, wisp, first, second, same⟩ := mem_walkLevel.mp reached
  cases issue with
  | none =>
    obtain ⟨row, member, target⟩ | ⟨_, rfl⟩ := second
    · exact ⟨.wisp, row, member, target.trans same⟩
    · cases same
  | some found =>
    obtain ⟨row, member, target⟩ | ⟨_, absent⟩ := first
    · exact ⟨.issue, row, member, target.trans same⟩
    · cases absent

theorem linked_of_walkLevel {parent : Id} (reached : some parent ∈ tables.walkLevel (some child)) :
    tables.Linked (· == .parentChild) child parent := by
  obtain ⟨plane, row, member, target⟩ := hangsUnder_of_walkLevel reached
  obtain ⟨listed, source, type⟩ := mem_parentRows.mp member
  refine ⟨plane, row, listed, source, by simp [type], ?_⟩
  cases shape : row.target with
  | item ref => simpa [shape, Target.localId, Target.id] using target
  | external other => simp [shape, Target.localId] at target

theorem not_inside_zero : ¬tables.Inside ancestor 0 start := by simp [Inside, walk]

theorem inside_succ : tables.Inside ancestor (depth + 1) start ↔
    ∀ parent ∈ tables.walkLevel start, parent = some ancestor ∨ tables.Inside ancestor depth parent := by
  simp only [Inside, walk, mem_flatMap, mem_map]
  constructor
  · intro inside parent member
    by_cases here : parent = some ancestor
    · exact .inl here
    · refine .inr fun levels listed => ?_
      have met := inside _ ⟨parent, member, levels, listed, rfl⟩
      exact (mem_cons.mp met).resolve_left fun same => here same.symm
  · intro each levels ⟨parent, member, rest, listed, same⟩
    subst same
    cases each parent member with
    | inl here => exact here ▸ mem_cons_self
    | inr further => exact mem_cons_of_mem _ (further rest listed)

theorem not_inside_none : ¬tables.Inside ancestor depth none := by
  induction depth with
  | zero => exact not_inside_zero
  | succ depth ih => simp [inside_succ, walkLevel_none, ih]

theorem Inside.linked (inside : tables.Inside ancestor depth (some child)) :
    Relation.ReflTransGen (tables.Linked (· == .parentChild)) child ancestor := by
  induction depth generalizing child with
  | zero => exact absurd inside not_inside_zero
  | succ depth ih =>
    obtain ⟨parent, member⟩ := exists_mem_of_ne_nil _ (walkLevel_ne_nil tables (some child))
    cases parent with
    | none =>
      cases inside_succ.mp inside none member with
      | inl here => cases here
      | inr further => exact absurd further not_inside_none
    | some parent =>
      refine .head (linked_of_walkLevel member) ?_
      cases inside_succ.mp inside _ member with
      | inl here => exact Option.some.inj here ▸ .refl
      | inr further => exact ih further

theorem insideSubtree_iff :
    tables.insideSubtree ancestor row = true ↔ tables.Inside ancestor subtreeWalkDepth row.target.localId := by
  simp [insideSubtree, Inside]

theorem insideSubtree_of_walkLevel
    (same : ∀ start parent, parent ∈ before.walkLevel start ↔ parent ∈ after.walkLevel start) :
    before.insideSubtree ancestor row = after.insideSubtree ancestor row := by
  have each : ∀ depth start, before.Inside ancestor depth start ↔ after.Inside ancestor depth start := by
    intro depth
    induction depth with
    | zero => exact fun start => iff_of_false not_inside_zero not_inside_zero
    | succ depth ih =>
      intro start
      simp only [inside_succ, same start, ih]
  rw [Bool.eq_iff_iff, insideSubtree_iff, insideSubtree_iff]
  exact each _ _

theorem insideSubtree_congr
    (same : ∀ plane child, before.parentTargets plane child = after.parentTargets plane child) :
    before.insideSubtree ancestor row = after.insideSubtree ancestor row :=
  insideSubtree_of_walkLevel fun start _ => by rw [walkLevel_congr fun plane => same plane start]

end Walk

section Hierarchy

def hierarchyRows (tables : Tables) (plane : Plane) : List (Id × Target) :=
  ((tables.dependencies plane).filter fun row => row.type == .parentChild).map fun row => (row.issueId, row.target)

variable {tables before after : Tables} {child parent : ItemRef}

theorem mem_hierarchyRows {plane : Plane} {edge : Id × Target} : edge ∈ tables.hierarchyRows plane ↔
    ∃ row ∈ tables.dependencies plane, row.type = .parentChild ∧ (row.issueId, row.target) = edge := by
  simp [hierarchyRows, and_assoc]

theorem parentChild_iff : tables.ParentChild child parent ↔ (child.id, .item parent) ∈ tables.hierarchyRows child.plane := by
  simp only [mem_hierarchyRows, Prod.mk.injEq]
  exact exists_congr fun row => and_congr_right fun _ => and_left_comm

theorem parentTargets_eq {plane : Plane} {start : Id} : tables.parentTargets plane (some start) =
    ((tables.hierarchyRows plane).filter fun edge => edge.1 == start).map fun edge => edge.2.localId := by
  simp only [parentTargets, parentRows, hierarchyRows, filter_map, map_map, filter_filter]
  rfl

def hasStatus (tables : Tables) (ref : ItemRef) (guard : Status → Bool) : Bool :=
  (tables.items ref.plane).any fun row => row.id == ref.id && guard row.status

theorem stored_of_hasStatus {ref : ItemRef} {guard : Status → Bool}
    (found : tables.hasStatus ref guard = true) : tables.stored ref = true := by
  simp only [hasStatus, any_eq_true, Bool.and_eq_true, beq_iff_eq] at found
  obtain ⟨row, member, named, _⟩ := found
  exact stored_iff.mpr ⟨row, member, named⟩

theorem stored_eq_hasStatus {ref : ItemRef} : tables.stored ref = tables.hasStatus ref fun _ => true := by
  simp [stored, hasStatus]

theorem childWith_iff {spawner : ItemRef} {guard : Status → Bool} : tables.childWith spawner guard =
    true ↔ ∃ child, tables.ParentChild child spawner ∧ tables.hasStatus child guard = true := by
  simp only [childWith, hasStatus, any_eq_true, Bool.and_eq_true, beq_iff_eq]
  constructor
  · intro ⟨plane, _, edge, member, ⟨type, target⟩, found⟩
    exact ⟨⟨plane, edge.issueId⟩, ⟨edge, member, rfl, type, target⟩, found⟩
  · intro ⟨child, ⟨edge, member, own, type, target⟩, found⟩
    exact ⟨child.plane, mem_planes _, edge, member, ⟨type, target⟩, own ▸ found⟩

theorem childWith_congr {spawner : ItemRef} {guard : Status → Bool}
    (edges : ∀ child, before.ParentChild child spawner ↔ after.ParentChild child spawner)
    (statuses : ∀ child, after.ParentChild child spawner → before.hasStatus child guard = after.hasStatus child guard) :
    before.childWith spawner guard = after.childWith spawner guard := by
  rw [Bool.eq_iff_iff, childWith_iff, childWith_iff]
  refine exists_congr fun child => ?_
  rw [edges child]
  exact and_congr_right fun edge => by rw [statuses child edge]

theorem blockingReason_congr
    (blocker : row.type.blocking = true → ∀ target, row.target = .item target → before.active target = after.active target)
    (gate : row.type = .waitsFor → ∀ spawner, row.target = .item spawner →
      before.active spawner = after.active spawner ∧ ∀ guard, before.childWith spawner guard =
    after.childWith spawner guard) : before.blockingReason row = after.blockingReason row := by
  have target : row.type.blocking = true → before.openTarget row = after.openTarget row := by
    intro blocking
    unfold openTarget
    cases named : row.target with
    | external id => rfl
    | item target => exact blocker blocking target named
  have held : row.type = .waitsFor → before.waitsForGateBlocked row = after.waitsForGateBlocked row := by
    intro waits
    unfold waitsForGateBlocked
    cases named : row.target with
    | external id => rfl
    | item spawner =>
      obtain ⟨active, children⟩ := gate waits spawner named
      simp only [active, children]
  unfold blockingReason
  by_cases waits : row.type = .waitsFor
  · rw [held waits]
    simp [waits, DependencyType.blocking]
  · have plain : (row.type == .waitsFor) = false := beq_eq_false_iff_ne.mpr waits
    cases blocking : row.type.blocking with
    | true => simp only [target blocking, plain, Bool.false_and]
    | false => simp [plain]

/-- Only the items, the other rows, the metadata and the threads may differ. -/
def SameHierarchy (before after : Tables) : Prop :=
  ∀ plane, before.hierarchyRows plane = after.hierarchyRows plane

section

variable (same : SameHierarchy before after)
include same

theorem SameHierarchy.symm : SameHierarchy after before := fun plane => (same plane).symm

theorem SameHierarchy.parentChild : before.ParentChild child parent ↔ after.ParentChild child parent := by
  rw [parentChild_iff, parentChild_iff, same child.plane]

theorem SameHierarchy.acyclic (acyclic : before.ParentChildAcyclic) : after.ParentChildAcyclic :=
  EdgeInsertion.Acyclic.mono acyclic fun _ _ edge => same.parentChild.mpr edge

theorem SameHierarchy.insideSubtree {ancestor : Id} :
    before.insideSubtree ancestor row = after.insideSubtree ancestor row := by
  refine insideSubtree_congr fun plane start => ?_
  cases start with
  | none => rfl
  | some start => rw [parentTargets_eq, parentTargets_eq, same plane]

theorem SameHierarchy.blockingReason (items : before.items = after.items)
    (row : Dependency) : before.blockingReason row = after.blockingReason row := by
  have active : ∀ ref, before.active ref = after.active ref := fun ref => by simp only [Tables.active, items]
  refine blockingReason_congr (fun _ target _ => active target) fun _ spawner _ => ⟨active spawner, fun guard => ?_⟩
  exact childWith_congr (fun _ => same.parentChild) fun child _ => by simp only [hasStatus, items]

end

end Hierarchy

/-- Some parent of the item is darkened from outside its own subtree. -/
def DarkFromAbove (tables : Tables) (ref : ItemRef) : Prop :=
  ∃ above, tables.network.parent ref above ∧ tables.network.Darkened above

theorem shouldBeBlocked_iff {tables : Tables} {ref : ItemRef} : tables.ShouldBeBlocked ref ↔
    tables.active ref = true ∧ (tables.HasReason ref ∨ tables.DarkFromAbove ref) := Iff.rfl

theorem blockingReason_known {tables : Tables} (reason : tables.blockingReason row = true)
    (name : String) : row.type ≠ .other name := by
  intro other
  simp [blockingReason, other, DependencyType.blocking] at reason

/-- The items outside the set have the rows and parents they had, live under the same statuses, and
lie below no item of the set. -/
structure Frame (before after : Tables) (touched : Set ItemRef) : Prop where
  active : ∀ ref ∉ touched, before.active ref = after.active ref
  rows : ∀ ref ∉ touched, ∀ row, row.issueId = ref.id → (∀ name, row.type ≠ .other name) →
    (row ∈ before.dependencies ref.plane ↔ row ∈ after.dependencies ref.plane)
  reason : ∀ ref ∉ touched, ∀ row ∈ after.dependencies ref.plane, row.issueId = ref.id →
    before.blockingReason row = after.blockingReason row
  stored : ∀ ref ∉ touched, ∀ above, after.ParentChild ref above → before.stored above = after.stored above
  below : ∀ ref above, after.ParentChild ref above → above ∈ touched → ref ∈ touched

variable {before after : Tables} {touched : Set ItemRef} {ref above : ItemRef}

namespace Frame

variable (frame : Frame before after touched)

include frame

section

variable (free : ref ∉ touched)
include free

theorem hasReason : before.HasReason ref ↔ after.HasReason ref := by
  constructor
  · intro ⟨row, member, source, reason⟩
    have kept := (frame.rows ref free row source (blockingReason_known reason)).mp member
    exact ⟨row, kept, source, (frame.reason ref free row kept source) ▸ reason⟩
  · intro ⟨row, member, source, reason⟩
    have old := (frame.rows ref free row source (blockingReason_known reason)).mpr member
    exact ⟨row, old, source, (frame.reason ref free row member source).trans reason⟩

theorem parentChild : before.ParentChild ref above ↔ after.ParentChild ref above := by
  refine exists_congr fun row => and_congr_left fun ⟨source, type, _⟩ => ?_
  exact frame.rows ref free row source (by simp [type])

theorem parent : before.network.parent ref above ↔ after.network.parent ref above := by
  refine (and_congr_left' (frame.parentChild free)).trans (and_congr_right fun edge => ?_)
  rw [frame.stored ref free above edge]

theorem shouldBeBlocked_congr : (before.ShouldBeBlocked ref ↔ after.ShouldBeBlocked ref) ↔
    (after.active ref = true → ¬after.HasReason ref → (before.DarkFromAbove ref ↔ after.DarkFromAbove ref)) := by
  rw [shouldBeBlocked_iff, shouldBeBlocked_iff, frame.active ref free, frame.hasReason free]
  by_cases active : after.active ref = true <;> by_cases reason : after.HasReason ref <;> simp [active, reason]

end

theorem untouched (exogenous : ∀ ref ∉ touched, ∀ above, after.ParentChild ref above →
      after.stored above = true → (before.HasExogenousReason above ↔
    after.HasExogenousReason above)) : Network.Untouched after.network before.network touched where
  live ref free := by
    change after.active ref = true ↔ before.active ref = true
    rw [frame.active ref free]
  reason ref free := (frame.hasReason free).symm
  parent ref free above := (frame.parent free).symm
  below ref above edge reached := frame.below ref above edge.1 reached
  exogenous ref free above edge := (exogenous ref free above edge.1 edge.2).symm

theorem hasExogenousReason (free : above ∉ touched)
    (side : ∀ row ∈ after.dependencies above.plane, row.issueId = above.id → after.blockingReason row = true →
      before.insideSubtree above.id row = after.insideSubtree above.id row) :
    before.HasExogenousReason above ↔ after.HasExogenousReason above := by
  constructor
  · rintro ⟨row, member, own, reason, outside⟩
    have kept := (frame.rows above free row own (blockingReason_known reason)).mp member
    rw [frame.reason above free row kept own] at reason
    exact ⟨row, kept, own, reason, side row kept own reason ▸ outside⟩
  · rintro ⟨row, member, own, reason, outside⟩
    have old := (frame.rows above free row own (blockingReason_known reason)).mpr member
    refine ⟨row, old, own, ?_, (side row member own reason).trans outside⟩
    rw [frame.reason above free row member own, reason]

theorem shouldBeBlocked (sides : ∀ ref ∉ touched, ∀ above, after.ParentChild ref above → above ∉ touched →
      ∀ row ∈ after.dependencies above.plane, row.issueId = above.id → after.blockingReason row = true →
        before.insideSubtree above.id row = after.insideSubtree above.id row)
    (free : ref ∉ touched) : before.ShouldBeBlocked ref ↔ after.ShouldBeBlocked ref := by
  refine ((frame.untouched fun ref free above edge _ => ?_).settled free).symm
  have aboveFree := fun reached => free (frame.below ref above edge reached)
  exact frame.hasExogenousReason aboveFree (sides ref free above edge aboveFree)

end Frame

end Tables

end Beads
