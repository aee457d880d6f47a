import Beads.Data.EdgeInsertion
import Beads.Store.Types
import Beads.Propagation.Network

/-! The row predicates of the `is_blocked` statements, none of which reads the column itself: open
targets, waits-for gates, and the walk that decides whether a reason's target lies in the blocked
item's own subtree. -/

namespace Beads

def planes : List Plane := [.issue, .wisp]

/-- One side of a `LEFT JOIN`: the matching rows, or one row of `NULL`s. -/
def leftJoin {α : Type} (rows : List α) : List (Option α) :=
  if rows.isEmpty then [none] else rows.map some

theorem mem_planes (plane : Plane) : plane ∈ planes := by cases plane <;> decide

theorem column_eq_some {target : Target} {plane : Plane} {id : Id} :
    target.column plane = some id ↔ target = .item ⟨plane, id⟩ := by
  cases target with
  | external other => simp [Target.column]
  | item ref =>
    obtain ⟨refPlane, refId⟩ := ref
    by_cases same : refPlane = plane <;> simp [Target.column, same]

namespace Tables

variable (tables : Tables)

def stored (ref : ItemRef) : Bool := (tables.items ref.plane).any fun row => row.id == ref.id

/-- The item's row exists and is neither closed nor pinned. -/
def active (ref : ItemRef) : Bool :=
  (tables.items ref.plane).any fun row => row.id == ref.id && row.status.active

/-- A parent-child child of the spawner, in either plane, has a status the guard accepts. -/
def childWith (spawner : ItemRef) (guard : Status → Bool) : Bool :=
  planes.any fun plane => (tables.dependencies plane).any fun child =>
    child.type == .parentChild && child.target == .item spawner &&
      (tables.items plane).any fun row => row.id == child.issueId && guard row.status

/-- The gate predicate of a waits-for row: open children hold it unless an any-children gate has
seen a child close, and with `also_blocks` the open spawner itself holds it. -/
def waitsForGateBlocked (row : Dependency) : Bool :=
  match row.target with
  | .external _ => false
  | .item spawner =>
    (tables.childWith spawner Status.active &&
      !((row.metadata.extract "gate").getD "all-children" == "any-children" &&
        tables.childWith spawner (· == .closed))) ||
    ((row.metadata.extract "also_blocks").getD "false" == "true" && tables.active spawner)

def openTarget (row : Dependency) : Bool :=
  match row.target with
  | .external _ => false
  | .item ref => tables.active ref

def blockingReason (row : Dependency) : Bool :=
  row.type.blocking && tables.openTarget row || row.type == .waitsFor && tables.waitsForGateBlocked row

def parentRows (plane : Plane) : Option Id → List Dependency
  | none => []
  | some child => (tables.dependencies plane).filter fun row => row.issueId == child && row.type == .parentChild

/-- One level of the ancestor walk: a pair of left joins on the child and the first target that is
not `NULL`. -/
def walkLevel (child : Option Id) : List (Option Id) :=
  (leftJoin (tables.parentRows .issue child)).flatMap fun issueRow =>
    (leftJoin (tables.parentRows .wisp child)).map fun wispRow =>
      (issueRow.bind fun row => row.target.localId).or (wispRow.bind fun row => row.target.localId)

/-- The joined rows of the walk, each with the parent found at every level. -/
def walk : Nat → Option Id → List (List (Option Id))
  | 0, _ => [[]]
  | depth + 1, child => (tables.walkLevel child).flatMap fun parent => (walk depth parent).map (parent :: ·)

def subtreeWalkDepth : Nat := 4

/-- `MAX(CASE WHEN ... THEN 0 ELSE 1 END) = 0` over the joined rows of one reason row. -/
def insideSubtree (parent : Id) (row : Dependency) : Bool :=
  (tables.walk subtreeWalkDepth row.target.localId).all fun levels => levels.contains (some parent)

def ParentChild (child parent : ItemRef) : Prop :=
  ∃ row ∈ tables.dependencies child.plane,
    row.issueId = child.id ∧ row.type = .parentChild ∧ row.target = .item parent

def ParentChildAcyclic : Prop := ∀ ref, ¬Relation.TransGen tables.ParentChild ref ref

def HasReason (ref : ItemRef) : Prop :=
  ∃ row ∈ tables.dependencies ref.plane, row.issueId = ref.id ∧ tables.blockingReason row = true

def HasExogenousReason (ref : ItemRef) : Prop :=
  ∃ row ∈ tables.dependencies ref.plane,
    row.issueId = ref.id ∧ tables.blockingReason row = true ∧ tables.insideSubtree ref.id row = false

def refs : List ItemRef := planes.flatMap fun plane => (tables.items plane).map fun row => ⟨plane, row.id⟩

def Apart : Prop := ∀ id, ¬(tables.stored ⟨.issue, id⟩ = true ∧ tables.stored ⟨.wisp, id⟩ = true)

variable {tables} {ref other : ItemRef}

theorem Apart.eq_of_id (apart : tables.Apart) (present : tables.stored ref = true)
    (alsoPresent : tables.stored other = true) (same : ref.id = other.id) : ref = other := by
  obtain ⟨plane, id⟩ := ref
  obtain ⟨otherPlane, otherId⟩ := other
  cases same
  cases plane <;> cases otherPlane
  · rfl
  · exact absurd ⟨present, alsoPresent⟩ (apart id)
  · exact absurd ⟨alsoPresent, present⟩ (apart id)
  · rfl

theorem stored_iff : tables.stored ref = true ↔ ∃ row ∈ tables.items ref.plane, row.id = ref.id := by
  simp [stored]

theorem mem_refs : ref ∈ tables.refs ↔ tables.stored ref = true := by
  rw [stored_iff, refs, List.mem_flatMap]
  constructor
  · intro ⟨plane, _, member⟩
    obtain ⟨row, listed, rfl⟩ := List.mem_map.mp member
    exact ⟨row, listed, rfl⟩
  · intro ⟨row, listed, named⟩
    exact ⟨ref.plane, mem_planes _, List.mem_map.mpr ⟨row, listed, by rw [named]⟩⟩

theorem active_iff : tables.active ref = true ↔
    ∃ row ∈ tables.items ref.plane, row.id = ref.id ∧ row.status.active = true := by
  simp [active]

theorem stored_of_active (active : tables.active ref = true) : tables.stored ref = true := by
  obtain ⟨row, member, same, _⟩ := active_iff.mp active
  exact stored_iff.mpr ⟨row, member, same⟩

theorem active_row {plane : Plane} {row : Row} (member : row ∈ tables.items plane) :
    tables.active ⟨plane, row.id⟩ = row.status.active := by
  have unique : ∀ other ∈ tables.items plane, other.id = row.id → other = row :=
    fun other found same => List.inj_on_of_nodup_map (tables.itemsKeyed plane) found member same
  cases status : row.status.active with
  | true => exact active_iff.mpr ⟨row, member, rfl, status⟩
  | false =>
    refine Bool.eq_false_iff.mpr fun active => ?_
    obtain ⟨other, found, same, open_⟩ := active_iff.mp active
    rw [unique other found same, status] at open_
    exact absurd open_ (by decide)

variable (tables) in
def network : Propagation.Network ItemRef where
  rows := {ref | tables.stored ref = true}
  parent child above := tables.ParentChild child above ∧ tables.stored above = true
  live ref := tables.active ref = true
  reason := tables.HasReason
  exogenous := tables.HasExogenousReason
  parent_row edge := edge.2
  live_row := stored_of_active
  exogenous_reason := fun ⟨row, member, source, reason, _⟩ => ⟨row, member, source, reason⟩

theorem network_acyclic (acyclic : tables.ParentChildAcyclic) : tables.network.Acyclic :=
  EdgeInsertion.Acyclic.mono acyclic fun _ _ edge => edge.1

variable (tables) in
/-- Every parent-child row leads to a parent of smaller rank. -/
def ranked (rank : ItemRef → Nat) : Bool :=
  planes.all fun plane => (tables.dependencies plane).all fun row =>
    row.type != .parentChild ||
      match row.target with
      | .item parent => rank parent < rank ⟨plane, row.issueId⟩
      | .external _ => true

theorem acyclic_of_ranked (rank : ItemRef → Nat) (ranked : tables.ranked rank = true) : tables.ParentChildAcyclic := by
  have descends : ∀ child parent, tables.ParentChild child parent → rank parent < rank child := by
    rintro ⟨plane, id⟩ parent ⟨row, member, same, type, target⟩
    have checked := List.all_eq_true.mp (List.all_eq_true.mp ranked plane (mem_planes plane)) row member
    subst same
    simpa [type, target] using checked
  intro ref cycle
  have below := Relation.TransGen.lift (p := (· > ·)) rank descends ref ref cycle
  rw [Relation.transGen_eq_self] at below
  exact Nat.lt_irrefl _ below

theorem network_rows_finite : tables.network.rows.Finite :=
  (List.finite_toSet tables.refs).subset fun _ => mem_refs.mpr

end Tables

end Beads
