import Beads.Blocked.Scoped
import Beads.Propagation.Order

namespace Beads

open Propagation Batches List

namespace Tables

variable {tables : Tables} {plane : Plane}

def longest (tables : Tables) : Nat :=
  ((planes.flatMap tables.items).map fun row => row.id.length).foldr max 0

theorem length_le_longest {row : Row} (member : row ∈ tables.items plane) : row.id.length ≤ tables.longest := by
  have listed := mem_map_of_mem (f := fun row => row.id.length) (mem_flatMap_of_mem (mem_planes plane) member)
  exact le_max_of_le listed le_rfl

def padId (tables : Tables) (k : Nat) : Id :=
  String.ofList (List.replicate (tables.longest + 1 + k) 'a')

theorem padId_length (k : Nat) : (tables.padId k).length = tables.longest + 1 + k := by
  rw [padId, String.length_ofList, length_replicate]

theorem padId_injective {k other : Nat} (same : tables.padId k = tables.padId other) : k = other := by
  have lengths := congrArg String.length same
  rw [padId_length, padId_length] at lengths
  omega

theorem padId_not_stored (k : Nat) : tables.stored ⟨plane, tables.padId k⟩ = false := by
  rw [Bool.eq_false_iff]
  intro present
  obtain ⟨row, member, same⟩ := stored_iff.mp present
  have bound := length_le_longest member
  rw [same, padId_length] at bound
  omega

def block (tables : Tables) (item : Nat → ItemRef) (i : Nat) : List Id :=
  (item i).id :: (List.range (queryBatchSize - 1)).map fun k => tables.padId (i * queryBatchSize + k)

variable {item : Nat → ItemRef} {i j : Nat}

theorem length_block : (tables.block item i).length = queryBatchSize := by
  simp [block, queryBatchSize]

theorem mem_block {ref : ItemRef} (member : ref.id ∈ tables.block item i)
    (present : tables.stored ref = true) : ref.id = (item i).id := by
  rcases mem_cons.mp member with same | padded
  · exact same
  · obtain ⟨k, _, same⟩ := mem_map.mp padded
    have absent : tables.stored ⟨ref.plane, tables.padId (i * queryBatchSize + k)⟩ = false := padId_not_stored _
    rw [same] at absent
    exact absurd present (by rw [absent]; exact Bool.false_ne_true)

theorem block_nodup (present : tables.stored (item i) = true) : (tables.block item i).Nodup := by
  refine nodup_cons.mpr ⟨fun padded => ?_, ?_⟩
  · obtain ⟨k, _, same⟩ := mem_map.mp padded
    have absent : tables.stored ⟨(item i).plane, tables.padId (i * queryBatchSize + k)⟩ = false := padId_not_stored _
    rw [same] at absent
    exact absurd present (by rw [absent]; exact Bool.false_ne_true)
  · refine nodup_range.map_on fun k _ other _ same => ?_
    have := padId_injective same
    omega

theorem block_disjoint (present : tables.stored (item i) = true) (presentToo : tables.stored (item j) = true)
    (differ : i ≠ j) (ids : (item i).id ≠ (item j).id) : (tables.block item i).Disjoint (tables.block item j) := by
  have padded : ∀ {i j : Nat}, tables.stored (item i) = true → ∀ k, (item i).id ≠ tables.padId (j * queryBatchSize + k) := by
    intro i j present k same
    have absent : tables.stored ⟨(item i).plane, tables.padId (j * queryBatchSize + k)⟩ = false := padId_not_stored _
    rw [← same] at absent
    exact absurd present (by rw [absent]; exact Bool.false_ne_true)
  intro id one two
  rcases mem_cons.mp one with rfl | first <;> rcases mem_cons.mp two with same | second
  · exact ids same
  · obtain ⟨k, _, same⟩ := mem_map.mp second
    exact padded present k same.symm
  · obtain ⟨k, _, rfl⟩ := mem_map.mp first
    exact padded presentToo k same.symm
  · obtain ⟨k, bound, rfl⟩ := mem_map.mp first
    obtain ⟨other, otherBound, same⟩ := mem_map.mp second
    have equal := padId_injective same
    rw [mem_range] at bound otherBound
    have : 0 < queryBatchSize := by decide
    have quotient : (i * queryBatchSize + k) / queryBatchSize = (j * queryBatchSize + other) / queryBatchSize := by rw [equal]
    rw [Nat.mul_comm i, Nat.mul_comm j, Nat.mul_add_div this, Nat.mul_add_div this,
      Nat.div_eq_of_lt (by omega), Nat.div_eq_of_lt (by omega)] at quotient
    omega

section Sequence

variable {length : Nat}

def blocks (tables : Tables) (length : Nat) (item : Nat → ItemRef) (plane : Plane) : List (List Id) :=
  ((List.range length).filter fun i => (item i).plane == plane).map (tables.block item)

def paddedIds (tables : Tables) (length : Nat) (item : Nat → ItemRef) (plane : Plane) : List Id :=
  (tables.blocks length item plane).flatten

theorem blocks_full : ∀ batch ∈ tables.blocks length item plane, batch.length = queryBatchSize := by
  intro batch member
  obtain ⟨i, _, rfl⟩ := mem_map.mp member
  exact length_block

theorem mem_blocks {batch : List Id} : batch ∈ tables.blocks length item plane ↔
    ∃ i < length, (item i).plane = plane ∧ tables.block item i = batch := by
  simp [blocks, and_assoc]

theorem item_mem_paddedIds (bound : i < length) (inPlane : (item i).plane = plane) :
    (item i).id ∈ tables.paddedIds length item plane :=
  mem_flatten.mpr ⟨_, mem_blocks.mpr ⟨i, bound, inPlane, rfl⟩, mem_cons_self⟩

theorem batchSet_block (present : tables.stored (item i) = true) :
    tables.batchSet (item i).plane (tables.block item i) = {item i} := by
  ext ref
  rw [mem_batchSet, Set.mem_singleton_iff]
  constructor
  · intro ⟨samePlane, listed, stored⟩
    have sameId := mem_block listed stored
    cases ref
    cases shape : item i
    simp_all
  · intro same
    exact ⟨congrArg ItemRef.plane same, same ▸ mem_cons_self, same ▸ present⟩

/-- The order in which a pass meets the items. -/
def order (length : Nat) (item : Nat → ItemRef) : List Nat :=
  planes.flatMap fun plane => (List.range length).filter fun i => (item i).plane == plane

theorem sublist_order (less : i < j) (bound : j < length)
    (ordered : ¬((item i).plane = .wisp ∧ (item j).plane = .issue)) : [i, j].Sublist (order length item) := by
  have back : j ∈ (range length).drop j := mem_drop_iff_getElem.mpr ⟨0, by simpa using bound, by simp⟩
  have pair : [i, j].Sublist (range length) := by
    rw [← take_append_drop j (range length)]
    exact .append (singleton_sublist.mpr (by simp; omega)) (singleton_sublist.mpr back)
  have inPlane : ∀ {plane}, (item i).plane = plane → (item j).plane = plane →
      [i, j].Sublist ((range length).filter fun k => (item k).plane == plane) := by
    intro plane one two
    simpa [one, two] using pair.filter fun k => (item k).plane == plane
  rw [order, planes, flatMap_cons, flatMap_singleton]
  cases one : (item i).plane <;> cases two : (item j).plane
  · exact (inPlane one two).trans (sublist_append_left _ _)
  · exact .append (singleton_sublist.mpr (by simp [one]; omega)) (singleton_sublist.mpr (by simp [two, bound]))
  · exact absurd ⟨one, two⟩ ordered
  · exact (inPlane one two).trans (sublist_append_right _ _)

section

variable (present : ∀ i < length, tables.stored (item i) = true)
include present

theorem paddedIds_nodup
    (distinct : ∀ i < length, ∀ j < length, item i = item j → i = j) : (tables.paddedIds length item plane).Nodup := by
  refine nodup_flatten.mpr ⟨fun batch member => ?_, pairwise_map.mpr ?_⟩
  · obtain ⟨i, bound, _, rfl⟩ := mem_blocks.mp member
    exact block_nodup (present i bound)
  · refine (nodup_range.filter _).imp_of_mem fun {i j} one two differ => ?_
    simp only [mem_filter, mem_range, beq_iff_eq] at one two
    refine block_disjoint (present i one.1) (present j two.1) differ fun same => differ ?_
    refine distinct i one.1 j two.1 ?_
    cases first : item i
    cases second : item j
    simp_all

theorem scopes_paddedIds :
    tables.scopes (tables.paddedIds length item .issue) (tables.paddedIds length item .wisp) =
      (order length item).map fun i => {item i} := by
  have each : ∀ plane, (batches queryBatchSize (idsOf (tables.paddedIds length item .issue)
      (tables.paddedIds length item .wisp) plane)).map (tables.batchSet plane) =
        ((range length).filter fun i => (item i).plane == plane).map fun i => {item i} := by
    intro plane
    have named : idsOf (tables.paddedIds length item .issue) (tables.paddedIds length item .wisp) plane =
        tables.paddedIds length item plane := by cases plane <;> rfl
    rw [named, paddedIds, batches_flatten (by decide) blocks_full, blocks, map_map]
    refine map_congr_left fun i member => ?_
    obtain ⟨bound, rfl⟩ : i < length ∧ (item i).plane = plane := by simpa using member
    exact batchSet_block (present i bound)
  simp only [scopes, batched, order, map_flatMap, map_map, Function.comp_def, each]

theorem before_of_sublist (ordered : [i, j].Sublist (order length item)) :
    Network.Before (tables.rounds (tables.paddedIds length item .issue)
      (tables.paddedIds length item .wisp)) (item i) (item j) := by
  rw [← singleton_append, append_sublist_iff] at ordered
  obtain ⟨front, back, split, early, late⟩ := ordered
  refine ⟨front.map fun i => {item i}, back.map fun i => {item i}, ?_,
    ⟨_, mem_map.mpr ⟨i, singleton_sublist.mp early, rfl⟩, rfl⟩,
    ⟨_, mem_map.mpr ⟨j, singleton_sublist.mp late, rfl⟩, rfl⟩⟩
  rw [rounds_flatten, scopes_paddedIds present, split, map_append]

end

end Sequence

end Tables

end Beads
