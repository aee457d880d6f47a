import Beads.Blocked.Reasons
import Beads.Data.RecursiveUnion

namespace Beads

def DependencyType.scheduling : DependencyType → Bool
  | .blocks => true
  | .conditionalBlocks => true
  | .parentChild => true
  | _ => false

namespace Tables

variable (tables : Tables)

section

variable (types : DependencyType → Bool)

def successorIds (id : Id) : List Id :=
  planes.flatMap fun plane =>
    ((tables.dependencies plane).filter fun row => row.issueId == id && types row.type).map fun row => row.target.id

/-- `reachabilityQuery`'s recursive members: the start and everything reachable from it. -/
def reachableIds (start : Id) : List Id :=
  RecursiveUnion.reachable (tables.successorIds types)
    ((tables.dependencies .issue).length + (tables.dependencies .wisp).length) [start]

def isAncestor (node candidate : Id) : Bool :=
  (tables.reachableIds (· == .parentChild) node).contains candidate

def wouldCreateSchedulingCycle (issueId dependsOnId : Id) : Bool :=
  (tables.reachableIds DependencyType.scheduling dependsOnId).contains issueId

def hasOtherRow (id : Id) : Bool :=
  planes.any fun plane => (tables.dependencies plane).any fun row => row.issueId == id && row.type != .parentChild

/-- `ancestorChainInTx`: the id itself and those of its ancestors that may have
a reason of their own. -/
def ancestorChain (id : Id) : List Id :=
  if id == "" then [] else (tables.reachableIds (· == .parentChild) id).filter fun node => node == id || tables.hasOtherRow node

def Linked (source target : Id) : Prop :=
  ∃ plane, ∃ row ∈ tables.dependencies plane, row.issueId = source ∧ types row.type = true ∧ row.target.id = target

end

variable {tables} {types : DependencyType → Bool} {source target node candidate : Id}

theorem linked_mono {before after : Tables} (within : ∀ plane, before.dependencies plane ⊆ after.dependencies plane)
    (link : before.Linked types source target) : after.Linked types source target := by
  obtain ⟨plane, row, member, named⟩ := link
  exact ⟨plane, row, within plane member, named⟩

theorem mem_successorIds : target ∈ tables.successorIds types source ↔ tables.Linked types source target := by
  simp only [successorIds, List.mem_flatMap, List.mem_map, List.mem_filter, Bool.and_eq_true, beq_iff_eq]
  constructor
  · intro ⟨plane, _, row, ⟨member, same, type⟩, reached⟩
    exact ⟨plane, row, member, same, type, reached⟩
  · intro ⟨plane, row, member, same, type, reached⟩
    exact ⟨plane, mem_planes plane, row, ⟨member, same, type⟩, reached⟩

theorem mem_reachableIds : node ∈ tables.reachableIds types source ↔
    Relation.ReflTransGen (tables.Linked types) source node := by
  have bounded : ∀ node, ∀ other ∈ tables.successorIds types node,
      other ∈ planes.flatMap fun plane => (tables.dependencies plane).map fun row => row.target.id := by
    intro node other member
    obtain ⟨plane, row, listed, _, _, reached⟩ := mem_successorIds.mp member
    exact List.mem_flatMap.mpr ⟨plane, mem_planes plane, List.mem_map.mpr ⟨row, listed, reached⟩⟩
  have enough : (planes.flatMap fun plane => (tables.dependencies plane).map fun row => row.target.id).length ≤
      (tables.dependencies .issue).length + (tables.dependencies .wisp).length := by
    simp [planes]
  have steps : RecursiveUnion.Step (tables.successorIds types) = tables.Linked types := by
    funext one other
    exact propext mem_successorIds
  rw [reachableIds, RecursiveUnion.mem_reachable bounded enough, steps]
  simp

theorem isAncestor_iff : tables.isAncestor node candidate = true ↔
    Relation.ReflTransGen (tables.Linked (· == .parentChild)) node candidate := by
  rw [isAncestor, List.contains_iff_mem, mem_reachableIds]

theorem wouldCreateSchedulingCycle_iff : tables.wouldCreateSchedulingCycle source target = true ↔
    Relation.ReflTransGen (tables.Linked DependencyType.scheduling) target source := by
  rw [wouldCreateSchedulingCycle, List.contains_iff_mem, mem_reachableIds]

theorem mem_ancestorChain : node ∈ tables.ancestorChain source ↔ source ≠ "" ∧
    Relation.ReflTransGen (tables.Linked (· == .parentChild)) source node ∧ (node = source ∨ tables.hasOtherRow node = true) := by
  by_cases empty : source = "" <;> simp [ancestorChain, empty, mem_reachableIds]

theorem hasOtherRow_iff : tables.hasOtherRow node = true ↔
    ∃ plane, ∃ row ∈ tables.dependencies plane, row.issueId = node ∧ row.type ≠ .parentChild := by
  simp only [hasOtherRow, List.any_eq_true, Bool.and_eq_true, beq_iff_eq, bne_iff_ne]
  exact ⟨fun ⟨plane, _, found⟩ => ⟨plane, found⟩, fun ⟨plane, found⟩ => ⟨plane, mem_planes plane, found⟩⟩

theorem linked_of_parentChild {child parent : ItemRef} (edge : tables.ParentChild child parent) :
    tables.Linked (· == .parentChild) child.id parent.id := by
  obtain ⟨row, member, source, type, target⟩ := edge
  exact ⟨child.plane, row, member, source, by simp [type], by rw [target]; rfl⟩

theorem linked_scheduling (chain : Relation.ReflTransGen (tables.Linked (· == .parentChild)) source target) :
    Relation.ReflTransGen (tables.Linked DependencyType.scheduling) source target := by
  have within : tables.Linked (· == .parentChild) ≤ tables.Linked DependencyType.scheduling := by
    intro one other ⟨plane, row, member, named, type, reached⟩
    exact ⟨plane, row, member, named, by rw [beq_iff_eq.mp type]; rfl, reached⟩
  exact Relation.ReflTransGen.mono within _ _ chain

theorem linked_of_ancestor {child above : ItemRef} (chain : Relation.ReflTransGen tables.ParentChild child above) :
    Relation.ReflTransGen (tables.Linked (· == .parentChild)) child.id above.id :=
  chain.lift ItemRef.id fun _ _ => linked_of_parentChild

end Tables

end Beads
