import Beads.Data.AssocList
import Beads.Data.Worklist
import Beads.Tree.Walk

namespace Beads

open List RecursiveUnion TreeWalk

def TreeNode.parentId (node : TreeNode) : Id := (node.parent.map Prod.fst).getD ""

/-- The entries in the order in which they are set; the last one of an id holds. -/
def parentOf (nodes : List TreeNode) : List (Id × Id) :=
  (nodes.filter fun node => node.parentId != "" && node.parentId != node.row.id).map fun node => (node.row.id, node.parentId)

def parents (nodes : List TreeNode) (id : Id) : List Id :=
  ((parentOf nodes).reverse.lookup id).toList

/-- The walk to the root, which stops at an id that is kept. -/
def keepChain (nodes : List TreeNode) (keep : List Id) (id : Id) : List Id :=
  if keep.contains id then keep else Worklist.drain (parents nodes) (nodes.length + 1) (id :: keep) [id]

def pruneTreeByStatus (nodes : List TreeNode) (status : Status) : List TreeNode :=
  let keep := (ids (nodes.filter fun node => node.row.status == status)).foldl (keepChain nodes) []
  nodes.filter fun node => keep.contains node.row.id

def mergeBidirectionalTree (downTree upTree : List TreeNode) (root : Id) : List TreeNode :=
  upTree.filter (fun node => node.row.id != root) ++ downTree

def pruneBidirectionalByStatus (downTree upTree : List TreeNode) (root : Id) (status : Status) : List TreeNode × List TreeNode :=
  let down := pruneTreeByStatus downTree status
  let up := pruneTreeByStatus upTree status
  if up.isEmpty || down.any fun node => node.row.id == root then (down, up)
  else ((downTree.find? fun node => node.row.id == root).toList ++ down, up)

inductive TreeDirection where
  | down | up | both

/-- What is made of the walks down and up; without a status they are not pruned. -/
def walkTreeDirections (downTree upTree : List TreeNode) (root : Id) (status : Option Status) : TreeDirection → List TreeNode
  | .down => status.elim downTree (pruneTreeByStatus downTree)
  | .up => status.elim upTree (pruneTreeByStatus upTree)
  | .both =>
    let (down, up) := status.elim (downTree, upTree) (pruneBidirectionalByStatus downTree upTree root)
    mergeBidirectionalTree down up root

def Above (nodes : List TreeNode) (id above : Id) : Prop := (id, above) ∈ parentOf nodes

/-- The parents of one half are listed in it, and lead to the root, which has none. -/
structure Half (root : Id) (nodes : List TreeNode) : Prop where
  distinct : (ids nodes).Nodup
  top : ∃ node ∈ nodes, node.row.id = root ∧ node.parentId = ""
  parents : ∀ node ∈ nodes, node.row.id ≠ root → node.parentId ∈ ids nodes
  rooted : ∀ node ∈ nodes, Relation.ReflTransGen (Above nodes) node.row.id root

/-- The node has the status or stands above one that has, or is the root and the
root is asked for. -/
def Kept (status : Status) (root : Id) (asked : Prop) (nodes : List TreeNode) (id : Id) : Prop :=
  (∃ node ∈ nodes, node.row.status = status ∧ Relation.ReflTransGen (Above nodes) node.row.id id) ∨ id = root ∧ asked

open Classical in
noncomputable def survivors (status : Status) (root : Id) (asked : Prop) (nodes : List TreeNode) : List TreeNode :=
  nodes.filter fun node => Kept status root asked nodes node.row.id

/-- The nodes above the root, and those of the walk that the root is taken from. -/
noncomputable def prunedHalves (downTree upTree : List TreeNode) (root : Id) (status : Status) :
    TreeDirection → List TreeNode × List TreeNode
  | .down => ([], survivors status root False downTree)
  | .up => ([], survivors status root False upTree)
  | .both => ((survivors status root False upTree).filter fun node => node.row.id != root,
      survivors status root (survivors status root False upTree ≠ []) downTree)

variable {nodes downTree upTree upper : List TreeNode} {keep starts : List Id} {id above root : Id}
  {status : Status} {node : TreeNode} {asked : Prop}

def circle : List TreeNode := [⟨⟨"r", .opened⟩, 0, none⟩, ⟨⟨"a", .closed⟩, 1, some ("b", .blocks)⟩,
    ⟨⟨"b", .opened⟩, 1, some ("a", .blocks)⟩]

section

variable {walk : TreeWalk} (named : "" ∉ ids nodes)
include named

theorem TreeWalk.Tree.climbs {node : TreeNode} (tree : walk.Tree nodes) (member : node ∈ nodes) :
    Relation.ReflTransGen (Above nodes) node.row.id walk.root ∧ ∃ top ∈ nodes, top.row.id = walk.root ∧ top.parentId = "" := by
  obtain ⟨none, same, _⟩ | ⟨parent, listed, type, link, lower, _⟩ := tree.placed node member
  · exact ⟨same ▸ .refl, node, member, same, by simp [TreeNode.parentId, none]⟩
  · have other : parent.row.id ≠ node.row.id := by
      intro same
      rw [inj_on_of_nodup_map tree.distinct listed member same] at lower
      omega
    have given : parent.row.id ≠ "" := fun empty => named (empty ▸ mem_map_of_mem listed)
    refine (climbs tree listed).imp_left (.head (mem_map.mpr ⟨node, mem_filter.mpr ⟨member, ?_⟩, ?_⟩))
    · simp [TreeNode.parentId, link, other, given]
    · simp [TreeNode.parentId, link]
termination_by node.depth

/-- A walk answers with a half, unless it meets an item with the empty id. -/
theorem getDependencyTree_half (walked : walk.getDependencyTree = some nodes)
    (deep : 0 < walk.maxDepth) : Half walk.root nodes := by
  obtain ⟨⟨_, tree, _⟩, entered⟩ := getDependencyTree_grown walked
  obtain ⟨first, listed, _⟩ := mem_map.mp (entered deep)
  refine ⟨tree.distinct, (tree.climbs named listed).2, fun node member apart => ?_, fun _ member => (tree.climbs named member).1⟩
  obtain ⟨_, same, _⟩ | ⟨parent, listed, type, link, _⟩ := tree.placed node member
  · exact absurd same apart
  · rw [TreeNode.parentId, link]
    exact mem_map_of_mem listed

end

theorem mem_survivors : node ∈ survivors status root asked nodes ↔ node ∈ nodes ∧ Kept status root asked nodes node.row.id := by
  simp [survivors]

theorem mem_parents (distinct : (ids nodes).Nodup) : above ∈ parents nodes id ↔ Above nodes id above := by
  have keys : ((parentOf nodes).map Prod.fst).Nodup := by
    rw [parentOf, map_map]
    exact (filter_sublist.map _).nodup distinct
  rw [parents, Option.mem_toList, ← AssocList.lookup_perm (reverse_perm _).symm keys,
    AssocList.lookup_eq_some_iff_mem keys, Above]

theorem mem_keepChain (closed : ∀ id ∈ keep, parents nodes id ⊆ keep) :
    above ∈ keepChain nodes keep id ↔ above ∈ keep ∨ Relation.ReflTransGen (Step (parents nodes)) id above := by
  rw [keepChain]
  split
  · rename_i kept
    refine (or_iff_left_of_imp fun path => ?_).symm
    induction path with
    | refl => simpa using kept
    | tail _ step ih => exact closed _ ih step
  · have bounded : ∀ id, ∀ above ∈ parents nodes id, above ∈ (parentOf nodes).map Prod.snd := by
      intro id above member
      rw [parents, Option.mem_toList, lookup_eq_some_iff] at member
      obtain ⟨before, after, split, _⟩ := member
      refine mem_map.mpr ⟨(id, above), mem_reverse.mp ?_, rfl⟩
      simp [split]
    rw [Worklist.mem_drain bounded, mem_cons, Relation.reflTransGen_iff_eq_or_transGen]
    · simp [or_assoc, or_left_comm]
    · exact fun other known apart _ step => .tail _ (closed other ((mem_cons.mp known).resolve_left (by simpa using apart)) step)
    · have few : (parentOf nodes).length ≤ nodes.length := by simpa [parentOf] using length_filter_le _ _
      rw [length_singleton, length_map]
      omega

theorem mem_foldl_keepChain (closed : ∀ id ∈ keep, parents nodes id ⊆ keep) : above ∈ starts.foldl (keepChain nodes) keep ↔
    above ∈ keep ∨ ∃ start ∈ starts, Relation.ReflTransGen (Step (parents nodes)) start above := by
  induction starts generalizing keep with
  | nil => simp
  | cons start rest ih =>
    rw [foldl_cons, ih, mem_keepChain closed, or_assoc, exists_mem_cons_iff]
    intro id kept above step
    rw [mem_keepChain closed] at kept ⊢
    exact kept.imp (fun old => closed id old step) fun path => path.tail step

open Classical in
theorem pruneTreeByStatus_eq (root : Id) (distinct : (ids nodes).Nodup) :
    pruneTreeByStatus nodes status = survivors status root False nodes := by
  have steps : Step (parents nodes) = Above nodes := by
    funext id above
    exact propext (mem_parents distinct)
  refine filter_congr fun node _ => ?_
  rw [Bool.eq_iff_iff, contains_iff_mem, mem_foldl_keepChain (forall_mem_nil _), steps, decide_eq_true_iff]
  simp [ids, Kept, and_assoc]

namespace Half

variable (half : Half root nodes)
include half

theorem filter_root : ∃ top : TreeNode, top.parentId = "" ∧ nodes.filter (fun node => node.row.id == root) = [top] := by
  obtain ⟨top, listed, same, none⟩ := half.top
  exact ⟨top, none, same ▸ AssocList.filter_key half.distinct listed⟩

theorem root_survives (given : asked ∨ survivors status root asked nodes ≠ []) : root ∈
    ids (survivors status root asked nodes) := by
  obtain ⟨top, listed, named, _⟩ := half.top
  refine mem_map.mpr ⟨top, mem_survivors.mpr ⟨listed, ?_⟩, named⟩
  by_cases here : asked
  · exact .inr ⟨named, here⟩
  obtain ⟨node, member⟩ := exists_mem_of_ne_nil _ (given.resolve_left here)
  obtain ⟨start, first, found, _⟩ := (mem_survivors.mp member).2.resolve_right fun other => here other.2
  exact .inl ⟨start, first, found, named ▸ half.rooted start first⟩

theorem parent_survives (member : node ∈ survivors status root asked nodes) :
    node.parentId = "" ∨ node.parentId ∈ ids (survivors status root asked nodes) := by
  obtain ⟨listed, given⟩ := mem_survivors.mp member
  by_cases named : node.row.id = root
  · obtain ⟨top, none, single⟩ := half.filter_root
    have same : node ∈ [top] := single ▸ mem_filter.mpr ⟨listed, beq_iff_eq.mpr named⟩
    exact .inl (mem_singleton.mp same ▸ none)
  refine or_iff_not_imp_left.mpr fun some => ?_
  by_cases own : node.parentId = node.row.id
  · exact own ▸ mem_map_of_mem member
  obtain ⟨parent, here, same⟩ := mem_map.mp (half.parents node listed named)
  obtain ⟨start, first, found, path⟩ := given.resolve_right fun other => named other.1
  refine mem_map.mpr ⟨parent, mem_survivors.mpr ⟨here, .inl ⟨start, first, found, path.tail ?_⟩⟩, same⟩
  exact mem_map.mpr ⟨node, mem_filter.mpr ⟨listed, by simp [some, own]⟩, by rw [same]⟩

omit half in
theorem survivors_eq_self (free : asked → Kept status root False nodes root) :
    survivors status root asked nodes = survivors status root False nodes := by
  refine filter_congr fun node _ => decide_eq_decide.mpr ⟨?_, Or.imp_right fun never => never.2.elim⟩
  rintro (kept | ⟨named, given⟩)
  · exact .inl kept
  · exact named ▸ free given

open Classical in
theorem pruneBidirectionalByStatus_eq (distinct : (ids upTree).Nodup) : pruneBidirectionalByStatus nodes upTree root status =
    (survivors status root (survivors status root False upTree ≠ []) nodes, survivors status root False upTree) := by
  rw [pruneBidirectionalByStatus, pruneTreeByStatus_eq root half.distinct, pruneTreeByStatus_eq root distinct]
  split
  · rename_i given
    rw [Bool.or_eq_true, List.isEmpty_iff, any_eq_true] at given
    refine congrArg (·, _) (survivors_eq_self fun some => ?_).symm
    obtain ⟨top, member, named⟩ := given.resolve_left some
    exact beq_iff_eq.mp named ▸ (mem_survivors.mp member).2
  · rename_i lost
    rw [Bool.or_eq_true, not_or, List.isEmpty_iff, any_eq_true] at lost
    have empty : survivors status root False nodes = [] := by
      by_contra some
      obtain ⟨top, member, same⟩ := mem_map.mp (half.root_survives (.inr some))
      exact lost.2 ⟨top, member, beq_iff_eq.mpr same⟩
    have unkept : ∀ node ∈ nodes, ¬Kept status root False nodes node.row.id := by
      intro node member kept
      exact not_mem_nil (empty ▸ mem_survivors.mpr ⟨member, kept⟩)
    obtain ⟨top, _, single⟩ := half.filter_root
    rw [empty, append_nil, ← head?_filter, single, head?_cons, Option.toList_some, ← single]
    refine congrArg (·, _) (filter_congr fun node member => ?_)
    rw [Bool.eq_iff_iff, beq_iff_eq, decide_eq_true_iff]
    exact ⟨fun named => .inr ⟨named, lost.1⟩, fun kept => (kept.resolve_left fun kept => unkept node member (.inl kept)).1⟩

theorem pruned (absent : root ∉ ids upper) (fed : upper ≠ [] → asked)
    (upward : ∀ node ∈ upper, node.parentId = "" ∨ node.parentId ∈ root :: ids upper) :
    (upper ++ survivors status root asked nodes ≠ [] → (ids (upper ++ survivors status root asked nodes)).count root = 1) ∧
      ∀ half ∈ [upper, survivors status root asked nodes], ∀ node ∈ half, node.parentId = "" ∨
        node.parentId ∈ root :: ids half := by
  refine ⟨fun some => ?_, forall_mem_cons.mpr ⟨upward, forall_mem_singleton.mpr fun node member => ?_⟩⟩
  · have listed : root ∈ ids (survivors status root asked nodes) := by
      refine half.root_survives (or_iff_not_imp_left.mpr fun unasked none => some ?_)
      rw [not_not.mp fun full => unasked (fed full), none, nil_append]
    have split : ids (upper ++ survivors status root asked nodes) = ids upper ++
      ids (survivors status root asked nodes) := map_append
    rw [split, count_append, count_eq_zero_of_not_mem absent, Nat.zero_add]
    exact count_eq_one_of_mem ((filter_sublist.map _).nodup half.distinct) listed
  · exact (half.parent_survives member).imp_right (.tail _)

end Half

/-- The nodes of a half that are kept are those with the status and all above them, in the order of
the walk. If any node is kept, the root is there, once, and a parent is a node of the half or the
root. -/
theorem walkTreeDirections_pruned (down : Half root downTree) (up : Half root upTree)
    (status : Status) (direction : TreeDirection) :
    let (upper, lower) := prunedHalves downTree upTree root status direction
    walkTreeDirections downTree upTree root (some status) direction = upper ++ lower ∧
      (upper ++ lower ≠ [] → (ids (upper ++ lower)).count root = 1) ∧
      ∀ half ∈ [upper, lower], ∀ node ∈ half, node.parentId = "" ∨ node.parentId ∈ root :: ids half := by
  cases direction with
  | down => exact ⟨pruneTreeByStatus_eq root down.distinct, down.pruned not_mem_nil (absurd rfl) nofun⟩
  | up => exact ⟨pruneTreeByStatus_eq root up.distinct, up.pruned not_mem_nil (absurd rfl) nofun⟩
  | both =>
    refine ⟨?_, down.pruned ?_ ?_ ?_⟩
    · simp only [walkTreeDirections, Option.elim_some, down.pruneBidirectionalByStatus_eq up.distinct, mergeBidirectionalTree]
    · simp [ids]
    · intro some none
      exact some (by rw [none, filter_nil])
    · intro node member
      obtain ⟨listed, _⟩ := mem_filter.mp member
      refine (up.parent_survives listed).imp_right fun found => ?_
      obtain ⟨parent, here, same⟩ := mem_map.mp found
      by_cases top : parent.row.id = root
      · exact mem_cons.mpr (.inl (same.symm.trans top))
      · exact .tail _ (mem_map.mpr ⟨parent, mem_filter.mpr ⟨here, bne_iff_ne.mpr top⟩, same⟩)

theorem detour_pruned : ∃ down up, detour.getDependencyTree = some down ∧
    { detour with reverse := true }.getDependencyTree = some up ∧
    (ids (walkTreeDirections down up "r" (some .opened) .both)).count "r" = 1 := by
  have down := getDependencyTree_half (by decide) (show detour.getDependencyTree = _ from rfl) (by decide)
  have up := getDependencyTree_half (by decide) (show { detour with reverse := true }.getDependencyTree = _ from rfl) (by decide)
  obtain ⟨answer, once, _⟩ := walkTreeDirections_pruned down up .opened .both
  exact ⟨_, _, rfl, rfl, answer ▸ once (answer ▸ by decide)⟩

/-- Parents that lead in a circle. -/
theorem circle_drops_root : ((ids circle).Nodup ∧ ∀ node ∈ circle, node.row.id ≠ "r" → node.parentId ∈ ids circle) ∧
    ids (walkTreeDirections circle circle "r" (some .closed) .down) = ["a", "b"] := by
  decide

end Beads
