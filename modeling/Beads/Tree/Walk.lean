import Beads.Blocked.Reasons
import Beads.Data.Positions

namespace Beads

open List

structure TreeNode where
  row : Row
  depth : Nat
  /-- `ParentID` and `EdgeFromParent`, which are empty at the root. -/
  parent : Option (Id × DependencyType)
  deriving DecidableEq

def Tables.getIssue (tables : Tables) (id : Id) : Option Row :=
  planes.findSome? fun plane => (tables.items plane).find? fun row => row.id == id

def isDependencyTreeEdge (type : DependencyType) : Bool := type != .other "relates-to"

structure TreeWalk where
  tables : Tables
  reverse : Bool := false
  root : Id
  maxDepth : Nat

namespace TreeWalk

variable (walk : TreeWalk)

/-- `GetDependenciesWithMetadataInTx`, and `GetDependentsWithMetadataInTx` if `reverse` is set: the
edges to stored items. -/
def related (id : Id) : List (Id × DependencyType) :=
  ((planes.flatMap walk.tables.dependencies).filterMap fun row =>
    if walk.reverse then if row.target.id = id then some (row.issueId, row.type) else none
    else if row.issueId = id then some (row.target.id, row.type) else none).filter fun edge =>
      (walk.tables.getIssue edge.1).isSome

def children (id : Id) : List (Id × DependencyType) := (walk.related id).filter fun edge => isDependencyTreeEdge edge.2

def ids (nodes : List TreeNode) : List Id := nodes.map fun node => node.row.id

/-- The walk with `left` levels left of `maxDepth`. An item is visited if it is listed, so the
answers of the calls stand in one list. -/
def buildDependencyTree : (left : Nat) → Option (Id × DependencyType) → Id → List TreeNode → Option (List TreeNode)
  | 0, _, _, nodes => some nodes
  | left + 1, parent, id, nodes =>
    if id ∈ ids nodes then some nodes
    else do
      let row ← walk.tables.getIssue id
      (walk.children id).foldlM (fun nodes edge => buildDependencyTree left (some (id, edge.2)) edge.1 nodes)
        (nodes ++ [⟨row, walk.maxDepth - (left + 1), parent⟩])

def getDependencyTree : Option (List TreeNode) :=
  walk.buildDependencyTree walk.maxDepth none walk.root []

def Distant : Nat → Id → Prop
  | 0, id => id = walk.root
  | steps + 1, id => ∃ parent type, Distant steps parent ∧ (id, type) ∈ walk.children parent

/-- Where a path ends that takes the row of each number among the tree edges of
the item it has come to. -/
def lead (path : List Nat) : Option Id :=
  path.foldlM (fun id i => ((walk.children id)[i]?).map Prod.fst) walk.root

/-- A path of fewer than `maxDepth` steps, the last of them to an item that no path followed before
it leads to. -/
def Followed : List Nat → Prop :=
  (Positions.sooner_wf walk.maxDepth).fix fun path followed => path.length < walk.maxDepth ∧
    (∀ before sooner, before = path.dropLast → followed before sooner) ∧
    ∃ id, walk.lead path = some id ∧ ∀ before sooner, followed before sooner → walk.lead before ≠ some id

/-- The nodes stand for the paths that are followed in the part of the tree. -/
def Recorded (nodes : List TreeNode) (part : List Nat → Prop) : Prop :=
  ∀ id depth, (∃ node ∈ nodes, node.row.id = id ∧ node.depth = depth) ↔
    ∃ path, walk.Followed path ∧ part path ∧ walk.lead path = some id ∧ path.length = depth

/-- An item at a depth is the root, or its parent is listed one level above. -/
def Placed (nodes : List TreeNode) (id : Id) (depth : Nat) (parent : Option (Id × DependencyType)) : Prop :=
  parent = none ∧ id = walk.root ∧ depth = 0 ∨ ∃ above ∈ nodes, ∃ type, parent = some (above.row.id, type) ∧
    above.depth + 1 = depth ∧ (id, type) ∈ walk.children above.row.id

structure Tree (nodes : List TreeNode) : Prop where
  distinct : (ids nodes).Nodup
  shallow : ∀ node ∈ nodes, node.depth < walk.maxDepth
  distant : ∀ node ∈ nodes, walk.Distant node.depth node.row.id
  placed : ∀ node ∈ nodes, walk.Placed nodes node.row.id node.depth node.parent

structure Grown (nodes after : List TreeNode) : Prop where
  kept : nodes ⊆ after
  tree : walk.Tree after
  expanded : ∀ node ∈ after, node ∈ nodes ∨
    (node.depth + 1 < walk.maxDepth → ∀ edge ∈ walk.children node.row.id, edge.1 ∈ ids after)

variable {walk} {id : Id} {nodes between after : List TreeNode} {left depth : Nat} {parent : Option (Id × DependencyType)}

theorem getIssue_id {tables : Tables} {row : Row} (found : tables.getIssue id = some row) : row.id = id := by
  obtain ⟨_, _, here⟩ := exists_of_findSome?_eq_some found
  simpa using find?_some here

theorem Placed.mono (kept : nodes ⊆ after) (placed : walk.Placed nodes id depth parent) : walk.Placed after id depth parent :=
  placed.imp_right fun ⟨above, listed, found⟩ => ⟨above, kept listed, found⟩

theorem Placed.distant (tree : walk.Tree nodes) (placed : walk.Placed nodes id depth parent) : walk.Distant depth id := by
  obtain ⟨_, rfl, rfl⟩ | ⟨above, listed, type, _, rfl, child⟩ := placed
  · rfl
  · exact ⟨_, _, tree.distant above listed, child⟩

theorem Grown.refl (tree : walk.Tree nodes) : walk.Grown nodes nodes :=
  ⟨Subset.refl _, tree, fun _ => .inl⟩

theorem Grown.trans (first : walk.Grown nodes between) (second : walk.Grown between after) : walk.Grown nodes after where
  kept := Subset.trans first.kept second.kept
  tree := second.tree
  expanded node member := by
    obtain old | new := second.expanded node member
    · refine (first.expanded node old).imp_right fun here higher edge below => ?_
      exact map_subset _ second.kept (here higher edge below)
    · exact .inr new

theorem Tree.append {row : Row} (tree : walk.Tree nodes) (new : row.id ∉ ids nodes) (shallow : depth < walk.maxDepth)
    (placed : walk.Placed nodes row.id depth parent) : walk.Tree (nodes ++ [⟨row, depth, parent⟩]) where
  distinct := by simpa [ids, nodup_append] using ⟨tree.distinct, by simpa [ids] using new⟩
  shallow := by simpa [or_imp, forall_and] using ⟨tree.shallow, shallow⟩
  distant := by simpa [or_imp, forall_and] using ⟨tree.distant, placed.distant tree⟩
  placed := by
    have whole := fun node member => (tree.placed node member).mono (subset_append_left nodes [⟨row, depth, parent⟩])
    simpa [or_imp, forall_and] using ⟨whole, placed.mono (subset_append_left _ _)⟩

theorem foldlM_grown {edges : List (Id × DependencyType)} {visit : List TreeNode → Id × DependencyType → Option (List TreeNode)}
    {node : TreeNode} (each : ∀ edge ∈ edges, ∀ nodes after, walk.Tree nodes → node ∈ nodes → visit nodes edge = some after →
      walk.Grown nodes after ∧ (node.depth + 1 < walk.maxDepth → edge.1 ∈ ids after))
    (tree : walk.Tree nodes) (here : node ∈ nodes) (folded : edges.foldlM visit nodes = some after) :
    walk.Grown nodes after ∧ (node.depth + 1 < walk.maxDepth → ∀ edge ∈ edges, edge.1 ∈ ids after) := by
  induction edges generalizing nodes with
  | nil =>
    cases folded
    exact ⟨.refl tree, nofun⟩
  | cons edge rest ih =>
    rw [foldlM_cons] at folded
    obtain ⟨between, first, later⟩ := Option.bind_eq_some_iff.mp folded
    obtain ⟨grown, entered⟩ := each edge mem_cons_self _ _ tree here first
    obtain ⟨more, others⟩ := ih (fun edge member => each edge (.tail _ member)) grown.tree (grown.kept here) later
    exact ⟨grown.trans more, fun higher => forall_mem_cons.mpr ⟨map_subset _ more.kept (entered higher), others higher⟩⟩

theorem build_grown (levels : left ≤ walk.maxDepth) (tree : walk.Tree nodes)
    (placed : 0 < left → walk.Placed nodes id (walk.maxDepth - left) parent)
    (built : walk.buildDependencyTree left parent id nodes = some after) :
    walk.Grown nodes after ∧ (0 < left → id ∈ ids after) := by
  induction left generalizing parent id nodes after with
  | zero =>
    cases built
    exact ⟨.refl tree, nofun⟩
  | succ left ih =>
    rw [buildDependencyTree] at built
    split at built
    · rename_i visited
      cases built
      exact ⟨.refl tree, fun _ => visited⟩
    · rename_i new
      obtain ⟨row, found, folded⟩ := Option.bind_eq_some_iff.mp built
      obtain rfl := getIssue_id found
      have last : ⟨row, walk.maxDepth - (left + 1), parent⟩ ∈ nodes ++ [⟨row, walk.maxDepth - (left + 1), parent⟩] := by simp
      obtain ⟨grown, entered⟩ := foldlM_grown (fun edge member nodes after tree here built => by
        have above : walk.maxDepth - (left + 1) + 1 = walk.maxDepth - left := by omega
        obtain ⟨grown, entered⟩ := ih (by omega) tree (fun _ => .inr ⟨_, here, _, rfl, above, member⟩) built
        exact ⟨grown, fun higher => entered (by dsimp only at higher; omega)⟩)
        (tree.append new (by omega) (placed (by omega))) last folded
      refine ⟨⟨fun _ member => grown.kept (mem_append_left _ member), grown.tree, fun node member =>
        ?_⟩, fun _ => mem_map_of_mem (grown.kept last)⟩
      obtain old | expanded := grown.expanded node member
      · refine (mem_append.mp old).imp_right fun same => ?_
        obtain rfl := mem_singleton.mp same
        exact entered
      · exact .inr expanded

theorem getDependencyTree_grown (walked : walk.getDependencyTree = some nodes) :
    walk.Grown [] nodes ∧ (0 < walk.maxDepth → walk.root ∈ ids nodes) := by
  have start : walk.Tree [] := ⟨nodup_nil, nofun, nofun, nofun⟩
  exact build_grown le_rfl start (fun _ => .inl ⟨rfl, rfl, Nat.sub_self _⟩) walked

section

variable {path before : List Nat} {part wider : List Nat → Prop}

theorem lead_concat {i : Nat} :
    walk.lead (path ++ [i]) = (walk.lead path).bind fun id => ((walk.children id)[i]?).map Prod.fst := by
  simp [lead, foldlM_append]

theorem followed_iff : walk.Followed path ↔ path.length < walk.maxDepth ∧ (path ≠ [] → walk.Followed path.dropLast) ∧
    ∃ id, walk.lead path = some id ∧ ∀ before < path, walk.Followed before → walk.lead before ≠ some id := by
  have unfolded : walk.Followed path = _ := WellFounded.fix_eq _ _ path
  rw [unfolded]
  refine and_congr_right fun short => and_congr ?_ (exists_congr fun id => and_congr_right fun _ => ?_)
  · refine ⟨fun followed some => followed _ ⟨Positions.dropLast_lt some, ?_⟩ rfl, ?_⟩
    · rw [length_dropLast]
      omega
    · rintro followed before sooner rfl
      refine followed fun none => ?_
      subst none
      exact absurd sooner.1 (by simp)
  · refine ⟨fun fresh before less followed => ?_, fun fresh before sooner => fresh before sooner.1⟩
    have unfolded : walk.Followed before = _ := WellFounded.fix_eq _ _ before
    exact fresh before ⟨less, (unfolded ▸ followed).1⟩ followed

theorem Followed.of_prefix (followed : walk.Followed before) (begins : path <+: before) : walk.Followed path := by
  obtain ⟨rest, rfl⟩ := begins
  induction rest using reverseRecOn with
  | nil => simpa using followed
  | append_singleton rest last ih =>
    have shorter := (followed_iff.mp followed).2.1 (by simp)
    rw [← append_assoc, dropLast_concat] at shorter
    exact ih shorter

theorem Followed.prefix_iff (followed : walk.Followed before) (leads : walk.lead path = some id) :
    path <+: before ↔ before = path ∨ ∃ i < (walk.children id).length, path ++ [i] <+: before := by
  constructor
  · rintro ⟨rest, rfl⟩
    cases rest with
    | nil => exact .inl (append_nil _)
    | cons i rest =>
      have begins : path ++ [i] <+: path ++ i :: rest := ⟨rest, by simp⟩
      obtain ⟨_, _, id, last, _⟩ := followed_iff.mp (followed.of_prefix begins)
      rw [lead_concat, leads, Option.bind_some, Option.map_eq_some_iff] at last
      obtain ⟨edge, here, _⟩ := last
      exact .inr ⟨i, (List.getElem?_eq_some_iff.mp here).1, begins⟩
  · rintro (rfl | ⟨i, _, begins⟩)
    · exact prefix_refl _
    · exact (prefix_append _ _).trans begins

theorem Recorded.congr (recorded : walk.Recorded nodes part)
    (same : ∀ path, walk.Followed path → (part path ↔ wider path)) : walk.Recorded nodes wider := by
  intro id depth
  rw [recorded id depth]
  exact exists_congr fun path => and_congr_right fun followed => and_congr_left fun _ => same path followed

/-- If a path is not followed, no path is that begins with it. -/
theorem Recorded.of_not_followed (recorded : walk.Recorded nodes (· < path)) (unfollowed : ¬ walk.Followed path) :
    walk.Recorded nodes fun before => before < path ∨ path <+: before :=
  recorded.congr fun _ followed => (or_iff_left fun begins => unfollowed (followed.of_prefix begins)).symm

theorem recorded_foldlM {visit : List TreeNode → Id × DependencyType → Option (List TreeNode)}
    {edges rest : List (Id × DependencyType)}
    (each : ∀ i edge, edges[i]? = some edge → ∀ nodes after, walk.Recorded nodes (· < path ++ [i]) →
      visit nodes edge = some after → walk.Recorded after (· < path ++ [i + 1]))
    {i : Nat} (left : edges.drop i = rest) (recorded : walk.Recorded nodes (· < path ++ [i]))
    (folded : rest.foldlM visit nodes = some after) : walk.Recorded after (· < path ++ [i + rest.length]) := by
  induction rest generalizing i nodes with
  | nil =>
    cases folded
    exact recorded
  | cons edge rest ih =>
    rw [foldlM_cons] at folded
    obtain ⟨between, first, later⟩ := Option.bind_eq_some_iff.mp folded
    have here : edges[i]? = some edge := by rw [← head?_drop, left, head?_cons]
    have more := ih (by rw [← tail_drop, left, tail_cons]) (each i edge here nodes between recorded first) later
    rwa [length_cons, Nat.add_comm rest.length, ← Nat.add_assoc]

theorem recorded_build (leads : walk.lead path = some id) (levels : path.length + left = walk.maxDepth)
    (above : path ≠ [] → walk.Followed path.dropLast) (recorded : walk.Recorded nodes (· < path))
    (built : walk.buildDependencyTree left parent id nodes = some after) :
    walk.Recorded after fun before => before < path ∨ path <+: before := by
  induction left generalizing parent id path nodes after with
  | zero =>
    cases built
    exact recorded.of_not_followed fun followed => by
      have short := (followed_iff.mp followed).1
      omega
  | succ left ih =>
    rw [buildDependencyTree] at built
    split at built
    · rename_i visited
      cases built
      obtain ⟨node, member, rfl⟩ := mem_map.mp visited
      obtain ⟨before, earlier, less, same, _⟩ := (recorded node.row.id node.depth).mp ⟨node, member, rfl, rfl⟩
      refine recorded.of_not_followed fun followed => ?_
      obtain ⟨_, _, other, also, fresh⟩ := followed_iff.mp followed
      obtain rfl : other = node.row.id := Option.some.inj (also.symm.trans leads)
      exact fresh before less earlier same
    · rename_i new
      obtain ⟨row, found, folded⟩ := Option.bind_eq_some_iff.mp built
      obtain rfl := getIssue_id found
      have followed : walk.Followed path := by
        refine followed_iff.mpr ⟨by omega, above, row.id, leads, fun before less earlier same => new ?_⟩
        obtain ⟨node, member, named, _⟩ := (recorded row.id before.length).mpr ⟨before, earlier, less, same, rfl⟩
        exact named ▸ mem_map_of_mem member
      have entered : walk.Recorded (nodes ++ [⟨row, walk.maxDepth - (left + 1), parent⟩]) (· < path ++ [0]) := by
        intro id depth
        have depths : walk.maxDepth - (left + 1) = path.length := by omega
        simp only [Positions.lt_concat_zero, mem_append, mem_singleton, or_and_right, exists_or,
          and_or_left, ← recorded id depth, exists_eq_left, depths]
        refine or_congr_right ⟨?_, ?_⟩
        · rintro ⟨rfl, rfl⟩
          exact ⟨path, followed, rfl, leads, rfl⟩
        · rintro ⟨_, _, rfl, same, rfl⟩
          exact ⟨Option.some.inj (leads.symm.trans same), rfl⟩
      have walked := recorded_foldlM (fun i edge here nodes after recorded built => by
        have last : walk.lead (path ++ [i]) = some edge.1 := by simp [lead_concat, leads, here]
        have more := ih last (by simp; omega) (fun _ => by rwa [dropLast_concat]) recorded built
        exact more.congr fun _ _ => Positions.lt_concat_succ.symm) drop_zero entered folded
      refine walked.congr fun before earlier => ?_
      rw [Positions.lt_concat_iff, earlier.prefix_iff leads, Nat.zero_add]

end

theorem getDependencyTree_recorded (walked : walk.getDependencyTree = some nodes) : walk.Recorded nodes fun _ => True := by
  have start : walk.Recorded [] (· < []) := by simp [Recorded]
  have whole := recorded_build rfl (Nat.zero_add _) (fun some => absurd rfl some) start walked
  exact whole.congr fun path _ => by simp

/-- The answer lists items once, each on a path of its depth from the root and below its parent. It
lists every item with a path of fewer than `maxDepth` steps exactly if no item that a followed path
reaches in the last of these steps, though it has a shorter path, has a tree edge to an item that no
followed path reaches. -/
theorem getDependencyTree_spec (walked : walk.getDependencyTree = some nodes) : walk.Tree nodes ∧
    ((∀ id, ∀ steps < walk.maxDepth, walk.Distant steps id → id ∈ ids nodes) ↔
      ∀ path id, walk.Followed path → path.length + 1 = walk.maxDepth → walk.lead path = some id →
        ∀ steps < path.length, walk.Distant steps id → ∀ edge ∈ walk.children id,
          ∃ other, walk.Followed other ∧ walk.lead other = some edge.1) := by
  obtain ⟨grown, entered⟩ := getDependencyTree_grown walked
  have recorded := getDependencyTree_recorded walked
  have listed (id : Id) : id ∈ ids nodes ↔ ∃ path, walk.Followed path ∧ walk.lead path = some id := by
    rw [ids, mem_map]
    constructor
    · rintro ⟨node, member, rfl⟩
      obtain ⟨path, followed, _, leads, _⟩ := (recorded node.row.id node.depth).mp ⟨node, member, rfl, rfl⟩
      exact ⟨path, followed, leads⟩
    · rintro ⟨path, followed, leads⟩
      obtain ⟨node, member, named, _⟩ := (recorded id path.length).mpr ⟨path, followed, trivial, leads, rfl⟩
      exact ⟨node, member, named⟩
  refine ⟨grown.tree, ?_, ?_⟩
  · intro complete path id followed deepest leads steps shorter distant edge child
    exact (listed edge.1).mp (complete edge.1 (steps + 1) (by omega) ⟨_, _, distant, child⟩)
  · intro hidden id steps near distant
    induction steps generalizing id with
    | zero => exact distant ▸ entered near
    | succ steps ih =>
      obtain ⟨parent, type, distant, child⟩ := distant
      obtain ⟨node, member, rfl⟩ := mem_map.mp (ih parent (by omega) distant)
      by_cases higher : node.depth + 1 < walk.maxDepth
      · exact ((grown.expanded node member).resolve_left not_mem_nil) higher _ child
      · have shallow := grown.tree.shallow node member
        obtain ⟨path, followed, _, leads, length⟩ := (recorded node.row.id node.depth).mp ⟨node, member, rfl, rfl⟩
        exact (listed id).mpr (hidden path node.row.id followed (by omega) leads steps (by omega) distant _ child)

/-- `b` is met below `a` before it is met below the root. -/
def detour : TreeWalk where
  tables :=
    { items
        | .issue => [⟨"r", .opened⟩, ⟨"a", .opened⟩, ⟨"b", .opened⟩, ⟨"c", .opened⟩]
        | .wisp => []
      dependencies
        | .issue => [⟨"r", .item ⟨.issue, "a"⟩, .blocks, {}, none⟩, ⟨"r", .item ⟨.issue, "b"⟩, .blocks, {}, none⟩,
            ⟨"a", .item ⟨.issue, "b"⟩, .blocks, {}, none⟩, ⟨"b", .item ⟨.issue, "c"⟩, .blocks, {}, none⟩]
        | .wisp => [] }
  root := "r"
  maxDepth := 4

theorem getDependencyTree_detour : detour.Tree [⟨⟨"r", .opened⟩, 0, none⟩, ⟨⟨"a", .opened⟩, 1, some ("r", .blocks)⟩,
    ⟨⟨"b", .opened⟩, 2, some ("a", .blocks)⟩, ⟨⟨"c", .opened⟩, 3, some ("b", .blocks)⟩] :=
  (getDependencyTree_spec (show detour.getDependencyTree = _ from rfl)).1

theorem detour_hides : ∃ nodes, { detour with maxDepth := 3 }.getDependencyTree = some nodes ∧ "c" ∉ ids nodes ∧
    { detour with maxDepth := 3 }.Distant 2 "c" :=
  ⟨_, rfl, by decide, "b", .blocks, ⟨"r", .blocks, rfl, by decide⟩, by decide⟩

end TreeWalk

end Beads
