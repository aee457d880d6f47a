import Beads.Affected.Descendants
import Beads.Dependencies.Reachability

namespace Beads

namespace Tables

variable (tables : Tables)

def onlyItem (ref : ItemRef) : Plane → List Id := fun plane => if plane = ref.plane then [ref.id] else []

def affectedByStatusChangeOf (ref : ItemRef) : Seeds :=
  tables.expandByParentChildDescendants <|
    tables.loadWaitersOnSpawnerIds [ref.id] <|
      tables.loadWaitersWhoseSpawnerIsParentOf ref <|
        tables.loadBlockingDependersForIds ref.plane [ref.id] (.start (onlyItem ref))

def affectedByStatusChange (id : Id) : Seeds := tables.affectedByStatusChangeOf ⟨.issue, id⟩

def affectedByStatusChangeForWisp (id : Id) : Seeds := tables.affectedByStatusChangeOf ⟨.wisp, id⟩

/-- The children of the parent and of its ancestors with a reason of their own,
by either typed column. -/
def appendSiblingsUnderAncestors (parent : Id) (seeds : Seeds) : Seeds :=
  let parents := tables.ancestorChain parent
  tables.appendChildren .wisp .wisp parents <|
    tables.appendChildren .issue .wisp parents <|
      tables.appendChildren .wisp .issue parents <|
        tables.appendChildren .issue .issue parents seeds

def affectedByDepChangeOf (source : ItemRef) (target : Id) : DependencyType → Seeds
  | .other _ => .start fun _ => []
  | .parentChild =>
    tables.expandByParentChildDescendants <|
      if target == "" then .start (onlyItem source)
      else tables.appendSiblingsUnderAncestors target <|
        tables.loadWaitersOnSpawnerIds [target] (.start (onlyItem source))
  | _ => tables.expandByParentChildDescendants (.start (onlyItem source))

def affectedByDepChange (source target : Id) (type : DependencyType) : Seeds :=
  tables.affectedByDepChangeOf ⟨.issue, source⟩ target type

def affectedByDepChangeForWisp (source target : Id) (type : DependencyType) : Seeds :=
  tables.affectedByDepChangeOf ⟨.wisp, source⟩ target type

def affectedByDeletion (deletedIssues deletedWisps : List Id) : Seeds :=
  if deletedIssues.isEmpty && deletedWisps.isEmpty then .start fun _ => []
  else
    let dependers := tables.loadBlockingDependersForIds .wisp deletedWisps
      (tables.loadBlockingDependersForIds .issue deletedIssues (.excluding (idsOf deletedIssues deletedWisps)))
    let waiters := tables.loadWaitersOnSpawnerIdsByCol .wisp deletedWisps
      (tables.loadWaitersOnSpawnerIdsByCol .issue deletedIssues dependers)
    let overIssues := deletedIssues.foldl (fun seeds id => tables.loadWaitersWhoseSpawnerIsParentOf ⟨.issue, id⟩ seeds) waiters
    let overWisps := deletedWisps.foldl (fun seeds id => tables.loadWaitersWhoseSpawnerIsParentOf ⟨.wisp, id⟩ seeds) overIssues
    tables.expandByParentChildDescendants <|
      tables.appendChildren .wisp .wisp deletedWisps <|
        tables.appendChildren .issue .wisp deletedWisps <|
          tables.appendChildren .wisp .issue deletedIssues <|
            tables.appendChildren .issue .issue deletedIssues overWisps

open Seeds (Adds)

variable {tables} {ref : ItemRef} {seeds : Seeds} {excluded : Set ItemRef}

theorem good_onlyItem (ref : ItemRef) : (Seeds.start (onlyItem ref)).Good ∅ := by
  refine Seeds.good_start fun plane => ?_
  by_cases same : plane = ref.plane <;> simp [onlyItem, same]

theorem listed_start_onlyItem : (Seeds.start (onlyItem ref)).listed = {ref} := by
  ext other
  obtain ⟨plane, id⟩ := ref
  obtain ⟨otherPlane, otherId⟩ := other
  by_cases same : otherPlane = plane <;> simp [Seeds.listed, Seeds.start, onlyItem, same]

section

variable (tables : Tables)

def dependers (target : ItemRef) : Set ItemRef :=
  tables.sources fun row => row.type.blocking = true ∧ row.target = .item target

def waiters (spawner : ItemRef) : Set ItemRef :=
  tables.sources fun row => row.type = .waitsFor ∧ row.target = .item spawner

theorem adds_dependers (good : seeds.Good excluded) (plane : Plane) (ids : List Id) :
    Adds excluded seeds {ref | ∃ id ∈ ids, ref ∈ tables.dependers ⟨plane, id⟩}
      (tables.loadBlockingDependersForIds plane ids seeds) :=
  adds_loadSources tables good _ plane ids

theorem adds_waitersByCol (good : seeds.Good excluded) (plane : Plane) (ids : List Id) :
    Adds excluded seeds {ref | ∃ id ∈ ids, ref ∈ tables.waiters ⟨plane, id⟩}
      (tables.loadWaitersOnSpawnerIdsByCol plane ids seeds) := by
  exact (adds_loadSources tables good _ plane ids).congr (by simp [waiters])

theorem exists_ref {holds : ItemRef → Prop} : (∃ ref, holds ref) ↔ (∃ id, holds ⟨.issue, id⟩) ∨ ∃ id, holds ⟨.wisp, id⟩ := by
  refine ⟨fun ⟨⟨plane, id⟩, found⟩ => ?_, fun either => either.elim (fun ⟨_, found⟩ => ⟨_, found⟩) fun ⟨_, found⟩ => ⟨_, found⟩⟩
  cases plane with
  | issue => exact .inl ⟨id, found⟩
  | wisp => exact .inr ⟨id, found⟩

theorem adds_waiters (good : seeds.Good excluded) (ids : List Id) :
    Adds excluded seeds {ref | ∃ spawner : ItemRef, spawner.id ∈ ids ∧ ref ∈ tables.waiters spawner}
      (tables.loadWaitersOnSpawnerIds ids seeds) := by
  have issues := adds_waitersByCol tables good .issue ids
  refine (issues.trans (adds_waitersByCol tables issues.good .wisp ids)).congr (Set.ext fun ref => ?_)
  simp [exists_ref]

end

theorem mem_parentIds {child : ItemRef} {plane : Plane} {id : Id} :
    id ∈ tables.parentIds child plane ↔ tables.ParentChild child ⟨plane, id⟩ := by
  simp [parentIds, ParentChild, column_eq_some, and_assoc]

section

variable (tables : Tables)

section

variable (good : seeds.Good excluded)
include good

theorem adds_waitersOfParents (child : ItemRef) :
    Adds excluded seeds {ref | ∃ parent, tables.ParentChild child parent ∧
      ref ∈ tables.waiters parent} (tables.loadWaitersWhoseSpawnerIsParentOf child seeds) := by
  have issues : Adds excluded seeds _
      (tables.loadWaitersOnSpawnerIdsByCol .issue (tables.parentIds child .issue) seeds) := adds_waitersByCol tables good .issue _
  refine (issues.trans (adds_waitersByCol tables issues.good .wisp _)).congr (Set.ext fun ref => ?_)
  simp [mem_parentIds, exists_ref]

theorem adds_siblings (parent : Id) :
    Adds excluded seeds {ref | ∃ above : ItemRef, above.id ∈ tables.ancestorChain parent ∧
      tables.ParentChild ref above} (tables.appendSiblingsUnderAncestors parent seeds) := by
  have issues := adds_children tables good .issue (tables.ancestorChain parent)
  refine (issues.trans (adds_children tables issues.good .wisp _)).congr (Set.ext fun ref => ?_)
  simp [exists_ref]

end

/-- The item, its blocking dependers, the waiters of its parents and the waiters on its own id. -/
def statusSeeds (ref : ItemRef) : Set ItemRef :=
  {other | other = ref ∨ other ∈ tables.dependers ref ∨
    (∃ parent, tables.ParentChild ref parent ∧ other ∈ tables.waiters parent) ∨
    ∃ spawner : ItemRef, spawner.id = ref.id ∧ other ∈ tables.waiters spawner}

end

theorem affectedByStatusChangeOf_collects : (tables.affectedByStatusChangeOf ref).Collects
    {other | tables.AtOrBelow (tables.statusSeeds ref) ∅ other} := by
  have dependers := adds_dependers tables (good_onlyItem ref) ref.plane [ref.id]
  have parents := dependers.trans (adds_waitersOfParents tables dependers.good ref)
  have whole := parents.trans (adds_waiters tables parents.good [ref.id])
  have shape := whole.listed.trans (c := tables.statusSeeds ref) <| by
    ext other
    simp [listed_start_onlyItem, statusSeeds, or_assoc]
  rw [← shape]
  exact collects_expand whole.good

/-- The source, and for a parent-child row the waiters on the target and the children of the target
and of its ancestors with a row of another type. -/
def depSeeds (tables : Tables) (source : ItemRef) (target : Id) (type : DependencyType) : Set ItemRef :=
  {other | other = source ∨ type = .parentChild ∧ target ≠ "" ∧
    ((∃ spawner : ItemRef, spawner.id = target ∧ other ∈ tables.waiters spawner) ∨
      ∃ above : ItemRef, above.id ∈ tables.ancestorChain target ∧ tables.ParentChild other above)}

theorem affectedByDepChangeOf_collects {source : ItemRef} {target : Id} {type : DependencyType} :
    (tables.affectedByDepChangeOf source target type).Collects
      {other | (∀ name, type ≠ .other name) ∧ tables.AtOrBelow (tables.depSeeds source target type) ∅ other} := by
  have start := good_onlyItem source
  have plain : type ≠ .parentChild ∨ target = "" →
      tables.depSeeds source target type = (Seeds.start (onlyItem source)).listed := by
    intro alone
    ext other
    have never : ¬(type = .parentChild ∧ target ≠ "") := fun ⟨parent, nonempty⟩ => alone.elim (· parent) nonempty
    simp only [depSeeds, Set.mem_ofPred_eq, ← and_assoc, never, false_and, or_false, listed_start_onlyItem]
    rfl
  have alone : (tables.expandByParentChildDescendants _).Collects _ := collects_expand start
  cases type with
  | other name => exact ⟨fun _ => List.nodup_nil, by simp [affectedByDepChangeOf, Seeds.listed, Seeds.start]⟩
  | blocks | conditionalBlocks | waitsFor => simpa [plain, affectedByDepChangeOf] using alone
  | parentChild =>
    by_cases empty : target = ""
    · rw [plain (.inr empty)]
      simpa [affectedByDepChangeOf, empty] using alone
    · have waiters := adds_waiters tables start [target]
      have whole := waiters.trans (adds_siblings tables waiters.good target)
      have shape := whole.listed.trans (c := tables.depSeeds source target .parentChild) <| by
        ext other
        simp [listed_start_onlyItem, depSeeds, empty]
      rw [← shape]
      simpa [affectedByDepChangeOf, empty] using collects_expand whole.good

/-- The dependers of the deleted items, the waiters on them and on their parents, and their
children. -/
def deletionSeeds (tables : Tables) (deleted : Set ItemRef) : Set ItemRef :=
  {other | ∃ gone ∈ deleted, other ∈ tables.dependers gone ∨ other ∈ tables.waiters gone ∨
    (∃ parent, tables.ParentChild gone parent ∧ other ∈ tables.waiters parent) ∨ tables.ParentChild other gone}

def deletedSet (deletedIssues deletedWisps : List Id) : Set ItemRef :=
  {ref | ref.id ∈ idsOf deletedIssues deletedWisps ref.plane}

theorem mem_deletedSet {deletedIssues deletedWisps : List Id} {holds : ItemRef → Prop} :
    (∃ gone ∈ deletedSet deletedIssues deletedWisps, holds gone) ↔
      (∃ id ∈ deletedIssues, holds ⟨.issue, id⟩) ∨ ∃ id ∈ deletedWisps, holds ⟨.wisp, id⟩ :=
  exists_ref

theorem affectedByDeletion_collects {deletedIssues deletedWisps : List Id} :
    (tables.affectedByDeletion deletedIssues deletedWisps).Collects {other |
      tables.AtOrBelow (tables.deletionSeeds (deletedSet deletedIssues deletedWisps) \ deletedSet deletedIssues deletedWisps)
        (deletedSet deletedIssues deletedWisps) other} := by
  by_cases empty : (deletedIssues.isEmpty && deletedWisps.isEmpty) = true
  · simp only [Bool.and_eq_true, List.isEmpty_iff] at empty
    obtain ⟨rfl, rfl⟩ := empty
    have none : deletedSet [] [] = ∅ := by
      ext ⟨plane, id⟩
      cases plane <;> simp [deletedSet, idsOf]
    have nobody : tables.deletionSeeds (deletedSet [] []) = ∅ := by simp [deletionSeeds, none]
    rw [nobody, Set.empty_sdiff]
    refine ⟨fun _ => List.nodup_nil, Set.ext fun other => iff_of_false List.not_mem_nil fun reached => ?_⟩
    induction reached with
    | start member => exact member
    | child _ _ _ ih => exact ih
  · have issueDependers := adds_dependers tables (Seeds.good_excluding (idsOf deletedIssues deletedWisps)) .issue deletedIssues
    have wispDependers := issueDependers.trans (adds_dependers tables issueDependers.good .wisp deletedWisps)
    have issueWaiters := wispDependers.trans (adds_waitersByCol tables wispDependers.good .issue deletedIssues)
    have wispWaiters := issueWaiters.trans (adds_waitersByCol tables issueWaiters.good .wisp deletedWisps)
    have overIssues := wispWaiters.trans (Adds.fold deletedIssues
      (fun id _ _ good => adds_waitersOfParents tables good ⟨.issue, id⟩) wispWaiters.good)
    have overWisps := overIssues.trans (Adds.fold deletedWisps
      (fun id _ _ good => adds_waitersOfParents tables good ⟨.wisp, id⟩) overIssues.good)
    have issueChildren := overWisps.trans (adds_children tables overWisps.good .issue deletedIssues)
    have whole := issueChildren.trans (adds_children tables issueChildren.good .wisp deletedWisps)
    have shape := whole.listed.trans (c := tables.deletionSeeds (deletedSet deletedIssues deletedWisps) \
        deletedSet deletedIssues deletedWisps) <| by
      have nothing : (Seeds.excluding (idsOf deletedIssues deletedWisps)).listed = ∅ :=
        Set.eq_empty_of_forall_notMem fun _ member => List.not_mem_nil member
      rw [nothing, Set.empty_union]
      refine congrArg (· \ deletedSet deletedIssues deletedWisps) (Set.ext fun other => ?_)
      rw [deletionSeeds, Set.mem_ofPred_eq, mem_deletedSet]
      simp only [Set.mem_union, Set.mem_ofPred_eq, and_or_left, exists_or]
      exact iff_of_eq (by ac_rfl)
    have collected : (tables.expandByParentChildDescendants _).Collects _ := collects_expand whole.good
    rw [shape] at collected
    rw [affectedByDeletion, if_neg empty]
    exact collected

end Tables

end Beads
