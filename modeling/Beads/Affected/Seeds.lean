import Beads.Blocked.Recompute

/-! The incremental paths collect ids table by table, each id once, and then add every parent-child
descendant in batches. -/

namespace Beads

open Batches List

/-- The ids collected for each table and the ids seen, which include them. -/
structure Seeds where
  queue : Plane → List Id
  seen : Plane → List Id

namespace Seeds

def start (queue : Plane → List Id) : Seeds := ⟨queue, queue⟩

def excluding (seen : Plane → List Id) : Seeds := ⟨fun _ => [], seen⟩

def add (plane : Plane) (seeds : Seeds) (id : Id) : Seeds :=
  if (seeds.seen plane).contains id then seeds
  else ⟨Function.update seeds.queue plane (seeds.queue plane ++ [id]),
    Function.update seeds.seen plane (id :: seeds.seen plane)⟩

def addAll (plane : Plane) (seeds : Seeds) (ids : List Id) : Seeds := ids.foldl (add plane) seeds

def join (seeds more : Seeds) : Seeds :=
  (seeds.addAll .issue (more.queue .issue)).addAll .wisp (more.queue .wisp)

end Seeds

namespace Tables

variable (tables : Tables)

def sourcesWhere (plane : Plane) (guard : Dependency → Bool) : List Id :=
  ((tables.dependencies plane).filter guard).map Dependency.issueId

/-- The sources, in either table, of the rows of a type whose typed target
column holds one of the ids. -/
def loadSources (type : DependencyType → Bool) (targetPlane : Plane) (ids : List Id) (seeds : Seeds) : Seeds :=
  ids.foldl (fun seeds id => planes.foldl (fun seeds table => seeds.addAll table
    (tables.sourcesWhere table fun row => type row.type && row.target.column targetPlane == some id)) seeds) seeds

def loadBlockingDependersForIds (targetPlane : Plane) (ids : List Id) (seeds : Seeds) : Seeds :=
  tables.loadSources DependencyType.blocking targetPlane ids seeds

def loadWaitersOnSpawnerIdsByCol (targetPlane : Plane) (spawnerIds : List Id) (seeds : Seeds) : Seeds :=
  tables.loadSources (· == .waitsFor) targetPlane spawnerIds seeds

def loadWaitersOnSpawnerIds (spawnerIds : List Id) (seeds : Seeds) : Seeds :=
  tables.loadWaitersOnSpawnerIdsByCol .wisp spawnerIds (tables.loadWaitersOnSpawnerIdsByCol .issue spawnerIds seeds)

def parentIds (child : ItemRef) (parentPlane : Plane) : List Id :=
  ((tables.dependencies child.plane).filter fun row => row.issueId == child.id && row.type == .parentChild).filterMap
    fun row => row.target.column parentPlane

def loadWaitersWhoseSpawnerIsParentOf (child : ItemRef) (seeds : Seeds) : Seeds :=
  tables.loadWaitersOnSpawnerIdsByCol .wisp (tables.parentIds child .wisp)
    (tables.loadWaitersOnSpawnerIdsByCol .issue (tables.parentIds child .issue) seeds)

def appendChildren (table parentPlane : Plane) (parentIds : List Id) (seeds : Seeds) : Seeds :=
  (batches queryBatchSize parentIds).foldl (fun seeds chunk => seeds.addAll table
    (tables.sourcesWhere table fun row => row.type == .parentChild && (row.target.column parentPlane).any chunk.contains))
    seeds

end Tables

/-- The two queues with the position up to which each has been expanded. -/
structure Expansion where
  seeds : Seeds
  head : Plane → Nat

def Expansion.pending (state : Expansion) (plane : Plane) : Bool :=
  state.head plane < (state.seeds.queue plane).length

namespace Tables

variable (tables : Tables)

def expandBatch (plane : Plane) (state : Expansion) : Expansion :=
  let batch := ((state.seeds.queue plane).drop (state.head plane)).take queryBatchSize
  ⟨tables.appendChildren .wisp plane batch (tables.appendChildren .issue plane batch state.seeds),
    Function.update state.head plane (state.head plane + batch.length)⟩

def expandQueue (plane : Plane) (state : Expansion) : Expansion :=
  if state.pending plane then tables.expandBatch plane state else state

def expandLoop : Nat → Expansion → Seeds
  | 0, state => state.seeds
  | fuel + 1, state =>
    if state.pending .issue || state.pending .wisp
    then expandLoop fuel (tables.expandQueue .wisp (tables.expandQueue .issue state))
    else state.seeds

def expandFuel (seeds : Seeds) : Nat :=
  (seeds.queue .issue).length + (seeds.queue .wisp).length + (tables.dependencies .issue).length +
    (tables.dependencies .wisp).length

def expandByParentChildDescendants (seeds : Seeds) : Seeds :=
  tables.expandLoop (tables.expandFuel seeds) ⟨seeds, fun _ => 0⟩

end Tables

namespace Seeds

variable {seeds after : Seeds} {excluded fresh : Set ItemRef} {plane : Plane} {id : Id} {ids : List Id}

def listed (seeds : Seeds) : Set ItemRef := {ref | ref.id ∈ seeds.queue ref.plane}

/-- Seen are exactly the collected and the excluded items, no item is both, and
none is collected twice. -/
structure Good (excluded : Set ItemRef) (seeds : Seeds) : Prop where
  known : ∀ ref : ItemRef, ref.id ∈ seeds.seen ref.plane ↔ ref ∈ seeds.listed ∨ ref ∈ excluded
  apart : ∀ ref ∈ seeds.listed, ref ∉ excluded
  nodup : ∀ plane, (seeds.queue plane).Nodup

/-- The second seeds collect the fresh items besides, excluded ones apart. -/
structure Adds (excluded : Set ItemRef) (seeds : Seeds) (fresh : Set ItemRef) (after : Seeds) : Prop where
  good : after.Good excluded
  listed : after.listed = seeds.listed ∪ (fresh \ excluded)
  grows : ∀ plane, seeds.queue plane <+: after.queue plane

theorem good_start {queue : Plane → List Id} (nodup : ∀ plane, (queue plane).Nodup) : (start queue).Good ∅ :=
  ⟨fun _ => (or_iff_left (Set.notMem_empty _)).symm, fun ref _ => Set.notMem_empty ref, nodup⟩

theorem good_excluding (seen : Plane → List Id) : (excluding seen).Good {ref | ref.id ∈ seen ref.plane} :=
  ⟨fun _ => (or_iff_right not_mem_nil).symm, nofun, fun _ => nodup_nil⟩

structure Collects (seeds : Seeds) (items : Set ItemRef) : Prop where
  nodup : ∀ plane, (seeds.queue plane).Nodup
  listed : seeds.listed = items

theorem Adds.none (good : seeds.Good excluded) : Adds excluded seeds ∅ seeds :=
  ⟨good, by rw [Set.empty_sdiff, Set.union_empty], fun _ => prefix_rfl⟩

theorem Adds.congr {other : Set ItemRef} (adds : Adds excluded seeds fresh after)
    (same : fresh = other) : Adds excluded seeds other after := same ▸ adds

theorem Adds.trans {later : Seeds} {more : Set ItemRef} (first : Adds excluded seeds fresh after)
    (second : Adds excluded after more later) : Adds excluded seeds (fresh ∪ more) later :=
  ⟨second.good, by rw [second.listed, first.listed, Set.union_sdiff_distrib, Set.union_assoc],
    fun plane => (first.grows plane).trans (second.grows plane)⟩

theorem add_of_mem (known : id ∈ seeds.seen plane) : seeds.add plane id = seeds :=
  if_pos (contains_iff_mem.mpr known)

theorem add_of_notMem (unseen : id ∉ seeds.seen plane) : seeds.add plane id =
    ⟨Function.update seeds.queue plane (seeds.queue plane ++ [id]),
      Function.update seeds.seen plane (id :: seeds.seen plane)⟩ :=
  if_neg fun known => unseen (contains_iff_mem.mp known)

theorem mem_listed_add (unseen : id ∉ seeds.seen plane) {ref : ItemRef} :
    ref ∈ (seeds.add plane id).listed ↔ ref ∈ seeds.listed ∨ ref = ⟨plane, id⟩ := by
  obtain ⟨otherPlane, otherId⟩ := ref
  rw [add_of_notMem unseen]
  by_cases same : otherPlane = plane
  · subst same
    simp [listed]
  · simp [listed, same]

theorem Adds.one (good : seeds.Good excluded) : Adds excluded seeds {⟨plane, id⟩} (seeds.add plane id) := by
  by_cases known : id ∈ seeds.seen plane
  · have already := (good.known ⟨plane, id⟩).mp known
    rw [add_of_mem known]
    refine ⟨good, (Set.union_eq_left.mpr ?_).symm, fun _ => prefix_rfl⟩
    intro ref ⟨single, free⟩
    rw [Set.mem_singleton_iff.mp single] at free ⊢
    exact already.resolve_right free
  · have free : (⟨plane, id⟩ : ItemRef) ∉ excluded :=
      fun member => known ((good.known ⟨plane, id⟩).mpr (.inr member))
    have absent : id ∉ seeds.queue plane := fun listed => known ((good.known ⟨plane, id⟩).mpr (.inl listed))
    refine ⟨⟨fun ref => ?_, fun ref member => ?_, fun other => ?_⟩, Set.ext fun ref => ?_, fun other => ?_⟩
    · rw [mem_listed_add known, or_right_comm, ← good.known ref, add_of_notMem known]
      obtain ⟨otherPlane, otherId⟩ := ref
      by_cases same : otherPlane = plane
      · subst same
        simp [or_comm]
      · simp [same]
    · cases (mem_listed_add known).mp member with
      | inl old => exact good.apart ref old
      | inr new => exact new ▸ free
    · have old := good.nodup other
      rw [add_of_notMem known]
      by_cases same : other = plane
      · subst same
        simp only [Function.update_self]
        exact old.append (nodup_singleton id) (disjoint_singleton.mpr absent)
      · simp [same, old]
    · rw [mem_listed_add known]
      refine or_congr_right ⟨fun new => ?_, fun new => new.1⟩
      exact ⟨new, by rwa [new]⟩
    · rw [add_of_notMem known]
      by_cases same : other = plane
      · subst same
        simp
      · simp [same]

theorem Adds.fold {α : Type} {step : Seeds → α → Seeds} {freshOf : α → Set ItemRef}
    (inputs : List α) (each : ∀ input ∈ inputs, ∀ {seeds : Seeds}, seeds.Good excluded →
    Adds excluded seeds (freshOf input) (step seeds input)) (good : seeds.Good excluded) :
    Adds excluded seeds {ref | ∃ input ∈ inputs, ref ∈ freshOf input} (inputs.foldl step seeds) := by
  induction inputs generalizing seeds with
  | nil => simpa using Adds.none good
  | cons input rest ih =>
    have first := each input (.head _) good
    have later := ih (fun next member => each next (.tail _ member)) first.good
    refine (first.trans later).congr (Set.ext fun ref => ?_)
    simp

theorem Adds.all (good : seeds.Good excluded) (ids : List Id) :
    Adds excluded seeds {ref | ref.plane = plane ∧ ref.id ∈ ids} (seeds.addAll plane ids) := by
  have folded : Adds excluded seeds {ref | ∃ id ∈ ids, ref ∈ ({⟨plane, id⟩} : Set ItemRef)} (seeds.addAll plane ids) :=
    Adds.fold ids (fun id _ _ good => Adds.one good) good
  refine folded.congr (Set.ext fun ref => ⟨?_, ?_⟩)
  · intro ⟨id, member, same⟩
    rw [Set.mem_singleton_iff.mp same]
    exact ⟨rfl, member⟩
  · intro ⟨inPlane, member⟩
    exact ⟨ref.id, member, by rw [← inPlane]; rfl⟩

theorem adds_refs {α : Type} (refOf : α → ItemRef) (inputs : List α) (good : seeds.Good excluded) :
    Adds excluded seeds {ref | ∃ input ∈ inputs, ref = refOf input}
      (inputs.foldl (fun seeds input => seeds.add (refOf input).plane (refOf input).id) seeds) :=
  Adds.fold inputs (fun _ _ _ good => Adds.one good) good

theorem good_nil : (start fun _ => []).Good ∅ := good_start fun _ => nodup_nil

theorem listed_nil : (start fun _ => []).listed = ∅ := Set.eq_empty_of_forall_notMem fun _ member => not_mem_nil member

theorem adds_join (more : Seeds) (good : seeds.Good excluded) : Adds excluded seeds more.listed (seeds.join more) := by
  have issues : Adds excluded seeds {ref | ref.plane = .issue ∧ ref.id ∈ more.queue .issue} _ := Adds.all good _
  have wisps : Adds excluded _ {ref | ref.plane = .wisp ∧ ref.id ∈ more.queue .wisp} _ := Adds.all issues.good _
  refine (issues.trans wisps).congr (Set.ext fun ref => ?_)
  obtain ⟨plane, id⟩ := ref
  cases plane <;> simp [listed]

end Seeds

namespace Tables

variable {tables : Tables} {seeds : Seeds} {excluded : Set ItemRef} {plane : Plane}

def sources (tables : Tables) (guard : Dependency → Prop) : Set ItemRef :=
  {ref | ∃ row ∈ tables.dependencies ref.plane, row.issueId = ref.id ∧ guard row}

theorem mem_sourcesWhere {guard : Dependency → Bool} {id : Id} : id ∈ tables.sourcesWhere plane guard ↔
    (⟨plane, id⟩ : ItemRef) ∈ tables.sources fun row => guard row = true := by
  simp only [sourcesWhere, sources, mem_map, mem_filter]
  exact exists_congr fun row => by rw [and_right_comm, and_assoc]

open Seeds (Adds)

variable (tables) (good : seeds.Good excluded)
include good

theorem adds_sourcesWhere (guard : Dependency → Bool) :
    Adds excluded seeds {ref | ref.plane = plane ∧ ref ∈ tables.sources fun row => guard row = true}
      (seeds.addAll plane (tables.sourcesWhere plane guard)) := by
  have added : Adds excluded seeds {ref | ref.plane = plane ∧ ref.id ∈ tables.sourcesWhere plane guard}
      (seeds.addAll plane (tables.sourcesWhere plane guard)) := Adds.all good _
  refine added.congr (Set.ext fun ref => and_congr_right fun inPlane => ?_)
  rw [mem_sourcesWhere, ← inPlane]

theorem adds_loadSources (type : DependencyType → Bool) (targetPlane : Plane) (ids : List Id) :
    Adds excluded seeds {ref | ∃ id ∈ ids, ref ∈ tables.sources fun row => type row.type = true ∧
      row.target = .item ⟨targetPlane, id⟩} (tables.loadSources type targetPlane ids seeds) := by
  have folded : Adds excluded seeds {ref | ∃ id ∈ ids, ref ∈ {ref : ItemRef | ∃ table ∈ planes, ref ∈
      {ref : ItemRef | ref.plane = table ∧ ref ∈ tables.sources fun row =>
        (type row.type && row.target.column targetPlane == some id) = true}}} (tables.loadSources type targetPlane ids seeds) :=
    Adds.fold ids (fun _ _ _ good => Adds.fold planes (fun _ _ _ good => adds_sourcesWhere tables good _) good) good
  exact folded.congr (by simp [sources, mem_planes, column_eq_some])

theorem adds_appendChildren (table parentPlane : Plane) (parentIds : List Id) :
    Adds excluded seeds {ref | ref.plane = table ∧ ∃ id ∈ parentIds, tables.ParentChild ref ⟨parentPlane, id⟩}
      (tables.appendChildren table parentPlane parentIds seeds) := by
  have folded : Adds excluded seeds {ref | ∃ chunk ∈ batches queryBatchSize parentIds, ref ∈
      {ref : ItemRef | ref.plane = table ∧ ref ∈ tables.sources fun row =>
        (row.type == .parentChild && (row.target.column parentPlane).any chunk.contains) = true}}
      (tables.appendChildren table parentPlane parentIds seeds) :=
    Adds.fold _ (fun _ _ _ good => adds_sourcesWhere tables good _) good
  refine folded.congr (Set.ext fun ref => ⟨?_, ?_⟩)
  · intro ⟨chunk, listed, inPlane, row, member, source, holds⟩
    simp only [Bool.and_eq_true, beq_iff_eq, Option.any_eq_true, column_eq_some, contains_iff_mem] at holds
    obtain ⟨type, id, target, inside⟩ := holds
    exact ⟨inPlane, id, (mem_batches (by decide)).mp ⟨chunk, listed, inside⟩, row, member, source, type, target⟩
  · intro ⟨inPlane, id, listed, row, member, source, type, target⟩
    obtain ⟨chunk, chunkListed, inside⟩ := (mem_batches (by decide : 0 < queryBatchSize)).mpr listed
    refine ⟨chunk, chunkListed, inPlane, row, member, source, ?_⟩
    simp [type, column_eq_some.mpr target, inside]

theorem adds_children (parentPlane : Plane) (ids : List Id) :
    Adds excluded seeds {ref | ∃ id ∈ ids, tables.ParentChild ref ⟨parentPlane, id⟩}
      (tables.appendChildren .wisp parentPlane ids (tables.appendChildren .issue parentPlane ids seeds)) := by
  have issues := adds_appendChildren tables good .issue parentPlane ids
  refine (issues.trans (adds_appendChildren tables issues.good .wisp parentPlane ids)).congr (Set.ext fun ref => ?_)
  obtain ⟨plane, id⟩ := ref
  cases plane <;> simp

end Tables

end Beads
