import Beads.Affected.Seeds

namespace Beads

open Batches List Function

def Expansion.batch (state : Expansion) (plane : Plane) : List Id :=
  ((state.seeds.queue plane).drop (state.head plane)).take queryBatchSize

namespace Tables

variable {tables : Tables} {seeds : Seeds} {start excluded : Set ItemRef} {state : Expansion} {plane : Plane}

/-- Reached from the start by parent-child rows, downwards and never into an excluded item. -/
inductive AtOrBelow (tables : Tables) (start excluded : Set ItemRef) : ItemRef → Prop where
  | start {ref : ItemRef} (member : ref ∈ start) : AtOrBelow tables start excluded ref
  | child {ref parent : ItemRef} (above : AtOrBelow tables start excluded parent)
      (edge : tables.ParentChild ref parent) (free : ref ∉ excluded) : AtOrBelow tables start excluded ref

def unseen (tables : Tables) (plane : Plane) (seen : List Id) : Nat :=
  ((tables.dependencies plane).filter fun row => !seen.contains row.issueId).length

theorem unseen_cons {id : Id} {seen : List Id} (source : ∃ row ∈ tables.dependencies plane, row.issueId = id)
    (new : id ∉ seen) : tables.unseen plane (id :: seen) < tables.unseen plane seen := by
  have narrower : (tables.dependencies plane).filter (fun row => !(id :: seen).contains row.issueId) =
      ((tables.dependencies plane).filter fun row => !seen.contains row.issueId).filter fun row => !(row.issueId == id) := by
    rw [filter_filter]
    refine filter_congr fun row _ => ?_
    simp only [contains_cons, Bool.not_or]
  obtain ⟨row, member, rfl⟩ := source
  rw [unseen, narrower, unseen]
  refine length_filter_lt_length_iff_exists.mpr ⟨row, mem_filter.mpr ⟨member, ?_⟩, ?_⟩
  · simpa using new
  · simp

def weight (tables : Tables) (seeds : Seeds) : Nat :=
  (seeds.queue .issue).length + (seeds.queue .wisp).length +
    tables.unseen .issue (seeds.seen .issue) + tables.unseen .wisp (seeds.seen .wisp)

theorem weight_add {id : Id} (source : ∃ row ∈ tables.dependencies plane, row.issueId = id) :
    tables.weight (seeds.add plane id) ≤ tables.weight seeds := by
  by_cases known : id ∈ seeds.seen plane
  · rw [Seeds.add_of_mem known]
  · have shrinks := unseen_cons source known
    rw [Seeds.add_of_notMem known]
    cases plane <;> simp [weight] <;> omega

theorem weight_addAll {ids : List Id} (sources : ∀ id ∈ ids, ∃ row ∈ tables.dependencies plane, row.issueId = id) :
    tables.weight (seeds.addAll plane ids) ≤ tables.weight seeds := by
  induction ids generalizing seeds with
  | nil => exact Nat.le_refl _
  | cons id rest ih =>
    have later : tables.weight ((seeds.add plane id).addAll plane rest) ≤ tables.weight (seeds.add plane id) :=
      ih fun next member => sources next (.tail _ member)
    exact later.trans (weight_add (sources id (.head _)))

theorem weight_appendChildren (table parentPlane : Plane) (parentIds : List Id) :
    tables.weight (tables.appendChildren table parentPlane parentIds seeds) ≤ tables.weight seeds := by
  unfold appendChildren
  induction batches queryBatchSize parentIds generalizing seeds with
  | nil => exact Nat.le_refl _
  | cons chunk rest ih =>
    rw [foldl_cons]
    refine ih.trans (weight_addAll fun id member => ?_)
    obtain ⟨row, listed, source, _⟩ := mem_sourcesWhere.mp member
    exact ⟨row, listed, source⟩

structure Expanding (tables : Tables) (start excluded : Set ItemRef) (state : Expansion) : Prop where
  good : state.seeds.Good excluded
  sound : ∀ ref ∈ state.seeds.listed, tables.AtOrBelow start excluded ref
  base : start ⊆ state.seeds.listed
  within : ∀ plane, state.head plane ≤ (state.seeds.queue plane).length
  done : ∀ plane, ∀ id ∈ (state.seeds.queue plane).take (state.head plane), ∀ child,
    tables.ParentChild child ⟨plane, id⟩ → child ∉ excluded → child ∈ state.seeds.listed

theorem adds_expandBatch (tables : Tables) (good : state.seeds.Good excluded) :
    Seeds.Adds excluded state.seeds
      {ref | ∃ id ∈ state.batch plane, tables.ParentChild ref ⟨plane, id⟩} (tables.expandBatch plane state).seeds :=
  adds_children tables good plane (state.batch plane)

theorem take_expandBatch (good : state.seeds.Good excluded)
    (within : ∀ plane, state.head plane ≤ (state.seeds.queue plane).length) (other : Plane) :
    ((tables.expandBatch plane state).seeds.queue other).take ((tables.expandBatch plane state).head other) =
      (state.seeds.queue other).take (state.head other) ++
        if other = plane then state.batch plane else [] := by
  obtain ⟨extra, grown⟩ := (adds_expandBatch tables good : Seeds.Adds excluded _ _
    (tables.expandBatch plane state).seeds).grows other
  rw [← grown]
  by_cases same : other = plane
  · subst same
    have head : (tables.expandBatch other state).head other = state.head other + (state.batch other).length :=
      update_self _ _ _
    have front : state.batch other <+: (state.seeds.queue other).drop (state.head other) ++ extra :=
      (List.take_prefix _ _).trans (prefix_append _ _)
    rw [head, if_pos rfl, take_add, take_append_of_le_length (within other),
      drop_append_of_le_length (within other), ← prefix_iff_eq_take.mp front]
  · have head : (tables.expandBatch plane state).head other = state.head other := update_of_ne same _ _
    rw [head, if_neg same, append_nil, take_append_of_le_length (within other)]

theorem head_expandBatch : (tables.expandBatch plane state).head = Function.update state.head plane
    (state.head plane + (state.batch plane).length) := rfl

theorem weight_expandBatch : tables.weight (tables.expandBatch plane state).seeds ≤ tables.weight state.seeds :=
  (weight_appendChildren _ _ _).trans (weight_appendChildren _ _ _)

section

variable (expanding : tables.Expanding start excluded state)
include expanding

theorem Expanding.batch (plane : Plane) :
    tables.Expanding start excluded (tables.expandBatch plane state) := by
  have adds : Seeds.Adds excluded state.seeds _ (tables.expandBatch plane state).seeds := adds_expandBatch tables expanding.good
  have kept : state.seeds.listed ⊆ (tables.expandBatch plane state).seeds.listed := by
    rw [adds.listed]
    exact Set.subset_union_left
  have inBatch : ∀ {id}, id ∈ state.batch plane → (⟨plane, id⟩ : ItemRef) ∈ state.seeds.listed :=
    fun member => mem_of_mem_drop (mem_of_mem_take member)
  refine ⟨adds.good, ?_, fun ref member => kept (expanding.base member), ?_, ?_⟩
  · intro ref member
    rw [adds.listed] at member
    cases member with
    | inl old => exact expanding.sound ref old
    | inr new =>
      obtain ⟨⟨id, listed, edge⟩, free⟩ := new
      exact .child (expanding.sound _ (inBatch listed)) edge free
  · intro other
    have longer := (adds.grows other).length_le
    have bound := expanding.within other
    rw [head_expandBatch]
    by_cases same : other = plane
    · subst same
      rw [update_self, Expansion.batch, length_take, length_drop]
      omega
    · rw [update_of_ne same]
      omega
  · intro other id member child edge free
    rw [take_expandBatch expanding.good expanding.within, mem_append] at member
    cases member with
    | inl earlier => exact kept (expanding.done other id earlier child edge free)
    | inr now =>
      by_cases same : other = plane
      · subst same
        rw [if_pos rfl] at now
        rw [adds.listed]
        exact .inr ⟨⟨id, now, edge⟩, free⟩
      · rw [if_neg same] at now
        cases now

theorem Expanding.queue (plane : Plane) : let next := tables.expandQueue plane state
    tables.Expanding start excluded next ∧ tables.weight next.seeds ≤ tables.weight state.seeds ∧
      state.head .issue + state.head .wisp + (if state.pending plane then 1 else 0) ≤ next.head .issue + next.head .wisp := by
  intro next
  cases pending : state.pending plane with
  | false =>
    have same : next = state := if_neg (by simp [pending])
    rw [same]
    exact ⟨expanding, Nat.le_refl _, Nat.le_refl _⟩
  | true =>
    have step : next = tables.expandBatch plane state := if_pos pending
    rw [step]
    refine ⟨expanding.batch plane, weight_expandBatch, ?_⟩
    have waiting : state.head plane < (state.seeds.queue plane).length := by simpa [Expansion.pending] using pending
    have moved : 0 < (state.batch plane).length := by
      rw [Expansion.batch, length_take, length_drop, queryBatchSize]
      omega
    rw [head_expandBatch, if_pos rfl]
    cases plane with
    | issue | wisp =>
      rw [update_self, update_of_ne (by decide)]
      omega

theorem Expanding.finish {fuel : Nat}
    (enough : tables.weight state.seeds ≤ fuel + state.head .issue + state.head .wisp) :
    ∃ final : Expansion, tables.expandLoop fuel state = final.seeds ∧
      tables.Expanding start excluded final ∧ ∀ plane, final.pending plane = false := by
  induction fuel generalizing state with
  | zero =>
    refine ⟨state, rfl, expanding, fun plane => ?_⟩
    have issues := expanding.within .issue
    have wisps := expanding.within .wisp
    simp only [weight] at enough
    cases plane <;> simp [Expansion.pending] <;> omega
  | succ fuel ih =>
    rw [expandLoop]
    split
    · rename_i waiting
      obtain ⟨issues, issuesWeight, issuesMoved⟩ := expanding.queue .issue
      obtain ⟨wisps, wispsWeight, wispsMoved⟩ := issues.queue .wisp
      refine ih wisps ?_
      have moved : state.head .issue + state.head .wisp <
          (tables.expandQueue .wisp (tables.expandQueue .issue state)).head .issue +
            (tables.expandQueue .wisp (tables.expandQueue .issue state)).head .wisp := by
        cases pending : state.pending .issue with
        | true =>
          rw [if_pos pending] at issuesMoved
          omega
        | false =>
          have same : tables.expandQueue .issue state = state := if_neg (by simp [pending])
          have wispPending : state.pending .wisp = true := by simpa [pending] using waiting
          rw [same, if_pos wispPending] at wispsMoved
          rw [same]
          omega
      omega
    · rename_i settled
      refine ⟨state, rfl, expanding, fun plane => ?_⟩
      cases plane <;> simp_all

end

theorem collects_expand (good : seeds.Good excluded) :
    (tables.expandByParentChildDescendants seeds).Collects {ref | tables.AtOrBelow seeds.listed excluded ref} := by
  have initial : tables.Expanding seeds.listed excluded ⟨seeds, fun _ => 0⟩ :=
    ⟨good, fun _ member => .start member, subset_rfl, fun _ => Nat.zero_le _,
      fun _ _ member => absurd member (by simp)⟩
  have enough : tables.weight seeds ≤ tables.expandFuel seeds + 0 + 0 := by
    have issues : tables.unseen .issue (seeds.seen .issue) ≤ (tables.dependencies .issue).length := length_filter_le _ _
    have wisps : tables.unseen .wisp (seeds.seen .wisp) ≤ (tables.dependencies .wisp).length := length_filter_le _ _
    simp only [weight, expandFuel]
    omega
  obtain ⟨final, result, expanding, idle⟩ := initial.finish enough
  have shape : tables.expandByParentChildDescendants seeds = final.seeds := result
  rw [shape]
  refine ⟨expanding.good.nodup, Set.ext fun ref => ⟨expanding.sound ref, fun reached => ?_⟩⟩
  have whole : ∀ plane, (final.seeds.queue plane).length ≤ final.head plane :=
    fun plane => by simpa [Expansion.pending] using idle plane
  induction reached with
  | start member => exact expanding.base member
  | child _ edge free ih =>
    refine expanding.done _ _ ?_ _ edge free
    rw [take_of_length_le (whole _)]
    exact ih

end Tables

end Beads
