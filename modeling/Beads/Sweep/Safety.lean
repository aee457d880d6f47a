import Beads.Data.SortedPages
import Beads.Recheck.Shrinking
import Beads.Sweep.Selection

namespace Beads

open SortedPages Tables List

variable {host : SweepHost} {req : SweepRequest} {item other : SweepItem}

structure Sweepable (host : SweepHost) (req : SweepRequest) (item : SweepItem) : Prop where
  closed : item.status = .closed
  unpinned : item.columns.pinned = false
  matched : matchesSweepPattern host req.idPattern item.ref.id = true
  timely : ∃ closedAt, item.columns.closedAt = some closedAt ∧ ∀ cutoff ∈ req.closedBefore, closedAt * 10 ^ 9 < cutoff

/-- What the loop asks of a row that it keeps. -/
def passesSweep (host : SweepHost) (pattern : String) (cutoff : Option Int) (issue : SweepItem) : Bool :=
  matchesSweepPattern host pattern issue.ref.id && !issue.columns.pinned && issue.status == .closed &&
    issue.columns.closedAt.any fun closedAt => !cutoff.any fun cutoff => !decide (closedAt * 10 ^ 9 < cutoff)

theorem passesSweep_iff : passesSweep host req.idPattern req.closedBefore item = true ↔ Sweepable host req item := by
  simp only [passesSweep, Bool.and_eq_true, Bool.not_eq_true', beq_iff_eq, Option.any_eq_true,
    Option.any_eq_false, Bool.not_eq_false', decide_eq_true_eq]
  constructor
  · intro ⟨⟨⟨matched, unpinned⟩, closed⟩, timely⟩
    exact ⟨closed, unpinned, matched, timely⟩
  · intro ⟨closed, unpinned, matched, timely⟩
    exact ⟨⟨⟨matched, unpinned⟩, closed⟩, timely⟩

theorem filterSweepCandidates_eq (issues : List SweepItem) (pattern : String) (cutoff : Option Int) :
    (filterSweepCandidates host issues pattern cutoff).1 = issues.filter (passesSweep host pattern cutoff) := by
  rw [filterSweepCandidates]
  -- The loop adds to what it has kept so far.
  suffices loop : ∀ (kept : List SweepItem) (skips : SweepSkips),
      (issues.foldl _ (kept, skips)).1 = kept ++ issues.filter (passesSweep host pattern cutoff) from loop [] {}
  induction issues with
  | nil => simp
  | cons first rest ih =>
    intro kept skips
    rw [foldl_cons, filter_cons, passesSweep]
    dsimp only
    split
    · simp_all
    split
    · simp_all
    split
    · simp_all
    split
    · simp_all
    split <;> simp_all

theorem mem_filterSweepCandidates {issues : List SweepItem} :
    item ∈ (filterSweepCandidates host issues req.idPattern req.closedBefore).1 ↔ item ∈ issues ∧ Sweepable host req item := by
  rw [filterSweepCandidates_eq, mem_filter, passesSweep_iff]

namespace SweepStore

variable {store after : SweepStore} {session : Session} {result : SweepResult} {ref : ItemRef} {plane : Plane} {id : Id}

theorem plane_of_row (member : item ∈ store.rows plane) : item.ref.plane = plane := by
  obtain ⟨row, _, rfl⟩ := mem_map.mp member
  rfl

theorem stored_of_row (member : item ∈ store.rows plane) : store.stored item.ref = true := by
  obtain ⟨row, listed, rfl⟩ := mem_map.mp member
  exact stored_iff.mpr ⟨row, listed, rfl⟩

theorem exists_twin (present : store.stored ⟨.wisp, id⟩ = true) : ∃ twin ∈ store.rows .wisp, twin.ref.id = id := by
  obtain ⟨row, listed, same⟩ := stored_iff.mp present
  exact ⟨_, mem_map_of_mem listed, same⟩

theorem ids_nodup (store : SweepStore) (plane : Plane) : ((store.rows plane).map fun item => item.ref.id).Nodup := by
  rw [rows, map_map]
  exact store.itemsKeyed plane

theorem row_unique (member : item ∈ store.rows plane) (listed : other ∈ store.rows plane)
    (same : item.ref.id = other.ref.id) : item = other :=
  inj_on_of_nodup_map (store.ids_nodup plane) member listed same

theorem mem_searchIssues {filter : SweepItem → Bool} : item ∈ store.searchIssues host filter ↔
    filter item = true ∧ (item ∈ store.rows .wisp ∨
      item ∈ store.rows .issue ∧ ∀ twin ∈ store.rows .wisp, twin.ref.id = item.ref.id → filter twin = false) := by
  rw [searchIssues, (host.orderBy_perm _).mem_iff, mem_append, mem_filter, mem_filter, mem_filter]
  simp only [Bool.not_eq_true', any_eq_false, mem_filter, beq_iff_eq, and_imp]
  constructor
  · rintro (⟨⟨issue, passes⟩, alone⟩ | ⟨wisp, passes⟩)
    · refine ⟨passes, .inr ⟨issue, fun twin listed same => ?_⟩⟩
      exact Bool.eq_false_iff.mpr fun also => alone twin listed also same
    · exact ⟨passes, .inl wisp⟩
  · rintro ⟨passes, wisp | ⟨issue, alone⟩⟩
    · exact .inr ⟨wisp, passes⟩
    · exact .inl ⟨⟨issue, passes⟩, fun twin listed also same => by simp [alone twin listed same] at also⟩

theorem searchIssues_nodup (filter : SweepItem → Bool) :
    ((store.searchIssues host filter).map fun item => item.ref.id).Nodup := by
  rw [searchIssues]
  refine ((host.orderBy_perm _).map _).nodup_iff.mpr ?_
  rw [map_append, nodup_append]
  refine ⟨(store.ids_nodup .issue).sublist ((filter_sublist.trans filter_sublist).map _),
    (store.ids_nodup .wisp).sublist (filter_sublist.map _), ?_⟩
  intro one here two there same
  obtain ⟨issue, listed, rfl⟩ := mem_map.mp here
  obtain ⟨wisp, found, rfl⟩ := mem_map.mp there
  have alone := (mem_filter.mp listed).2
  simp only [Bool.not_eq_true', any_eq_false, beq_iff_eq] at alone
  exact alone wisp found same.symm

def candidates (host : SweepHost) (store : SweepStore) (req : SweepRequest) : List SweepItem :=
  (store.sweepCandidates host req).1

section

variable (member : item ∈ store.candidates host req)
include member

theorem sweepable_of_candidate : Sweepable host req item :=
  (mem_filterSweepCandidates.mp member).2

theorem row_of_candidate : item ∈ store.rows item.ref.plane := by
  have found := (mem_filterSweepCandidates.mp member).1
  split at found
  · have wisp := mem_of_mem_filter ((host.orderBy_perm _).mem_iff.mp found)
    rwa [plane_of_row wisp]
  · obtain wisp | ⟨issue, _⟩ := (mem_searchIssues.mp found).2
    · rwa [plane_of_row wisp]
    · rwa [plane_of_row issue]

end

theorem candidates_nodup : ((store.candidates host req).map fun item => item.ref.id).Nodup := by
  rw [candidates, sweepCandidates, filterSweepCandidates_eq]
  refine List.Nodup.sublist (filter_sublist.map _) ?_
  split
  · refine ((host.orderBy_perm _).map _).nodup_iff.mpr ?_
    exact (store.ids_nodup .wisp).sublist (filter_sublist.map _)
  · exact searchIssues_nodup _

theorem candidate_unique (member : item ∈ store.candidates host req) (listed : other ∈ store.candidates host req)
    (same : item.ref.id = other.ref.id) : item = other :=
  inj_on_of_nodup_map candidates_nodup member listed same

def unprotected (host : SweepHost) (store : SweepStore) (req : SweepRequest) : List SweepItem :=
  (store.keepUncited host req (store.keepUnneeded host req (store.candidates host req)).1).1

theorem keepUnneeded_sublist (kept : List SweepItem) : (store.keepUnneeded host req kept).1.Sublist kept := by
  rw [keepUnneeded]
  split
  · exact filter_sublist
  · exact List.Sublist.refl _

theorem keepUncited_sublist (kept : List SweepItem) : (store.keepUncited host req kept).1.Sublist kept := by
  rw [keepUncited]
  split
  · exact filter_sublist
  · exact List.Sublist.refl _

theorem unprotected_sublist : (store.unprotected host req).Sublist (store.candidates host req) :=
  (keepUncited_sublist _).trans (keepUnneeded_sublist _)

def closedKey (item : SweepItem) : Int ×ₗ List Char :=
  toLex (item.columns.closedAt.getD 0, item.ref.id.toList)

def ClosedOrder (one other : SweepItem) : Prop := closedKey one ≤ closedKey other

instance : DecidableRel ClosedOrder := fun one other => inferInstanceAs (Decidable (closedKey one ≤ closedKey other))

instance : Std.Total ClosedOrder := ⟨fun one other => le_total (closedKey one) (closedKey other)⟩

instance : IsTrans SweepItem ClosedOrder := ⟨fun _ _ _ first second => le_trans first second⟩

theorem closedBeforeItem_iff (one : Sweepable host req item) (two : Sweepable host req other) :
    closedBeforeItem item other = true ↔ ¬ ClosedOrder other item := by
  obtain ⟨closedAt, stamped, _⟩ := one.timely
  obtain ⟨otherClosedAt, otherStamped, _⟩ := two.timely
  rw [ClosedOrder, not_le, closedKey, closedKey, Prod.Lex.toLex_lt_toLex, closedBeforeItem, stamped, otherStamped]
  by_cases same : closedAt = otherClosedAt <;> simp [same]

theorem closedOrder_separated : Separated ClosedOrder (store.candidates host req) := by
  intro one here two there below above
  have keys : closedKey one = closedKey two := le_antisymm below above
  have ids : one.ref.id.toList = two.ref.id.toList := congrArg (fun key => (ofLex key).2) keys
  exact candidate_unique here there (String.toList_inj.mp ids)

theorem mem_limitSweepCandidates {kept : List SweepItem}
    (within : kept ⊆ store.candidates host req) : item ∈ (limitSweepCandidates kept req.limit).1 ↔
      item ∈ kept ∧ (req.limit ≤ 0 ∨ (before ClosedOrder item kept : Int) < req.limit) := by
  have candidate : ∀ {item}, item ∈ kept → Sweepable host req item :=
    fun member => sweepable_of_candidate (within member)
  rw [limitSweepCandidates]
  split
  · rename_i all
    refine (and_iff_left_of_imp fun member => ?_).symm
    obtain unlimited | few := all
    · exact .inl unlimited
    · -- The row itself is not before itself, so fewer rows than there are come before it.
      have fewer : before ClosedOrder item kept < kept.length :=
        countP_lt_length_iff.mpr ⟨item, member, by simp [ClosedOrder]⟩
      exact .inr (by omega)
  · rename_i bounded
    have positive : ¬ req.limit ≤ 0 := fun low => bounded (.inl low)
    have sorted : kept.insertionSort (fun one other => closedBeforeItem other one = false) =
        kept.insertionSort ClosedOrder := by
      refine sort_congr fun one here two there => ?_
      rw [← Bool.not_eq_true, closedBeforeItem_iff (candidate there) (candidate here), not_not]
    rw [sorted, mem_take_sort_iff (closedOrder_separated.subset within), or_iff_right positive]
    refine and_congr_right fun _ => ?_
    omega

def chosen (host : SweepHost) (store : SweepStore) (req : SweepRequest) : List SweepItem :=
  (limitSweepCandidates (store.unprotected host req) req.limit).1

theorem candidate_of_chosen (member : item ∈ store.chosen host req) :
    item ∈ store.candidates host req :=
  unprotected_sublist.subset ((mem_limitSweepCandidates unprotected_sublist.subset).mp member).1

def Deleted (store after : SweepStore) (ref : ItemRef) : Prop :=
  store.stored ref = true ∧ after.stored ref = false

def routed (store : SweepStore) (id : Id) : ItemRef := if store.stored ⟨.wisp, id⟩ then ⟨.wisp, id⟩ else ⟨.issue, id⟩

theorem id_routed : (store.routed id).id = id := by
  rw [routed]
  split <;> rfl

theorem routed_of_row (member : item ∈ store.rows .wisp) : store.routed item.ref.id = item.ref := by
  have wisp := plane_of_row member
  have present := stored_of_row member
  obtain ⟨⟨plane, id⟩, _, _⟩ := item
  obtain rfl : plane = .wisp := wisp
  exact if_pos present

theorem ref_unique {otherPlane : Plane} (member : item ∈ store.rows plane)
    (listed : other ∈ store.rows otherPlane) (same : item.ref = other.ref) : item = other := by
  rw [← plane_of_row member] at member
  rw [← plane_of_row listed, ← same] at listed
  exact row_unique member listed (congrArg ItemRef.id same)

theorem routed_cases (member : item ∈ store.rows item.ref.plane) : store.routed item.ref.id = item.ref ∨
    item.ref.plane = .issue ∧ ∃ twin ∈ store.rows .wisp, twin.ref.id = item.ref.id ∧ store.routed item.ref.id = twin.ref := by
  cases here : item.ref.plane with
  | wisp => exact .inl (routed_of_row (here ▸ member))
  | issue =>
    by_cases present : store.stored ⟨.wisp, item.ref.id⟩ = true
    · obtain ⟨twin, wisp, same⟩ := exists_twin present
      exact .inr ⟨rfl, twin, wisp, same, same ▸ routed_of_row wisp⟩
    · refine .inl ?_
      rw [routed, if_neg present, ← here]

theorem stored_routed (present : store.stored ref = true) : store.stored (store.routed ref.id) = true := by
  rw [routed]
  split
  · assumption
  · rename_i alone
    obtain ⟨plane, id⟩ := ref
    cases plane with
    | issue => exact present
    | wisp => exact absurd present alone

theorem tables_deleteResolvedSet {regularIds wispIds : List Id}
    (removed : store.deleteResolvedSet session regularIds wispIds = some after) :
    after.toTables = store.deleteItems regularIds wispIds := by
  obtain ⟨left, deleted, rfl⟩ := Option.map_eq_some_iff.mp removed
  obtain ⟨bits, _, rfl⟩ := Option.map_eq_some_iff.mp deleted
  rfl

theorem mem_deletedSet_partition {ids : List Id} :
    ref ∈ deletedSet (store.partitionWispIds ids).2 (store.partitionWispIds ids).1 ↔ ref.id ∈ ids ∧
      ref = store.routed ref.id := by
  rw [← isDeleted_iff, isDeleted, partitionWispIds, routed]
  obtain ⟨plane, id⟩ := ref
  cases plane <;> cases wisp : store.stored ⟨.wisp, id⟩ <;> simp [idsOf, wisp]

theorem deleteIssues_deleted {ids : List Id} {dryRun : Bool} {counts : SweepResult}
    (ran : store.deleteIssues session ids dryRun counts = some (after, result))
    (known : ∀ id ∈ ids, store.stored (store.routed id) = true) :
    store.Deleted after ref ↔ dryRun = false ∧ ref.id ∈ ids ∧ ref = store.routed ref.id := by
  simp only [deleteIssues] at ran
  split at ran
  · rename_i dry
    obtain ⟨rfl, _⟩ := Prod.mk.inj (Option.some.inj ran)
    simp [Deleted, dry]
  · rename_i real
    obtain ⟨remaining, removed, same⟩ := Option.map_eq_some_iff.mp ran
    obtain ⟨rfl, _⟩ := Prod.mk.inj same
    rw [Deleted, tables_deleteResolvedSet removed, and_iff_right (Bool.eq_false_iff.mpr real), ← mem_deletedSet_partition]
    constructor
    · intro ⟨present, gone⟩
      by_contra survives
      rw [stored_deleteItems survives, present] at gone
      exact nomatch gone
    · intro gone
      obtain ⟨named, here⟩ := mem_deletedSet_partition.mp gone
      refine ⟨here ▸ known ref.id named, Bool.eq_false_iff.mpr fun present => ?_⟩
      exact survives_of_stored present gone

theorem sweep_deleted (swept : store.sweep host session req = some (after, result)) :
    store.Deleted after ref ↔
      req.dryRun = false ∧ ∃ item ∈ store.chosen host req, ref = store.routed item.ref.id := by
  simp only [sweep] at swept
  change (if (store.chosen host req).isEmpty then _ else
    store.deleteIssues session ((store.chosen host req).map _) _ _) = _ at swept
  split at swept
  · rename_i none
    obtain ⟨rfl, _⟩ := Prod.mk.inj (Option.some.inj swept)
    rw [isEmpty_iff.mp none]
    simp [Deleted]
  · rw [deleteIssues_deleted swept]
    · refine and_congr_right fun _ => ?_
      constructor
      · intro ⟨named, here⟩
        obtain ⟨item, member, same⟩ := mem_map.mp named
        exact ⟨item, member, same ▸ here⟩
      · rintro ⟨item, member, rfl⟩
        rw [id_routed]
        exact ⟨mem_map.mpr ⟨item, member, rfl⟩, rfl⟩
    · intro id named
      obtain ⟨item, member, rfl⟩ := mem_map.mp named
      exact stored_routed (stored_of_row (row_of_candidate (candidate_of_chosen member)))

end SweepStore

end Beads
