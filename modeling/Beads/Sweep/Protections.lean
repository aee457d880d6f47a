import Beads.Sweep.Safety

/-! A row that is not done protects the candidates it reaches over structural edges, candidates in
between included, and the candidates that its texts cite. -/

namespace Beads

open SortedPages List

namespace SweepStore

variable {host : SweepHost} {req : SweepRequest} {item other : SweepItem} {store after : SweepStore} {session : Session}
  {result : SweepResult} {id source target : Id} {kept : List SweepItem} {text : List UInt8}

section

variable (store : SweepStore)

def NotDone (id : Id) : Prop :=
  ∃ plane, ∃ item ∈ store.rows plane, item.ref.id = id ∧ store.isNotDone item.status = true

def Protecting (source target : Id) : Prop :=
  ∃ plane, ∃ dep ∈ store.dependencies plane, isSweepProtectingEdge dep.type = true ∧ dep.key = (source, target)

/-- An edge that is not hidden behind a durable edge of the same ends, of whatever type. -/
def Visible (source target : Id) : Prop :=
  ∃ plane, ∃ dep ∈ store.dependencies plane, isSweepProtectingEdge dep.type = true ∧ dep.key = (source, target) ∧
    (plane = .wisp → ∀ durable ∈ store.dependencies .issue, durable.key ≠ dep.key)

def Needed (edge : Id → Id → Prop) (candidates : List SweepItem) (id : Id) : Prop :=
  ∃ origin, store.NotDone origin ∧
    Relation.TransGen (fun source target => edge source target ∧ target ∈ candidates.map fun item => item.ref.id) origin id

end

theorem Visible.protecting (visible : store.Visible source target) : store.Protecting source target := by
  obtain ⟨plane, dep, listed, type, ends, _⟩ := visible
  exact ⟨plane, dep, listed, type, ends⟩

theorem Needed.mono {edge wider : Id → Id → Prop} (within : ∀ source target, edge source target → wider source target)
    (needed : store.Needed edge kept id) : store.Needed wider kept id := by
  obtain ⟨origin, live, path⟩ := needed
  exact ⟨origin, live, Relation.TransGen.mono (fun source target step => ⟨within source target step.1, step.2⟩) _ _ path⟩

theorem Needed.step {edge : Id → Id → Prop} (reached : store.NotDone source ∨
    store.Needed edge kept source) (along : edge source target)
    (listed : target ∈ kept.map fun item => item.ref.id) : store.Needed edge kept target := by
  obtain live | ⟨origin, live, path⟩ := reached
  · exact ⟨source, live, .single ⟨along, listed⟩⟩
  · exact ⟨origin, live, path.tail ⟨along, listed⟩⟩

theorem Needed.listed {edge : Id → Id → Prop} (needed : store.Needed edge kept id) :
    id ∈ kept.map fun item => item.ref.id := by
  obtain ⟨origin, _, path⟩ := needed
  obtain ⟨middle, _, last⟩ := Relation.TransGen.tail'_iff.mp path
  exact last.2

theorem mem_getDependentRecords {ids : List Id} {dep : Dependency} : dep ∈ store.getDependentRecordsForIssues ids ↔
    dep.target.id ∈ ids ∧ ∃ plane, dep ∈ store.dependencies plane ∧
      (plane = .wisp → ∀ durable ∈ store.dependencies .issue, durable.key ≠ dep.key) := by
  rw [getDependentRecordsForIssues, mem_append, mem_filter, mem_filter, Bool.and_eq_true, contains_iff_mem]
  simp only [Bool.not_eq_true', any_eq_false, mem_filter, contains_iff_mem, beq_iff_eq, and_imp]
  constructor
  · rintro (⟨listed, named⟩ | ⟨listed, named, alone⟩)
    · exact ⟨named, .issue, listed, fun wisp => nomatch wisp⟩
    · refine ⟨named, .wisp, listed, fun _ durable stored same => alone durable stored ?_ same⟩
      have ends : durable.target.id = dep.target.id := congrArg Prod.snd same
      rwa [ends]
  · rintro ⟨named, plane, listed, alone⟩
    cases plane with
    | issue => exact .inl ⟨listed, named⟩
    | wisp => exact .inr ⟨listed, named, fun durable stored _ => alone rfl durable stored⟩

theorem step_targetsBySource {ids : List Id} : RecursiveUnion.Step (targetsBySource (store.getDependentRecordsForIssues ids)) =
    fun source target => store.Visible source target ∧ target ∈ ids := by
  funext source target
  rw [RecursiveUnion.Step, targetsBySource, mem_map, eq_iff_iff]
  simp only [mem_filter, Bool.and_eq_true, beq_iff_eq, mem_getDependentRecords]
  constructor
  · rintro ⟨dep, ⟨⟨named, plane, listed, alone⟩, type, rfl⟩, rfl⟩
    exact ⟨⟨plane, dep, listed, type, rfl, alone⟩, named⟩
  · rintro ⟨⟨plane, dep, listed, type, ends, alone⟩, named⟩
    cases ends
    exact ⟨dep, ⟨⟨named, plane, listed, alone⟩, type, rfl⟩, rfl⟩

theorem mem_sources {incoming : List Dependency} : source ∈ sweepLiveDependentSources incoming ↔
    ∃ target, RecursiveUnion.Step (targetsBySource incoming) source target := by
  rw [sweepLiveDependentSources, (perm_insertionSort _ _).mem_iff, mem_eraseDups, mem_map]
  simp only [mem_filter, RecursiveUnion.Step, targetsBySource, mem_map, Bool.and_eq_true, beq_iff_eq]
  constructor
  · rintro ⟨dep, ⟨listed, type⟩, rfl⟩
    exact ⟨dep.target.id, dep, ⟨listed, type, rfl⟩, rfl⟩
  · rintro ⟨_, dep, ⟨listed, type, rfl⟩, _⟩
    exact ⟨dep, ⟨listed, type⟩, rfl⟩

theorem mem_live {sources : List Id} :
    id ∈ (store.searchIssues host fun item => sources.contains item.ref.id &&
      store.isNotDone item.status).map (fun issue => issue.ref.id) ↔
      id ∈ sources ∧ store.NotDone id := by
  rw [mem_map]
  simp only [mem_searchIssues, Bool.and_eq_true, contains_iff_mem]
  constructor
  · rintro ⟨issue, ⟨⟨asked, live⟩, wisp | ⟨row, _⟩⟩, rfl⟩
    · exact ⟨asked, .wisp, issue, wisp, rfl, live⟩
    · exact ⟨asked, .issue, issue, row, rfl, live⟩
  · rintro ⟨asked, plane, row, listed, rfl, live⟩
    cases plane with
    | wisp => exact ⟨row, ⟨⟨asked, live⟩, .inl listed⟩, rfl⟩
    | issue =>
      -- A wisp of the id that is live too stands for it.
      by_cases alone : ∀ twin ∈ store.rows .wisp, twin.ref.id = row.ref.id →
          (sources.contains twin.ref.id && store.isNotDone twin.status) = false
      · exact ⟨row, ⟨⟨asked, live⟩, .inr ⟨listed, alone⟩⟩, rfl⟩
      · push Not at alone
        obtain ⟨twin, wisp, same, passes⟩ := alone
        rw [ne_eq, Bool.not_eq_false, Bool.and_eq_true, contains_iff_mem] at passes
        exact ⟨twin, ⟨passes, .inl wisp⟩, same⟩

theorem mem_sweepLiveDependents : id ∈ store.sweepLiveDependents host kept ↔ store.Needed store.Visible kept id := by
  rw [sweepLiveDependents, Needed, ← step_targetsBySource]
  generalize store.getDependentRecordsForIssues (kept.map fun item => item.ref.id) = incoming
  have asked : ∀ {origin}, Relation.TransGen (RecursiveUnion.Step (targetsBySource incoming)) origin id →
      origin ∈ sweepLiveDependentSources incoming := by
    intro origin path
    obtain ⟨middle, first, _⟩ := Relation.TransGen.head'_iff.mp path
    exact mem_sources.mpr ⟨middle, first⟩
  split
  · rename_i none
    refine iff_of_false not_mem_nil fun ⟨origin, _, path⟩ => ?_
    have listed := asked path
    rw [isEmpty_iff.mp none] at listed
    exact nomatch listed
  · have bounded : ∀ node, ∀ other ∈ targetsBySource incoming node, other ∈ incoming.map fun dep => dep.target.id :=
      fun _ _ member => map_subset _ (filter_subset_self _) member
    rw [sweepLiveDependentTargets, Worklist.mem_drain bounded (forall_mem_nil _) (by rw [length_map, length_map])]
    simp only [not_mem_nil, false_or, mem_live]
    constructor
    · rintro ⟨origin, ⟨_, live⟩, path⟩
      exact ⟨origin, live, path⟩
    · rintro ⟨origin, live, path⟩
      exact ⟨origin, ⟨asked path, live⟩, path⟩

def texts (store : SweepStore) (item : SweepItem) : List String :=
  item.columns.description :: item.columns.notes :: store.comments item.ref

def LiveText (store : SweepStore) (text : String) : Prop :=
  ∃ plane, ∃ row ∈ store.rows plane, store.isNotDone row.status = true ∧ text ∈ store.texts row

/-- The scan passes over an issue if a wisp of its id is not done either, and reads the comments of
a wisp of the id, done or not, for those of the issue. -/
def ReadText (store : SweepStore) (text : String) : Prop :=
  ∃ row, (store.isNotDone row.status = true ∧ (row ∈ store.rows .wisp ∨ row ∈ store.rows .issue ∧
      ∀ twin ∈ store.rows .wisp, twin.ref.id = row.ref.id → store.isNotDone twin.status = false)) ∧
    text ∈ row.columns.description :: row.columns.notes :: store.comments (store.routed row.ref.id)

/-- Wherever the text spells the id at word boundaries, it spells a longer id of a rival. -/
def Outspelled (rival : SweepItem → Prop) (text : String) (id : Id) : Prop :=
  ∀ i, OccursAt (bytesOf text) i id → ∃ other, rival other ∧
    OccursAt (bytesOf text) i other.ref.id ∧ (bytesOf id).length < (bytesOf other.ref.id).length

variable {text : String}

theorem Outspelled.mono {rival wider : SweepItem → Prop} (within : ∀ other, rival other → wider other)
    (outspelled : Outspelled rival text id) : Outspelled wider text id := by
  intro i occurs
  obtain ⟨other, listed, longer⟩ := outspelled i occurs
  exact ⟨other, within other listed, longer⟩

theorem not_found_iff (listed : id ∈ kept.map fun item => item.ref.id) :
    id ∉ findAll (newCandidateIdMatcher (kept.map fun item => item.ref.id)) (bytesOf text) ↔
      Outspelled (· ∈ kept) text id := by
  rw [mem_findAll, and_iff_right listed, not_exists]
  refine forall_congr' fun i => ?_
  simp only [not_and, forall_mem_map, not_forall, not_le, exists_prop]

theorem getCommentsForIssue_eq : store.getCommentsForIssue id = store.comments (store.routed id) := by
  rw [getCommentsForIssue, routed]
  split <;> rfl

theorem mem_sweepReferenced : id ∈ store.sweepReferenced host kept ↔ ∃ text, store.ReadText text ∧
    id ∈ findAll (newCandidateIdMatcher (kept.map fun item => item.ref.id)) (bytesOf text) := by
  simp only [sweepReferenced, mem_flatMap, mem_searchIssues, getCommentsForIssue_eq, ReadText]
  constructor
  · rintro ⟨row, scanned, text, read, found⟩
    exact ⟨text, ⟨row, scanned, read⟩, found⟩
  · rintro ⟨text, ⟨row, scanned, read⟩, found⟩
    exact ⟨row, scanned, text, read, found⟩

section

variable (host store req)

def Unneeded (item : SweepItem) : Prop :=
  item ∈ store.candidates host req ∧ (req.protectLiveDependents = true →
    ¬ store.Needed store.Protecting (store.candidates host req) item.ref.id)

/-- No live row needs the candidate, and no text that counts cites it. -/
def Unprotected (counts : String → Prop) (item : SweepItem) : Prop :=
  store.Unneeded host req item ∧ (req.protectReferenced = true →
    ∀ text, counts text → Outspelled (store.Unneeded host req) text item.ref.id)

open Classical in
/-- The number of unprotected candidates that were closed earlier or, at the same time, have a
smaller id. -/
noncomputable def older (counts : String → Prop) (item : SweepItem) : Nat :=
  before ClosedOrder item
    ((store.candidates host req).filter fun other => store.Unprotected host req counts other)

def Due (counts : String → Prop) (item : SweepItem) : Prop :=
  store.Unprotected host req counts item ∧
    (req.limit ≤ 0 ∨ (store.older host req counts item : Int) < req.limit)

structure SweepSafe (after : SweepStore) : Prop where
  /-- Every deleted row is closed, unpinned, matched by the pattern and closed before the cutoff. -/
  sweepable : ∀ plane, ∀ item ∈ store.rows plane, store.Deleted after item.ref → Sweepable host req item
  /-- A candidate is protected exactly if a row that is not done reaches it over candidates. -/
  guarded : req.protectLiveDependents = true → ∀ item ∈ store.candidates host req,
    (item.ref.id ∈ store.sweepLiveDependents host (store.candidates host req) ↔
      store.Needed store.Protecting (store.candidates host req) item.ref.id)
  unneeded : req.protectLiveDependents = true → ∀ ref, store.Deleted after ref →
    ¬ store.Needed store.Protecting (store.candidates host req) ref.id
  /-- No text of a row that is not done cites a deleted row, unless it spells a
  longer candidate there. -/
  uncited : req.protectReferenced = true → ∀ ref, store.Deleted after ref → ∀ text,
    store.LiveText text → Outspelled (· ∈ store.candidates host req) text ref.id
  oldest : req.dryRun = false → 0 < req.limit → ∀ ref, store.Deleted after ref ↔
    ∃ item, store.Due host req store.LiveText item ∧ item.ref = ref

/-- A wisp with the id of the issue may be deleted in its place, and there is no limit. -/
def Replaceable (item : SweepItem) : Prop :=
  item.ref.plane = .issue → ∀ twin ∈ store.rows .wisp, twin.ref.id = item.ref.id →
    req.limit ≤ 0 ∧ Sweepable host req twin

/-- The ids that are in both planes do no harm to the request. -/
structure Untangled : Prop where
  twins : req.dryRun = false → ∀ item, store.Due host req store.ReadText item →
    store.Replaceable host req item
  /-- An edge of a wisp that a durable edge of the same ends hides leads to a candidate that is
  protected without it. -/
  edges : req.protectLiveDependents = true → ∀ dep ∈ store.dependencies .wisp, isSweepProtectingEdge dep.type = true →
    (∃ durable ∈ store.dependencies .issue, durable.key = dep.key) →
    dep.target.id ∈ (store.candidates host req).map (fun item => item.ref.id) →
    store.NotDone dep.issueId ∨ store.Needed store.Visible (store.candidates host req) dep.issueId →
    store.Needed store.Visible (store.candidates host req) dep.target.id
  /-- Without a limit, a text that the scan does not read cites no row that is due. -/
  texts : req.protectReferenced = true → req.dryRun = false → req.limit ≤ 0 → ∀ item,
    store.Due host req store.ReadText item → ∀ text, store.LiveText text →
    Outspelled (· ∈ store.candidates host req) text item.ref.id
  /-- Under a limit, the texts read and the live texts disagree on no candidate within the limit. -/
  pages : req.dryRun = false → 0 < req.limit → ∀ item ∈ store.candidates host req,
    ¬ (store.Unprotected host req store.ReadText item ↔ store.Unprotected host req store.LiveText item) →
    req.limit ≤ store.older host req store.LiveText item

end

theorem needed_visible_iff (edges : ∀ dep ∈ store.dependencies .wisp, isSweepProtectingEdge dep.type = true →
      (∃ durable ∈ store.dependencies .issue, durable.key = dep.key) → dep.target.id ∈ kept.map (fun item => item.ref.id) →
      store.NotDone dep.issueId ∨ store.Needed store.Visible kept dep.issueId → store.Needed store.Visible kept dep.target.id) :
    store.Needed store.Visible kept id ↔ store.Needed store.Protecting kept id := by
  refine ⟨Needed.mono fun _ _ => Visible.protecting, ?_⟩
  rintro ⟨origin, live, path⟩
  have along : ∀ {source target}, store.NotDone source ∨ store.Needed store.Visible kept source →
    store.Protecting source target →
      target ∈ kept.map (fun item => item.ref.id) → store.Needed store.Visible kept target := by
    intro source target reached edge listed
    obtain ⟨plane, dep, stored, type, ends⟩ := edge
    by_cases visible : plane = .wisp → ∀ durable ∈ store.dependencies .issue, durable.key ≠ dep.key
    · exact .step reached ⟨plane, dep, stored, type, ends, visible⟩ listed
    · push Not at visible
      obtain ⟨rfl, hidden⟩ := visible
      cases ends
      exact edges dep stored type hidden listed reached
  induction path with
  | single step => exact along (.inl live) step.1 step.2
  | tail _ step ih => exact along (.inr ih) step.1 step.2

theorem Due.candidate {counts : String → Prop} (due : store.Due host req counts item) :
    item ∈ store.candidates host req :=
  due.1.1.1

theorem routed_of_replaceable (member : item ∈ store.candidates host req) (limited : 0 < req.limit)
    (replaceable : store.Replaceable host req item) : store.routed item.ref.id = item.ref :=
  (routed_cases (row_of_candidate member)).resolve_right fun ⟨issue, twin, wisp, same, _⟩ =>
    not_lt.mpr (replaceable issue twin wisp same).1 limited

section

variable (guards : req.protectLiveDependents = true → ∀ id,
  (store.Needed store.Visible (store.candidates host req) id ↔
    store.Needed store.Protecting (store.candidates host req) id))
include guards

theorem mem_keepUnneeded : item ∈ (store.keepUnneeded host req (store.candidates host req)).1 ↔
    store.Unneeded host req item := by
  rw [keepUnneeded, Unneeded]
  split
  · rename_i asked
    simp [partitionSweepLiveDependents, mem_sweepLiveDependents, guards asked, asked]
  · rename_i unasked
    simp [unasked]

theorem mem_unprotected : item ∈ store.unprotected host req ↔ store.Unprotected host req store.ReadText item := by
  have unneeded : (· ∈ (store.keepUnneeded host req (store.candidates host req)).1) = store.Unneeded host req :=
    funext fun _ => propext (mem_keepUnneeded guards)
  rw [unprotected, keepUncited, Unprotected, ← unneeded]
  split
  · rename_i asked
    rw [partitionSweepReferenced, mem_filter, forall_prop_of_true asked]
    refine and_congr_right fun kept => ?_
    rw [Bool.not_eq_true', Bool.eq_false_iff, ne_eq, contains_iff_mem, mem_sweepReferenced]
    simp only [not_exists, not_and]
    exact forall₂_congr fun text _ => not_found_iff (mem_map_of_mem kept)
  · rename_i unasked
    simp [unasked]

theorem mem_chosen : item ∈ store.chosen host req ↔ store.Due host req store.ReadText item := by
  classical
  have same : (store.unprotected host req).Perm
      ((store.candidates host req).filter fun other => store.Unprotected host req store.ReadText other) := by
    have distinct : (store.candidates host req).Nodup := Nodup.of_map _ candidates_nodup
    refine (perm_ext_iff_of_nodup (distinct.sublist unprotected_sublist) (distinct.filter _)).mpr fun other => ?_
    rw [mem_unprotected guards, mem_filter, decide_eq_true_eq]
    exact (and_iff_right_of_imp fun free => free.1.1).symm
  rw [chosen, mem_limitSweepCandidates unprotected_sublist.subset, mem_unprotected guards, before_perm same, Due, older]

end

/-- Under a limit, the rows due by two accounts of the texts are the same exactly if the accounts
agree within it. -/
theorem due_congr_iff {counts others : String → Prop} (limited : 0 < req.limit) :
    (∀ item, store.Due host req counts item ↔ store.Due host req others item) ↔
      ∀ item ∈ store.candidates host req,
        ¬ (store.Unprotected host req counts item ↔ store.Unprotected host req others item) →
        req.limit ≤ store.older host req others item := by
  classical
  have separated : Separated ClosedOrder (store.candidates host req) := closedOrder_separated
  have distinct : (store.candidates host req).Nodup := Nodup.of_map _ candidates_nodup
  have positive : req.limit.toNat ≠ 0 := by omega
  have due (counts : String → Prop) (item : SweepItem) : store.Due host req counts item ↔
      item ∈ page ClosedOrder req.limit.toNat
        ((store.candidates host req).filter fun other => store.Unprotected host req counts other) := by
    rw [page, if_neg positive, mem_take_sort_iff (separated.subset (filter_subset_self _)),
      mem_filter, decide_eq_true_eq, Due, or_iff_right (by omega), older, Int.lt_toNat]
    exact and_congr_left fun _ => (and_iff_right_of_imp fun free => free.1.1).symm
  simp only [due]
  rw [← page_eq_iff_mem separated distinct, page_filter_eq_iff separated]
  refine forall₂_congr fun item _ => ?_
  rw [and_iff_right positive, ne_eq, decide_eq_decide, older, Int.toNat_le]

section
variable (swept : store.sweep host session req = some (after, result))
include swept

theorem untangled_of_safe (safe : store.SweepSafe host req after) : store.Untangled host req := by
  have guards : req.protectLiveDependents = true → ∀ id,
      (store.Needed store.Visible (store.candidates host req) id ↔
        store.Needed store.Protecting (store.candidates host req) id) := by
    refine fun asked id => ⟨Needed.mono fun _ _ => Visible.protecting, fun needed => ?_⟩
    obtain ⟨item, member, rfl⟩ := mem_map.mp needed.listed
    exact mem_sweepLiveDependents.mp ((safe.guarded asked item member).mpr needed)
  have chosen {item : SweepItem} : item ∈ store.chosen host req ↔ store.Due host req store.ReadText item :=
    mem_chosen guards
  have twins (real : req.dryRun = false) (issue : SweepItem) (due : store.Due host req store.ReadText issue) :
      store.Replaceable host req issue := by
    intro plane twin wisp same
    have gone : store.Deleted after twin.ref :=
      (sweep_deleted swept).mpr ⟨real, issue, chosen.mpr due, by rw [← same, routed_of_row wisp]⟩
    refine ⟨?_, safe.sweepable .wisp twin wisp gone⟩
    by_contra limited
    obtain ⟨other, also, there⟩ := (safe.oldest real (by omega) twin.ref).mp gone
    have one := candidate_unique due.candidate also.candidate (same.symm.trans (congrArg ItemRef.id there).symm)
    rw [← one] at there
    exact nomatch plane.symm.trans ((congrArg ItemRef.plane there).trans (plane_of_row wisp))
  refine ⟨twins, ?_, ?_, ?_⟩
  · intro asked dep stored type _ listed reached
    have edge : store.Protecting dep.issueId dep.target.id := ⟨.wisp, dep, stored, type, rfl⟩
    rw [guards asked] at reached ⊢
    exact .step reached edge listed
  · intro asked real _ item due text live
    have gone := (sweep_deleted swept).mpr ⟨real, item, chosen.mpr due, rfl⟩
    have outspelled := safe.uncited asked _ gone text live
    rwa [id_routed] at outspelled
  · intro real limited
    refine (due_congr_iff limited).mp fun item => ?_
    have own {item : SweepItem} (due : store.Due host req store.ReadText item) : store.routed item.ref.id = item.ref :=
      routed_of_replaceable due.candidate limited (twins real item due)
    constructor
    · intro due
      have gone := (sweep_deleted swept).mpr ⟨real, item, chosen.mpr due, (own due).symm⟩
      obtain ⟨other, also, same⟩ := (safe.oldest real limited item.ref).mp gone
      rwa [← candidate_unique also.candidate due.candidate (congrArg ItemRef.id same)]
    · intro due
      have gone := (safe.oldest real limited item.ref).mpr ⟨item, due, rfl⟩
      obtain ⟨_, other, member, same⟩ := (sweep_deleted swept).mp gone
      have also := chosen.mp member
      rw [own also] at same
      rwa [candidate_unique due.candidate also.candidate (congrArg ItemRef.id same)]

theorem safe_of_untangled (untangled : store.Untangled host req) : store.SweepSafe host req after := by
  have chosen {item : SweepItem} : item ∈ store.chosen host req ↔ store.Due host req store.ReadText item :=
    mem_chosen fun asked id => needed_visible_iff (untangled.edges asked)
  have due_of_deleted {ref : ItemRef} (gone : store.Deleted after ref) :
      req.dryRun = false ∧ ∃ item, store.Due host req store.ReadText item ∧ ref = store.routed item.ref.id := by
    obtain ⟨real, item, member, there⟩ := (sweep_deleted swept).mp gone
    exact ⟨real, item, chosen.mp member, there⟩
  refine ⟨?_, ?_, ?_, ?_, ?_⟩
  · intro plane row listed gone
    obtain ⟨real, item, due, there⟩ := due_of_deleted gone
    have own := row_of_candidate due.candidate
    obtain itself | ⟨issue, twin, wisp, same, instead⟩ := routed_cases own
    · rw [ref_unique listed own (there.trans itself)]
      exact sweepable_of_candidate due.candidate
    · -- The row goes in place of an issue of its id.
      rw [ref_unique listed wisp (there.trans instead)]
      exact (untangled.twins real item due issue twin wisp same).2
  · intro asked item _
    rw [mem_sweepLiveDependents]
    exact needed_visible_iff (untangled.edges asked)
  · intro asked ref gone
    obtain ⟨_, item, due, rfl⟩ := due_of_deleted gone
    rw [id_routed]
    exact due.1.1.2 asked
  · intro asked ref gone text live
    obtain ⟨real, item, due, rfl⟩ := due_of_deleted gone
    rw [id_routed]
    by_cases unlimited : req.limit ≤ 0
    · exact untangled.texts asked real unlimited item due text live
    · have also := ((due_congr_iff (by omega)).mpr (untangled.pages real (by omega)) item).mp due
      exact (also.1.2 asked text live).mono fun _ free => free.1
  · intro real limited ref
    rw [sweep_deleted swept, and_iff_right real]
    refine exists_congr fun item => ?_
    rw [chosen, (due_congr_iff limited).mpr (untangled.pages real limited) item]
    refine and_congr_right fun due => ?_
    have read := ((due_congr_iff limited).mpr (untangled.pages real limited) item).mpr due
    rw [routed_of_replaceable due.candidate limited (untangled.twins real item read)]
    exact eq_comm

end

/-- A sweep keeps its promises exactly when the ids that are in both planes do no harm. -/
theorem sweep_safe_iff (swept : store.sweep host session req = some (after, result)) :
    store.SweepSafe host req after ↔ store.Untangled host req :=
  ⟨untangled_of_safe swept, safe_of_untangled swept⟩

theorem sweep_returns (host : SweepHost) (store : SweepStore) (req : SweepRequest) (acyclic : store.ParentChildAcyclic)
    (createFastPathsDisabled : Bool) : ∃ passes, ∀ fuel, passes < fuel →
      ∃ outcome, store.sweep host ⟨fuel, createFastPathsDisabled⟩ req = some outcome := by
  let ids := (limitSweepCandidates (store.unprotected host req) req.limit).1.map fun issue => issue.ref.id
  obtain ⟨passes, returns⟩ := store.toStore.deleteAll_returns (store.partitionWispIds ids).2
    (store.partitionWispIds ids).1 acyclic createFastPathsDisabled
  refine ⟨passes, fun fuel enough => Option.isSome_iff_exists.mp ?_⟩
  obtain ⟨left, deleted⟩ := returns fuel enough
  simp only [sweep]
  split
  · rfl
  · simp only [deleteIssues]
    split
    · rfl
    · change ((store.toStore.deleteAll ⟨fuel, createFastPathsDisabled⟩ (store.partitionWispIds ids).2
        (store.partitionWispIds ids).1).map _ |>.map _).isSome = true
      rw [deleted]
      rfl

theorem routed_of_alone (listed : item ∈ store.rows .issue)
    (alone : ∀ twin ∈ store.rows .wisp, twin.ref.id ≠ item.ref.id) : store.routed item.ref.id = item.ref :=
  (routed_cases (plane_of_row listed ▸ listed)).resolve_right fun ⟨_, twin, wisp, same, _⟩ =>
    alone twin wisp same

theorem untangled_of_apart (apart : store.Apart)
    (sourced : ∀ plane, ∀ dep ∈ store.dependencies plane,
    store.stored ⟨plane, dep.issueId⟩ = true) :
    store.Untangled host req := by
  have alone : ∀ issue ∈ store.rows .issue, ∀ twin ∈ store.rows .wisp, twin.ref.id ≠ issue.ref.id := by
    intro issue listed twin wisp same
    have here := stored_of_row listed
    have there := stored_of_row wisp
    have refs := apart.eq_of_id there here same
    exact nomatch (plane_of_row wisp).symm.trans ((congrArg ItemRef.plane refs).trans (plane_of_row listed))
  have texts : store.ReadText = store.LiveText := by
    funext text
    refine propext ⟨?_, ?_⟩
    · rintro ⟨row, ⟨live, wisp | ⟨issue, _⟩⟩, member⟩
      · rw [routed_of_row wisp] at member
        exact ⟨.wisp, row, wisp, live, member⟩
      · rw [routed_of_alone issue (alone row issue)] at member
        exact ⟨.issue, row, issue, live, member⟩
    · rintro ⟨plane, row, listed, live, member⟩
      cases plane with
      | wisp => exact ⟨row, ⟨live, .inl listed⟩, by rwa [routed_of_row listed]⟩
      | issue =>
        refine ⟨row, ⟨live, .inr ⟨listed, fun twin wisp same => absurd same (alone row listed twin wisp)⟩⟩, ?_⟩
        rwa [routed_of_alone listed (alone row listed)]
  refine ⟨fun _ issue due plane twin wisp same => ?_, fun _ dep stored _ ⟨durable, listed, same⟩ => ?_,
    fun _ _ _ item due text live => ?_, fun _ _ item _ differs => absurd Iff.rfl (texts ▸ differs)⟩
  · exact absurd same (alone issue (plane ▸ row_of_candidate due.candidate) twin wisp)
  · have ends : durable.issueId = dep.issueId := congrArg Prod.fst same
    exact absurd ⟨ends ▸ sourced .issue durable listed, sourced .wisp dep stored⟩ (apart dep.issueId)
  · rw [← texts] at live
    exact (due.1.2 ‹_› text live).mono fun _ free => free.1

def plainHost : SweepHost where
  filepathMatch pattern name := some (pattern == name)
  orderBy items := items
  orderBy_perm _ := .refl _

def twinned : SweepStore where
  items
    | .issue => [⟨"bd-1", .closed⟩]
    | .wisp => [⟨"bd-1", .opened⟩]
  dependencies _ := []
  isBlocked _ := false
  columns
    | ⟨.issue, _⟩ => { closedAt := some 5 }
    | ⟨.wisp, _⟩ => {}

/-- A sweep of durable rows deletes the open wisp and leaves the issue it selected. -/
theorem twinned_sweep : validateSweepRequest plainHost { tier := .durable, idPattern := "bd-1" } = .ok () ∧
    ∃ after result, twinned.sweep plainHost ⟨1, false⟩ { tier := .durable, idPattern := "bd-1" } = some (after, result) ∧
      result.swept = 1 ∧ twinned.Deleted after ⟨.wisp, "bd-1"⟩ ∧ after.stored ⟨.issue, "bd-1"⟩ = true ∧
      ¬ twinned.SweepSafe plainHost { tier := .durable, idPattern := "bd-1" } after := by
  refine ⟨rfl, _, _, rfl, rfl, ⟨rfl, rfl⟩, rfl, fun safe => ?_⟩
  have closed := (safe.sweepable .wisp ⟨⟨.wisp, "bd-1"⟩, .opened, {}⟩ (by simp [rows, twinned]) ⟨rfl, rfl⟩).closed
  cases closed

/-- Three closed issues; the open wisp `bd-w` cites `bd-1` and waits for `bd-3`. -/
def cited : SweepStore where
  items
    | .issue => [⟨"bd-1", .closed⟩, ⟨"bd-2", .closed⟩, ⟨"bd-3", .closed⟩]
    | .wisp => [⟨"bd-w", .opened⟩]
  dependencies
    | .issue => []
    | .wisp => [⟨"bd-w", .item ⟨.issue, "bd-3"⟩, .blocks, {}, none⟩]
  isBlocked _ := false
  columns
    | ⟨.issue, "bd-1"⟩ => { closedAt := some 5 }
    | ⟨.issue, _⟩ => { closedAt := some 4 }
    | ⟨.wisp, _⟩ => { description := "see (bd-1)." }

/-- Two rows at most, closed before second nine, that no live row needs or cites. -/
def citedRequest : SweepRequest where
  tier := .durable
  closedBefore := some (9 * 10 ^ 9)
  protectReferenced := true
  protectLiveDependents := true
  limit := 2

theorem cited_sweep : ∃ after result, cited.sweep plainHost ⟨1, false⟩ citedRequest =
    some (after, result) ∧ ["bd-1", "bd-2", "bd-3"].map (fun id => after.stored ⟨.issue, id⟩) =
    [true, false, true] ∧ cited.SweepSafe plainHost citedRequest after := by
  have untangled : cited.Untangled plainHost citedRequest := by
    refine untangled_of_apart (fun id ⟨issue, wisp⟩ => ?_) (by decide)
    obtain ⟨_, listed, rfl⟩ := Tables.stored_iff.mp wisp
    obtain rfl := mem_singleton.mp listed
    exact absurd issue (by decide)
  have runs : (cited.sweep plainHost ⟨1, false⟩ citedRequest).isSome = true := by decide
  obtain ⟨⟨after, result⟩, ran⟩ := Option.isSome_iff_exists.mp runs
  have kept : (cited.sweep plainHost ⟨1, false⟩ citedRequest).all (fun outcome => decide
      (["bd-1", "bd-2", "bd-3"].map (fun id => outcome.1.stored ⟨.issue, id⟩) = [true, false, true])) = true := by
    decide
  rw [ran, Option.all_some, decide_eq_true_eq] at kept
  exact ⟨after, result, ran, kept, (sweep_safe_iff ran).mpr untangled⟩

theorem cited_returns : ∃ n, ∀ fuel, n < fuel → ∃ outcome, cited.sweep plainHost ⟨fuel, false⟩ citedRequest = some outcome :=
  sweep_returns _ _ _ (Tables.acyclic_of_ranked (fun _ => 0) (by decide)) _

end SweepStore

end Beads
