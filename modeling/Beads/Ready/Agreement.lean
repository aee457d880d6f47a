import Beads.Data.AssocList
import Beads.Ready.Work
import Beads.Recheck.Shrinking

namespace Beads

open SortedPages List

namespace ReadySnapshot

variable {snapshot : ReadySnapshot} {filter : WorkFilter} {item : ReadyItem} {policy : SortPolicy}

instance : Std.Total (snapshot.ReadyOrder policy) :=
  ⟨fun one other => le_total (snapshot.orderKey policy one) (snapshot.orderKey policy other)⟩

instance : IsTrans ReadyItem (snapshot.ReadyOrder policy) :=
  ⟨fun _ _ _ first second => le_trans first second⟩

variable {one other : ReadyItem} {plane : Plane}

theorem issueCreatedBefore_iff : issueCreatedBefore one other = true ↔
    one.columns.createdAt < other.columns.createdAt ∨
      one.columns.createdAt = other.columns.createdAt ∧ one.ref.id.toList < other.ref.id.toList := by
  rw [issueCreatedBefore]
  by_cases same : one.columns.createdAt = other.columns.createdAt
  · simp [same]
  · simp [same]

theorem issuePriorityBefore_iff : issuePriorityBefore one other = true ↔
    one.columns.priority < other.columns.priority ∨
      one.columns.priority = other.columns.priority ∧ issueCreatedBefore one other = true := by
  rw [issuePriorityBefore]
  by_cases same : one.columns.priority = other.columns.priority
  · simp [same]
  · simp [same]

theorem issueBefore_iff :
    snapshot.issueBefore policy one other = true ↔ snapshot.orderKey policy one < snapshot.orderKey policy other := by
  simp only [issueBefore, orderKey]
  cases policy with
  | oldest => simp [Prod.Lex.toLex_lt_toLex, issueCreatedBefore_iff]
  | priority | other => simp [Prod.Lex.toLex_lt_toLex, issuePriorityBefore_iff, issueCreatedBefore_iff]
  | hybrid =>
    have older : ∀ item : ReadyItem, (!decide (item.columns.createdAt < snapshot.recentCutoff)) =
        decide (snapshot.recentCutoff ≤ item.columns.createdAt) := by
      intro item
      rw [← decide_not, decide_eq_decide, not_lt]
    simp only [older]
    by_cases recent : snapshot.recentCutoff ≤ one.columns.createdAt <;>
      by_cases otherRecent : snapshot.recentCutoff ≤ other.columns.createdAt <;>
      by_cases same : one.columns.priority = other.columns.priority <;>
      simp [recent, otherRecent, same, Prod.Lex.toLex_lt_toLex, issueCreatedBefore_iff]

theorem sortReadyIssues_eq (policy : SortPolicy) (items : List ReadyItem) :
    snapshot.sortReadyIssues policy items = items.insertionSort (snapshot.ReadyOrder policy) := by
  have same : (fun one other => snapshot.issueBefore policy other one = false) = snapshot.ReadyOrder policy := by
    funext one other
    rw [← Bool.not_eq_true, issueBefore_iff, not_lt]
    rfl
  unfold sortReadyIssues
  congr!

section

variable (member : item ∈ snapshot.rows plane)
include member

theorem plane_of_mem : item.ref.plane = plane := by
  obtain ⟨row, _, rfl⟩ := mem_map.mp member
  rfl

theorem stored_of_mem : snapshot.toTables.stored item.ref = true := by
  obtain ⟨row, listed, rfl⟩ := mem_map.mp member
  exact Tables.stored_iff.mpr ⟨row, listed, rfl⟩

end

theorem rows_nodup (plane : Plane) : ((snapshot.rows plane).map fun item => item.ref.id).Nodup := by
  rw [rows, map_map]
  exact snapshot.itemsKeyed plane

theorem ne_of_planes (wisp : item ∈ snapshot.rows .wisp) (issue : other ∈ snapshot.rows .issue) : item ≠ other := by
  rintro rfl
  exact nomatch (plane_of_mem wisp).symm.trans (plane_of_mem issue)

abbrev readyPage (snapshot : ReadySnapshot) (filter : WorkFilter) : List ReadyItem → List ReadyItem :=
  page (snapshot.ReadyOrder filter.sortPolicy) filter.limit

def allRows (snapshot : ReadySnapshot) : List ReadyItem :=
  snapshot.rows .issue ++ snapshot.rows .wisp

theorem exists_plane (member : item ∈ snapshot.allRows) : ∃ plane, item ∈ snapshot.rows plane :=
  (mem_append.mp member).elim (fun issue => ⟨.issue, issue⟩) fun wisp => ⟨.wisp, wisp⟩

theorem allRows_nodup : snapshot.allRows.Nodup := by
  refine nodup_append.mpr ⟨(rows_nodup .issue).of_map, (rows_nodup .wisp).of_map, fun one issue other wisp => ?_⟩
  exact (ne_of_planes wisp issue).symm

theorem readyWispPages_eq (found : List ReadyItem) {fuel offset : Nat}
    (enough : found.length < offset + fuel) {ready : List ReadyItem}
    (collected : ready = ((found.take offset).filter (snapshot.filterReadyWisp filter)).take filter.limit) :
    snapshot.readyWispPages filter found fuel offset ready =
      (found.filter (snapshot.filterReadyWisp filter)).take filter.limit := by
  have size : 0 < readyWorkPageSize filter.limit := by
    rw [readyWorkPageSize]
    split <;> omega
  -- Once the offset has passed the end, everything was collected.
  have complete : ∀ {end' : Nat}, found.length ≤ end' →
      ((found.take end').filter (snapshot.filterReadyWisp filter)).take filter.limit =
        (found.filter (snapshot.filterReadyWisp filter)).take filter.limit := by
    intro end' past
    rw [take_of_length_le past]
  induction fuel generalizing offset ready with
  | zero =>
    rw [readyWispPages, collected]
    exact complete (Nat.le_of_lt enough)
  | succ fuel ih =>
    rw [readyWispPages]
    split
    · have next : (ready ++ ((found.drop offset).take (readyWorkPageSize filter.limit)).filter
            (snapshot.filterReadyWisp filter)).take filter.limit =
          ((found.take (offset + readyWorkPageSize filter.limit)).filter
            (snapshot.filterReadyWisp filter)).take filter.limit := by
        rw [take_add, filter_append, collected, take_take_append]
      dsimp only
      split
      · rename_i none
        rw [collected]
        refine complete ?_
        simp only [List.isEmpty_iff, List.take_eq_nil_iff, List.drop_eq_nil_iff] at none
        omega
      · split
        · rename_i short
          rw [next]
          refine complete ?_
          rw [length_take, length_drop] at short
          omega
        · exact ih (by omega) next
    · rename_i full
      rw [← take_append_drop offset found, filter_append, take_append_of_le_length, collected]
      rw [collected, length_take] at full
      omega

theorem readyWispPages_start (found : List ReadyItem) : snapshot.readyWispPages filter found (found.length + 1) 0 [] =
    (found.filter (snapshot.filterReadyWisp filter)).take filter.limit :=
  readyWispPages_eq found (by omega) (by simp)

section

variable (snapshot : ReadySnapshot)

variable (filter : WorkFilter)

variable (item : ReadyItem)

def wispReady : Bool :=
  snapshot.searchClauses (readyWorkWispIssueFilter filter) item && snapshot.filterReadyWisp filter item

def typeClause : Bool :=
  if filter.type ≠ "" then item.columns.issueType == filter.type
  else !(readyWorkExcludeTypes filter.excludeTypes).contains item.columns.issueType

def assigneeClause : Bool :=
  if filter.unassigned then item.columns.assignee == none || item.columns.assignee == some ""
  else filter.assignee.all fun assignee => item.columns.assignee == some assignee

def shared : Bool :=
  !item.columns.pinned && !item.isBlocked && (filter.includeEphemeral || !item.columns.ephemeral) &&
  filter.priority.all (· == item.columns.priority) && typeClause filter item && assigneeClause filter item &&
  (filter.includeDeferred || !snapshot.deferred item && !snapshot.getChildrenOfDeferredParents.contains item.ref.id) &&
  !filter.excludeLabels.any item.labels.contains &&
  (filter.moleculeId == "" || snapshot.childOf filter.moleculeId item) &&
  metadataClauses filter.hasMetadataKey filter.metadataFields item

def listedStatus : Bool :=
  if filter.statuses ≠ [] then filter.statuses.contains item.status else [Status.opened, .inProgress].contains item.status

/-- What the translation makes of the other members for a wisp: a status is taken as it is, the
molecule and the wisp type are asked for, empty labels are dropped next to others, and a child
without an edge is one by the start of its id. -/
def translated : Bool :=
  (match filter.status with
    | some status => item.status == status
    | none => listedStatus filter item) &&
  filter.molType.all (item.columns.molType == ·) && filter.wispType.all (item.columns.wispType == ·) &&
  (if (compactNonEmpty filter.labels).isEmpty && (compactNonEmpty filter.labelsAny).isEmpty
    then carriesLabels filter.labels filter.labelsAny item
    else carriesLabels (compactNonEmpty filter.labels) (compactNonEmpty filter.labelsAny) item) &&
  filter.parentId.all fun parentId =>
    (snapshot.getDescendantIds parentId).contains item.ref.id ||
      (parentId.toList ++ ['.']).isPrefixOf item.ref.id.toList &&
        !(snapshot.parentedIds .issue).contains item.ref.id && !(snapshot.parentedIds .wisp).contains item.ref.id

/-- What the predicate asks of a wisp in their place: open means every status of the active
category, the excluded ids and the label patterns hold, and a child without an edge is one by a
pattern. -/
def intended : Bool :=
  (match filter.status with
    | some .opened => item.status == .opened || snapshot.activeStatuses.contains item.status
    | some status => item.status == status
    | none => listedStatus filter item) &&
  !filter.excludeIds.contains item.ref.id && carriesLabels filter.labels filter.labelsAny item &&
  (filter.labelPattern == "" ||
    item.labels.any fun label => Text.likeEscape '|' (globToLikePattern filter.labelPattern) label.toList) &&
  (filter.labelRegex == "" || item.labels.any (snapshot.regexp filter.labelRegex)) &&
  filter.parentId.all fun parentId =>
    dottedUnder parentId item.ref.id && !(snapshot.parentedIds .wisp).contains item.ref.id ||
      (snapshot.getDescendantIds parentId).contains item.ref.id

end

theorem buildReadyWorkWhere_eq (wisp : item.ref.plane = .wisp) :
    snapshot.buildReadyWorkWhere filter item = (snapshot.shared filter item && snapshot.intended filter item) := by
  unfold buildReadyWorkWhere shared intended typeClause assigneeClause listedStatus
  rw [wisp]
  ac_rfl

theorem translatedStatus_eq : ((readyWorkWispIssueFilter filter).status.all (item.status == ·) &&
      ((readyWorkWispIssueFilter filter).statuses.isEmpty ||
    (readyWorkWispIssueFilter filter).statuses.contains item.status)) = match filter.status with
    | some status => item.status == status
    | none => listedStatus filter item := by
  simp only [readyWorkWispIssueFilter]
  cases filter.status with
  | some status => simp
  | none =>
    unfold listedStatus
    by_cases given : filter.statuses = []
    · simp [given]
    · simp [given]

theorem translatedType_eq : ((readyWorkWispIssueFilter filter).issueType.all (item.columns.issueType == ·) &&
      ((readyWorkWispIssueFilter filter).excludeTypes.isEmpty ||
        !(readyWorkWispIssueFilter filter).excludeTypes.contains item.columns.issueType)) = typeClause filter item := by
  unfold typeClause readyWorkWispIssueFilter
  by_cases given : filter.type = ""
  · simp [given, readyWorkExcludeTypes]
  · simp [given]

theorem translatedAssignee_eq :
    ((readyWorkWispIssueFilter filter).assignee.all (fun assignee => item.columns.assignee == some assignee) &&
      (!(readyWorkWispIssueFilter filter).noAssignee || (item.columns.assignee == none || item.columns.assignee == some ""))) =
    assigneeClause filter item := by
  unfold assigneeClause readyWorkWispIssueFilter
  cases filter.unassigned <;> simp

theorem translatedMolecule_eq : (readyWorkWispIssueFilter filter).parentId.all (fun parentId => snapshot.childOf parentId item) =
    (filter.moleculeId == "" || snapshot.childOf filter.moleculeId item) := by
  by_cases given : filter.moleculeId = "" <;> simp [readyWorkWispIssueFilter, given]

theorem translatedEphemeral_eq : (readyWorkWispIssueFilter filter).ephemeral.all (item.columns.ephemeral == ·) =
    (filter.includeEphemeral || !item.columns.ephemeral) := by
  cases given : filter.includeEphemeral <;> simp [readyWorkWispIssueFilter, given]

theorem translatedPinned_eq : (readyWorkWispIssueFilter filter).pinned.all (item.columns.pinned == ·) = !item.columns.pinned := by
  simp [readyWorkWispIssueFilter]

theorem searchClauses_eq (issueFilter : IssueFilter) : snapshot.searchClauses issueFilter item =
    (snapshot.rowClauses issueFilter item &&
      if (compactNonEmpty issueFilter.labels).isEmpty && (compactNonEmpty issueFilter.labelsAny).isEmpty
        then carriesLabels issueFilter.labels issueFilter.labelsAny item
        else carriesLabels (compactNonEmpty issueFilter.labels) (compactNonEmpty issueFilter.labelsAny) item) := by
  unfold searchClauses
  by_cases none : ((compactNonEmpty issueFilter.labels).isEmpty && (compactNonEmpty issueFilter.labelsAny).isEmpty) = true
  · simp only [if_pos none]
    rfl
  · simp only [if_neg none]
    rw [Bool.and_comm, buildIssueFilterClauses]
    have cleared : carriesLabels [] [] item = true := rfl
    rw [cleared, Bool.and_true]
    rfl

theorem wispReady_eq : snapshot.wispReady filter item = (snapshot.shared filter item && snapshot.translated filter item) := by
  rw [wispReady, searchClauses_eq, rowClauses, translatedStatus_eq, translatedType_eq,
    translatedAssignee_eq, translatedMolecule_eq, translatedEphemeral_eq, translatedPinned_eq]
  rw [Bool.eq_iff_iff]
  simp only [filterReadyWisp, shared, translated, readyWorkWispIssueFilter, Bool.and_eq_true]
  tauto

theorem getReadyWisps_all (all : filter.limit = 0) : snapshot.getReadyWisps filter =
    (snapshot.rows .wisp).filter (snapshot.wispReady filter) := by
  simp only [getReadyWisps, if_pos all, filter_filter]
  refine filter_congr fun item _ => ?_
  rw [wispReady, Bool.and_comm]

def codeReady (snapshot : ReadySnapshot) (filter : WorkFilter) (item : ReadyItem) : Bool :=
  match item.ref.plane with
  | .issue => snapshot.buildReadyWorkWhere filter item
  | .wisp => snapshot.wispReady filter item

theorem filter_codeReady : snapshot.allRows.filter (snapshot.codeReady filter) =
    (snapshot.rows .issue).filter (snapshot.buildReadyWorkWhere filter) ++
      (snapshot.rows .wisp).filter (snapshot.wispReady filter) := by
  rw [allRows, filter_append]
  congr 1 <;>
  · refine filter_congr fun item member => ?_
    rw [codeReady, plane_of_mem member]

/-- A wisp that passes what both planes share and on which the rest of the two
predicates differs. -/
def Diverges (snapshot : ReadySnapshot) (filter : WorkFilter) (wisp : ReadyItem) : Prop :=
  snapshot.shared filter wisp = true ∧ snapshot.translated filter wisp ≠ snapshot.intended filter wisp

theorem codeReady_ne_iff (member : item ∈ snapshot.rows .wisp) :
    snapshot.codeReady filter item ≠ snapshot.buildReadyWorkWhere filter item ↔ snapshot.Diverges filter item := by
  rw [codeReady, plane_of_mem member, buildReadyWorkWhere_eq (plane_of_mem member), Diverges]
  simp only [wispReady_eq]
  cases snapshot.shared filter item <;> simp

section

variable (apart : snapshot.toTables.Apart)
include apart

theorem eq_of_id {otherPlane : Plane} (member : item ∈ snapshot.rows plane)
    (listed : other ∈ snapshot.rows otherPlane) (same : item.ref.id = other.ref.id) : item = other := by
  have refs := apart.eq_of_id (stored_of_mem member) (stored_of_mem listed) same
  obtain rfl : plane = otherPlane := (plane_of_mem member).symm.trans ((congrArg ItemRef.plane refs).trans (plane_of_mem listed))
  exact inj_on_of_nodup_map (rows_nodup plane) member listed same

theorem allRows_separated (policy : SortPolicy) :
    Separated (snapshot.ReadyOrder policy) snapshot.allRows := by
  intro one here other there below above
  obtain ⟨plane, member⟩ := exists_plane here
  obtain ⟨otherPlane, listed⟩ := exists_plane there
  have keys := le_antisymm below above
  have ids : one.ref.id.toList = other.ref.id.toList := by
    have dated := congrArg (fun key => (ofLex (ofLex (ofLex key).2).2).2) keys
    cases policy <;> exact dated
  exact eq_of_id apart member listed (String.toList_inj.mp ids)

theorem getReadyWisps_page (positive : filter.limit ≠ 0) : snapshot.getReadyWisps filter =
      snapshot.readyPage filter ((snapshot.rows .wisp).filter (snapshot.wispReady filter)) := by
  have separated : Separated (snapshot.ReadyOrder filter.sortPolicy) (snapshot.rows .wisp) :=
    (allRows_separated apart _).subset (subset_append_right _ _)
  simp only [getReadyWisps, if_neg positive, readyPage, page]
  rw [readyWispPages_start, filter_sort (separated.subset (filter_subset_self _)), filter_filter]
  -- The page query already leaves out deferred wisps, and the filter of a page does so again.
  have same : ∀ item ∈ snapshot.rows .wisp, (snapshot.filterReadyWisp filter item &&
      (snapshot.searchClauses (readyWorkWispIssueFilter filter) item &&
      (filter.includeDeferred || !snapshot.deferred item))) = snapshot.wispReady filter item := by
    intro item _
    rw [wispReady, Bool.eq_iff_iff]
    simp only [filterReadyWisp, Bool.and_eq_true, Bool.or_eq_true]
    tauto
  rw [filter_congr same]

theorem getIssuesByIds_eq {items : List ReadyItem} (issues : ∀ item ∈ items, item ∈ snapshot.rows .issue) :
    snapshot.getIssuesByIds (items.map fun item => item.ref.id) = items := by
  have back : ∀ item ∈ items, (snapshot.rows (if ((items.map fun item => item.ref.id).filter fun id =>
      (snapshot.rows .wisp).any fun wisp => wisp.ref.id == id).contains item.ref.id then .wisp else .issue)).filter
        (fun other => other.ref.id == item.ref.id) = [item] := by
    intro item member
    have issue := issues item member
    rw [if_neg, AssocList.filter_key (rows_nodup .issue) issue]
    intro wisp
    obtain ⟨_, found⟩ := mem_filter.mp (contains_iff_mem.mp wisp)
    obtain ⟨wisp, stored, named⟩ := any_eq_true.mp found
    exact absurd (eq_of_id apart stored issue (beq_iff_eq.mp named)) (ne_of_planes stored issue)
  unfold getIssuesByIds
  rw [flatMap_map, flatMap_congr back]
  exact flatMap_singleton' items

theorem mergeReadyWisps_eq {ordered wisps : List ReadyItem}
    (issues : ∀ item ∈ ordered, item ∈ snapshot.rows .issue) (wispRows : ∀ item ∈ wisps, item ∈ snapshot.rows .wisp) :
    snapshot.mergeReadyWisps filter ordered wisps = snapshot.readyPage filter (ordered ++ wisps) := by
  have kept : (ordered.filter fun issue => !wisps.any fun wisp => wisp.ref.id == issue.ref.id) = ordered := by
    refine filter_eq_self.mpr fun issue member => ?_
    rw [Bool.not_eq_true', ← Bool.not_eq_true]
    intro shared
    obtain ⟨wisp, listed, named⟩ := any_eq_true.mp shared
    exact absurd (eq_of_id apart (wispRows wisp listed) (issues issue member) (beq_iff_eq.mp named))
      (ne_of_planes (wispRows wisp listed) (issues issue member))
  rw [mergeReadyWisps]
  simp only [kept, sortReadyIssues_eq, readyPage, page]
  split
  · rename_i cut
    rw [if_neg (by omega)]
  · rename_i whole
    split
    · rfl
    · rw [take_of_length_le (by omega)]

theorem mem_getReadyWisps (member : item ∈ snapshot.getReadyWisps filter) : item ∈ snapshot.rows .wisp := by
  by_cases all : filter.limit = 0
  · rw [getReadyWisps_all all] at member
    exact mem_of_mem_filter member
  · rw [getReadyWisps_page apart all] at member
    exact mem_of_mem_filter (mem_of_mem_page member)

theorem page_getReadyWisps (issueReady : ReadyItem → Bool) :
    snapshot.readyPage filter
        (snapshot.readyPage filter ((snapshot.rows .issue).filter issueReady) ++
      snapshot.getReadyWisps filter) = snapshot.readyPage filter
        ((snapshot.rows .issue).filter issueReady ++ (snapshot.rows .wisp).filter (snapshot.wispReady filter)) := by
  have sublist : ((snapshot.rows .issue).filter issueReady ++ (snapshot.rows .wisp).filter (snapshot.wispReady filter)).Sublist
      snapshot.allRows := filter_sublist.append filter_sublist
  have separated := (allRows_separated apart filter.sortPolicy).subset sublist.subset
  rw [readyPage, ← page_pages separated (sublist.nodup allRows_nodup)]
  by_cases all : filter.limit = 0
  · rw [getReadyWisps_all all]
    refine page_eq_of_perm (separated.subset ?_) ?_
    · intro item member
      exact (mem_append.mp member).elim (fun issue => mem_append_left _ (mem_of_mem_page issue)) (mem_append_right _)
    · rw [page, page, if_pos all, if_pos all]
      exact (perm_insertionSort _ _).symm.append_left _
  · rw [getReadyWisps_page apart all]

theorem getReadyWork_eq (valid : invalidMetadataKey? filter = none) :
    snapshot.getReadyWork filter = .ok (snapshot.readyPage filter
      ((snapshot.rows .issue).filter (snapshot.buildReadyWorkWhere filter) ++
        (snapshot.rows .wisp).filter (snapshot.wispReady filter))) := by
  have pages : ∀ list : List ReadyItem, (if filter.limit = 0 then list.insertionSort (snapshot.ReadyOrder filter.sortPolicy)
      else (list.insertionSort (snapshot.ReadyOrder filter.sortPolicy)).take filter.limit) =
      snapshot.readyPage filter list := fun _ => rfl
  have issues : ∀ item ∈ snapshot.readyPage filter
      ((snapshot.rows .issue).filter (snapshot.buildReadyWorkWhere filter)), item ∈ snapshot.rows .issue :=
    fun item member => mem_of_mem_filter (mem_of_mem_page member)
  simp only [getReadyWork, valid, pages, getIssuesByIds_eq apart issues]
  rw [← page_getReadyWisps apart]
  split
  · rename_i empty
    rw [isEmpty_iff.mp empty, append_nil, readyPage, page_page]
  · rw [mergeReadyWisps_eq apart issues fun item member => mem_getReadyWisps apart member]

end

/-- Ready work is the page of the one predicate exactly if every wisp that diverges comes behind a
full page of it. -/
theorem getReadyWork_eq_readyUnion_iff (apart : snapshot.toTables.Apart) (filter : WorkFilter) :
    snapshot.getReadyWork filter = snapshot.readyUnion filter ↔
      (invalidMetadataKey? filter = none → ∀ wisp ∈ snapshot.rows .wisp, snapshot.Diverges filter wisp →
        filter.limit ≠ 0 ∧ filter.limit ≤ before (snapshot.ReadyOrder filter.sortPolicy) wisp
          (snapshot.allRows.filter (snapshot.buildReadyWorkWhere filter))) := by
  cases valid : invalidMetadataKey? filter with
  | some key => simp [getReadyWork, readyUnion, valid]
  | none =>
    have union : snapshot.readyUnion filter = .ok (snapshot.readyPage filter
        (snapshot.allRows.filter (snapshot.buildReadyWorkWhere filter))) := by
      simp only [readyUnion, valid]
      rfl
    rw [getReadyWork_eq apart valid, union, Except.ok.injEq, ← filter_codeReady, page_filter_eq_iff (allRows_separated apart _)]
    refine ⟨fun behind _ wisp member diverges => ?_, fun behind item member differs => ?_⟩
    · exact behind wisp (mem_append_right _ member) ((codeReady_ne_iff member).mpr diverges)
    · obtain issue | wisp := mem_append.mp member
      · rw [codeReady, plane_of_mem issue] at differs
        exact absurd rfl differs
      · exact behind rfl item wisp ((codeReady_ne_iff wisp).mp differs)

def oneOfEach : ReadySnapshot where
  items
    | .issue => [⟨"bd-1", .opened⟩]
    | .wisp => [⟨"bd-2", .opened⟩]
  dependencies := fun _ => []
  isBlocked := fun _ => false
  columns := fun _ => {}
  now := 0

theorem oneOfEach_apart : oneOfEach.toTables.Apart := by
  intro id both
  obtain ⟨issue, listed, named⟩ := Tables.stored_iff.mp both.1
  obtain ⟨wisp, held, called⟩ := Tables.stored_iff.mp both.2
  obtain rfl := mem_singleton.mp listed
  obtain rfl := mem_singleton.mp held
  exact absurd (named.trans called.symm) (by decide)

/-- The excluded wisp comes behind the one row that the limit allows. -/
theorem getReadyWork_oneOfEach :
    oneOfEach.getReadyWork { excludeIds := ["bd-2"], limit := 1 } =
      oneOfEach.readyUnion { excludeIds := ["bd-2"], limit := 1 } ∧
    (oneOfEach.getReadyWork { excludeIds := ["bd-2"], limit := 1 }).map
      (List.map fun item => item.ref.id) = .ok ["bd-1"] := by
  refine ⟨(getReadyWork_eq_readyUnion_iff oneOfEach_apart _).mpr fun _ wisp member _ => ?_, by decide⟩
  obtain rfl := mem_singleton.mp member
  exact ⟨by decide, by decide⟩

theorem getReadyWork_excluded : oneOfEach.toTables.Apart ∧
    (oneOfEach.getReadyWork { excludeIds := ["bd-2"] }).map (List.map fun item => item.ref.id) = .ok ["bd-1", "bd-2"] ∧
    (oneOfEach.readyUnion { excludeIds := ["bd-2"] }).map (List.map fun item => item.ref.id) = .ok ["bd-1"] :=
  ⟨oneOfEach_apart, by decide, by decide⟩

end ReadySnapshot

end Beads
