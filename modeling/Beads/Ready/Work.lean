import Beads.Data.SortedPages
import Beads.Data.Text
import Beads.Store.Types

/-! `GetReadyWorkInTx` asks the issue plane with one SQL predicate. For the wisp plane it translates
the filter into the filter of the search, pages through the wisps and drops in Go what is not ready;
the two pages are merged by a Go comparison. -/

namespace Beads

/-- The columns of an item that ready work reads next to its id, status and blocked bit. Times are
in seconds. -/
structure ReadyColumns where
  priority : Int := 2
  issueType : String := "task"
  assignee : Option String := none
  pinned : Bool := false
  ephemeral : Bool := false
  createdAt : Int := 0
  deferUntil : Option Int := none
  molType : String := ""
  wispType : String := ""
  metadata : Metadata := {}

/-- What the database answers within one transaction, with its clock and its regular expressions. -/
structure ReadySnapshot extends Store where
  columns : ItemRef → ReadyColumns
  labels : ItemRef → List String := fun _ => []
  activeStatuses : List Status := []
  now : Int
  regexp : (pattern text : String) → Bool := fun _ _ => false

structure ReadyItem where
  ref : ItemRef
  status : Status
  isBlocked : Bool
  columns : ReadyColumns
  labels : List String

inductive SortPolicy where
  | hybrid
  | priority
  | oldest
  | other
  deriving DecidableEq, Repr

/-- Empty texts and lists leave a member unset; the fields of the metadata are
in the order of their keys. -/
structure WorkFilter where
  status : Option Status := none
  statuses : List Status := []
  type : String := ""
  priority : Option Int := none
  assignee : Option String := none
  unassigned : Bool := false
  labels : List String := []
  labelsAny : List String := []
  excludeLabels : List String := []
  labelPattern : String := ""
  labelRegex : String := ""
  limit : Nat := 0
  sortPolicy : SortPolicy := .hybrid
  parentId : Option Id := none
  moleculeId : Id := ""
  molType : Option String := none
  wispType : Option String := none
  includeDeferred : Bool := false
  includeEphemeral : Bool := false
  excludeTypes : List String := []
  excludeIds : List Id := []
  metadataFields : List (String × String) := []
  hasMetadataKey : String := ""

namespace ReadySnapshot

variable (snapshot : ReadySnapshot)

def rows (plane : Plane) : List ReadyItem :=
  (snapshot.items plane).map fun row =>
    ⟨⟨plane, row.id⟩, row.status, snapshot.isBlocked ⟨plane, row.id⟩,
      snapshot.columns ⟨plane, row.id⟩, snapshot.labels ⟨plane, row.id⟩⟩

def parentChildRows (plane : Plane) : List Dependency :=
  (snapshot.dependencies plane).filter fun row => row.type == .parentChild

def parentedIds (plane : Plane) : List Id := (snapshot.parentChildRows plane).map Dependency.issueId

def deferred (item : ReadyItem) : Bool := item.columns.deferUntil.any fun time => decide (snapshot.now < time)

def getChildrenOfDeferredParents : List Id :=
  [Plane.issue, .wisp].flatMap fun table => [Plane.issue, .wisp].flatMap fun parents =>
    ((snapshot.parentChildRows table).filter fun row =>
      (snapshot.rows parents).any fun parent => row.target.column parents == some parent.ref.id && snapshot.deferred parent).map
        Dependency.issueId

def childIds (parentId : Id) : List Id :=
  ((snapshot.parentChildRows .issue ++ snapshot.parentChildRows .wisp).filter fun row => row.target.id == parentId).map
    Dependency.issueId

/-- The recursive walk, which does not step on an id of its own path. -/
def descendantWalk : Nat → List Id → Id → List Id
  | 0, _, _ => []
  | fuel + 1, path, id =>
    ((snapshot.childIds id).filter fun child => !path.contains child).flatMap fun child =>
      child :: descendantWalk fuel (child :: path) child

/-- A path without repetition is no longer than there are rows. -/
def getDescendantIds (rootId : Id) : List Id :=
  if rootId = "" then []
  else (snapshot.descendantWalk ((snapshot.parentChildRows .issue).length +
    (snapshot.parentChildRows .wisp).length) [rootId] rootId)

def readyWorkExcludeTypes (extra : List String) : List String :=
  ["merge-request", "gate", "molecule", "rig", "agent", "role", "message"] ++ extra.filter (· != "")

def globToLikePattern (pattern : String) : List Char :=
  pattern.toList.flatMap fun char =>
    if char == '%' || char == '_' || char == '|' then ['|', char] else if char == '*' then ['%']
      else if char == '?' then ['_'] else [char]

section
open List Text Wild

theorem compile_globToLikePattern (pattern : String) :
    compile '|' (globToLikePattern pattern) = pattern.toList.map fun char =>
      if char = '*' then .any else if char = '?' then .one else .letter char := by
  rw [globToLikePattern]
  induction pattern.toList with
  | nil => rfl
  | cons char rest ih =>
    rw [flatMap_cons, map_cons, ← ih]
    split_ifs <;> simp_all [compile, compile_cons, wild]

theorem likeEscape_globToLikePattern (pattern : String) (text : List Char) :
    likeEscape '|' (globToLikePattern pattern) text = true ↔ Glob pattern.toList text := by
  rw [likeEscape, compile_globToLikePattern]
  induction pattern.toList generalizing text with
  | nil => rw [map_nil, accepts, List.isEmpty_iff, Glob]
  | cons char rest ih =>
    rw [map_cons, Glob]
    split_ifs
    · rw [accepts_any]
      simp only [ih]
    all_goals cases text <;> simp_all [accepts]

end

def dottedUnder (parentId id : Id) : Bool := Text.like (parentId.toList ++ ['.', '%']) id.toList

/-- A child by its edge, or by its id if it has no parent edge. -/
def childOf (parentId : Id) (item : ReadyItem) : Bool :=
  (snapshot.parentChildRows item.ref.plane).any (fun row => row.issueId == item.ref.id && row.target.id == parentId) ||
    dottedUnder parentId item.ref.id && !(snapshot.parentedIds item.ref.plane).contains item.ref.id

def carriesLabels (labels labelsAny : List String) (item : ReadyItem) : Bool :=
  labels.all item.labels.contains && (labelsAny.isEmpty || labelsAny.any item.labels.contains)

def metadataClauses (hasMetadataKey : String) (metadataFields : List (String × String)) (item : ReadyItem) : Bool :=
  (hasMetadataKey == "" || (item.columns.metadata.extract hasMetadataKey).isSome) &&
    metadataFields.all fun field => item.columns.metadata.extract field.1 == some field.2

/-- `BuildReadyWorkWhere`, rendered for the tables of the item's plane. -/
def buildReadyWorkWhere (filter : WorkFilter) (item : ReadyItem) : Bool :=
  (match filter.status with
    | some .opened => item.status == .opened || snapshot.activeStatuses.contains item.status
    | some status => item.status == status
    | none => if filter.statuses ≠ [] then filter.statuses.contains item.status
      else [Status.opened, .inProgress].contains item.status) &&
  !item.columns.pinned && !item.isBlocked &&
  (filter.includeEphemeral || !item.columns.ephemeral) &&
  filter.priority.all (· == item.columns.priority) &&
  (if filter.type ≠ "" then item.columns.issueType == filter.type
    else !(readyWorkExcludeTypes filter.excludeTypes).contains item.columns.issueType) &&
  (if filter.unassigned then item.columns.assignee == none || item.columns.assignee == some ""
    else filter.assignee.all fun assignee => item.columns.assignee == some assignee) &&
  (filter.includeDeferred || !snapshot.deferred item && !snapshot.getChildrenOfDeferredParents.contains item.ref.id) &&
  !filter.excludeIds.contains item.ref.id &&
  carriesLabels filter.labels filter.labelsAny item &&
  !filter.excludeLabels.any item.labels.contains &&
  (filter.labelPattern == "" ||
    item.labels.any fun label => Text.likeEscape '|' (globToLikePattern filter.labelPattern) label.toList) &&
  (filter.labelRegex == "" || item.labels.any (snapshot.regexp filter.labelRegex)) &&
  filter.parentId.all (fun parentId =>
    dottedUnder parentId item.ref.id && !(snapshot.parentedIds item.ref.plane).contains item.ref.id ||
      (snapshot.getDescendantIds parentId).contains item.ref.id) &&
  (filter.moleculeId == "" || snapshot.childOf filter.moleculeId item) &&
  metadataClauses filter.hasMetadataKey filter.metadataFields item

end ReadySnapshot

/-- The members of the search filter that the translation sets. -/
structure IssueFilter where
  status : Option Status := none
  statuses : List Status := []
  issueType : Option String := none
  excludeTypes : List String := []
  assignee : Option String := none
  noAssignee : Bool := false
  priority : Option Int := none
  parentId : Option Id := none
  molType : Option String := none
  wispType : Option String := none
  labels : List String := []
  labelsAny : List String := []
  excludeLabels : List String := []
  pinned : Option Bool := none
  ephemeral : Option Bool := none
  hasMetadataKey : String := ""
  metadataFields : List (String × String) := []

def readyWorkWispIssueFilter (filter : WorkFilter) : IssueFilter where
  priority := filter.priority
  labels := filter.labels
  labelsAny := filter.labelsAny
  excludeLabels := filter.excludeLabels
  molType := filter.molType
  wispType := filter.wispType
  pinned := some false
  metadataFields := filter.metadataFields
  hasMetadataKey := filter.hasMetadataKey
  status := filter.status
  statuses := match filter.status with
    | some _ => []
    | none => if filter.statuses ≠ [] then filter.statuses else [.opened, .inProgress]
  issueType := if filter.type ≠ "" then some filter.type else none
  excludeTypes := if filter.type ≠ "" then [] else ReadySnapshot.readyWorkExcludeTypes filter.excludeTypes
  noAssignee := filter.unassigned
  assignee := if filter.unassigned then none else filter.assignee
  parentId := if filter.moleculeId ≠ "" then some filter.moleculeId else none
  ephemeral := if filter.includeEphemeral then none else some false

def compactNonEmpty (texts : List String) : List String := texts.filter (· != "")

namespace ReadySnapshot

variable (snapshot : ReadySnapshot)

variable (filter : IssueFilter)

/-- `BuildIssueFilterClauses` for the item's plane, without the clauses of the labels to carry. -/
def rowClauses (item : ReadyItem) : Bool :=
  (filter.status.all (item.status == ·) && (filter.statuses.isEmpty || filter.statuses.contains item.status)) &&
  (filter.issueType.all (item.columns.issueType == ·) &&
    (filter.excludeTypes.isEmpty || !filter.excludeTypes.contains item.columns.issueType)) &&
  (filter.assignee.all (fun assignee => item.columns.assignee == some assignee) &&
    (!filter.noAssignee || (item.columns.assignee == none || item.columns.assignee == some ""))) &&
  filter.priority.all (· == item.columns.priority) &&
  filter.parentId.all (fun parentId => snapshot.childOf parentId item) &&
  filter.molType.all (item.columns.molType == ·) &&
  filter.wispType.all (item.columns.wispType == ·) &&
  !filter.excludeLabels.any item.labels.contains &&
  filter.pinned.all (item.columns.pinned == ·) &&
  filter.ephemeral.all (item.columns.ephemeral == ·) &&
  metadataClauses filter.hasMetadataKey filter.metadataFields item

def buildIssueFilterClauses (item : ReadyItem) : Bool :=
  snapshot.rowClauses filter item && carriesLabels filter.labels filter.labelsAny item

/-- The search with `BuildLabelDrivenSearch`: non-empty labels become joins, and then the label
members are cleared. -/
def searchClauses (item : ReadyItem) : Bool :=
  let labels := compactNonEmpty filter.labels
  let labelsAny := compactNonEmpty filter.labelsAny
  if labels.isEmpty && labelsAny.isEmpty then snapshot.buildIssueFilterClauses filter item
  else
    carriesLabels labels labelsAny item && snapshot.buildIssueFilterClauses { filter with labels := [], labelsAny := [] } item

/-- What `filterReadyWispsInTx` keeps. -/
def filterReadyWisp (filter : WorkFilter) (item : ReadyItem) : Bool :=
  filter.parentId.all (fun parentId =>
    (snapshot.getDescendantIds parentId).contains item.ref.id ||
      (parentId.toList ++ ['.']).isPrefixOf item.ref.id.toList &&
        !(snapshot.parentedIds .issue).contains item.ref.id && !(snapshot.parentedIds .wisp).contains item.ref.id) &&
  (filter.includeDeferred || !snapshot.deferred item && !snapshot.getChildrenOfDeferredParents.contains item.ref.id) &&
  !item.isBlocked && !item.columns.pinned

def recentCutoff : Int := snapshot.now - 48 * 3600

/-- `BuildReadyWorkOrder`: the keys of the ORDER BY. -/
def orderKey (policy : SortPolicy) (item : ReadyItem) : Int ×ₗ Int ×ₗ Int ×ₗ List Char :=
  let recent := decide (snapshot.recentCutoff ≤ item.columns.createdAt)
  let dated : Int ×ₗ List Char := toLex (item.columns.createdAt, item.ref.id.toList)
  match policy with
  | .oldest => toLex (0, toLex (0, dated))
  | .priority | .other => toLex (0, toLex (item.columns.priority, dated))
  | .hybrid => toLex (if recent then 0 else 1, toLex (if recent then item.columns.priority else 999, dated))

def ReadyOrder (policy : SortPolicy) (one other : ReadyItem) : Prop :=
  snapshot.orderKey policy one ≤ snapshot.orderKey policy other

instance (policy : SortPolicy) : DecidableRel (snapshot.ReadyOrder policy) :=
  fun one other => inferInstanceAs (Decidable (snapshot.orderKey policy one ≤ snapshot.orderKey policy other))

def issueCreatedBefore (one other : ReadyItem) : Bool :=
  if one.columns.createdAt ≠ other.columns.createdAt then one.columns.createdAt < other.columns.createdAt
  else one.ref.id.toList < other.ref.id.toList

def issuePriorityBefore (one other : ReadyItem) : Bool :=
  if one.columns.priority ≠ other.columns.priority then one.columns.priority < other.columns.priority
  else issueCreatedBefore one other

def issueBefore (policy : SortPolicy) (one other : ReadyItem) : Bool :=
  match policy with
  | .oldest => issueCreatedBefore one other
  | .priority | .other => issuePriorityBefore one other
  | .hybrid =>
    let oneRecent := !decide (one.columns.createdAt < snapshot.recentCutoff)
    let otherRecent := !decide (other.columns.createdAt < snapshot.recentCutoff)
    if oneRecent ≠ otherRecent then oneRecent
    else if oneRecent ∧ one.columns.priority ≠ other.columns.priority then one.columns.priority < other.columns.priority
    else issueCreatedBefore one other

def sortReadyIssues (policy : SortPolicy) (items : List ReadyItem) : List ReadyItem :=
  items.insertionSort fun one other => snapshot.issueBefore policy other one = false

def readyWorkPageSize (limit : Nat) : Nat := if limit < 100 then 100 else limit

/-- The loop over the pages of the wisps that the search finds, in the order of the policy. -/
def readyWispPages (filter : WorkFilter) (found : List ReadyItem) : Nat → (offset : Nat) → List ReadyItem → List ReadyItem
  | 0, _, ready => ready
  | fuel + 1, offset, ready =>
    if ready.length < filter.limit then
      let page := (found.drop offset).take (readyWorkPageSize filter.limit)
      if page.isEmpty then ready
      else
        let ready := (ready ++ page.filter (snapshot.filterReadyWisp filter)).take filter.limit
        if page.length < readyWorkPageSize filter.limit then ready
        else readyWispPages filter found fuel (offset + readyWorkPageSize filter.limit) ready
    else ready

def getReadyWisps (filter : WorkFilter) : List ReadyItem :=
  let wispFilter := readyWorkWispIssueFilter filter
  if filter.limit = 0 then
    ((snapshot.rows .wisp).filter (snapshot.searchClauses wispFilter)).filter (snapshot.filterReadyWisp filter)
  else
    let found := ((snapshot.rows .wisp).filter fun item =>
      snapshot.searchClauses wispFilter item && (filter.includeDeferred || !snapshot.deferred item)).insertionSort
        (snapshot.ReadyOrder filter.sortPolicy)
    snapshot.readyWispPages filter found (found.length + 1) 0 []

/-- `GetIssuesByIDsInTx`: an id that names a wisp is read from the wisps. -/
def getIssuesByIds (ids : List Id) : List ReadyItem :=
  let wispIds := ids.filter fun id => (snapshot.rows .wisp).any fun item => item.ref.id == id
  ids.flatMap fun id => (snapshot.rows (if wispIds.contains id then .wisp else .issue)).filter fun item => item.ref.id == id

def mergeReadyWisps (filter : WorkFilter) (ordered wisps : List ReadyItem) : List ReadyItem :=
  let kept := ordered.filter fun issue => !wisps.any fun wisp => wisp.ref.id == issue.ref.id
  let sorted := snapshot.sortReadyIssues filter.sortPolicy (kept ++ wisps)
  if 0 < filter.limit ∧ filter.limit < sorted.length then sorted.take filter.limit else sorted

def invalidMetadataKey? (filter : WorkFilter) : Option String :=
  let keys := (if filter.hasMetadataKey = "" then [] else [filter.hasMetadataKey]) ++ filter.metadataFields.map Prod.fst
  keys.find? fun key => !match key.toList with
    | [] => false
    | first :: rest => (first.isAlpha || first == '_') && rest.all fun char => char.isAlphanum ||
      char == '_' || char == '.' || char == '/'

/-- `GetReadyWorkInTx` without a row cap; the error is the refused metadata key. -/
def getReadyWork (filter : WorkFilter) : Except String (List ReadyItem) :=
  match invalidMetadataKey? filter with
  | some key => .error key
  | none =>
    let found := ((snapshot.rows .issue).filter (snapshot.buildReadyWorkWhere filter)).insertionSort
      (snapshot.ReadyOrder filter.sortPolicy)
    let issueIds := (if filter.limit = 0 then found else found.take filter.limit).map fun item => item.ref.id
    let ordered := snapshot.getIssuesByIds issueIds
    let wisps := snapshot.getReadyWisps filter
    .ok (if wisps.isEmpty then ordered else snapshot.mergeReadyWisps filter ordered wisps)

/-- What ready work is for: the first items of both planes that satisfy the one predicate. -/
def readyUnion (filter : WorkFilter) : Except String (List ReadyItem) :=
  match invalidMetadataKey? filter with
  | some key => .error key
  | none =>
    .ok (SortedPages.page (snapshot.ReadyOrder filter.sortPolicy) filter.limit
      ((snapshot.rows .issue ++ snapshot.rows .wisp).filter (snapshot.buildReadyWorkWhere filter)))

end ReadySnapshot

end Beads
