import Beads.Data.Worklist
import Beads.Deletion.Delete
import Beads.Lifecycle.Rows
import Beads.Sweep.Citations

/-! `SweepInTx` selects closed rows by tier, cutoff and pattern, holds back those that a live row
needs or cites, and deletes at most a limit of the others, the oldest first. -/

namespace Beads

/-- A tier of another name, the empty one included, is refused. -/
inductive SweepTier where
  | ephemeral
  | durable
  | wispsPlane
  | other (name : String)
  deriving DecidableEq, Repr

def SweepTier.name : SweepTier → String
  | ephemeral => "ephemeral"
  | durable => "durable"
  | wispsPlane => "wisps-plane"
  | other name => name

structure SweepRequest where
  tier : SweepTier
  closedBefore : Option Int := none
  idPattern : String := ""
  protectReferenced : Bool := false
  protectLiveDependents : Bool := false
  limit : Int := 0
  dryRun : Bool := false

structure SweepSkips where
  pinned : Nat := 0
  referenced : Nat := 0
  liveDependent : Nat := 0
  notClosed : Nat := 0
  unknownClosedAt : Nat := 0
  closedAtOrAfterCutoff : Nat := 0
  deriving DecidableEq, Repr

structure SweepResult where
  dryRun : Bool
  swept : Nat := 0
  dependencies : Nat := 0
  labels : Nat := 0
  events : Nat := 0
  skipped : SweepSkips := {}
  remaining : Nat := 0
  referencedIds : List Id := []
  deriving DecidableEq, Repr

def sweepReferencedSampleLimit : Nat := 100

/-- The columns a sweep reads next to id and status; `closed_at` is stored in whole seconds. -/
structure SweepColumns where
  pinned : Bool := false
  ephemeral : Bool := false
  wispType : String := ""
  closedAt : Option Int := none
  description : String := ""
  notes : String := ""

structure SweepItem where
  ref : ItemRef
  status : Status
  columns : SweepColumns

structure SweepHost where
  /-- `filepath.Match`; `none` reports a malformed pattern. -/
  filepathMatch : (pattern name : String) → Option Bool
  orderBy : List SweepItem → List SweepItem
  orderBy_perm : ∀ items, (orderBy items).Perm items

/-- What a transaction reads: the tables, and by item its other columns, its comments, its labels
and the number of its events, each from the tables of the item's plane. -/
structure SweepStore extends Store where
  columns : ItemRef → SweepColumns
  comments : ItemRef → List String := fun _ => []
  labels : ItemRef → List String := fun _ => []
  events : ItemRef → Nat := fun _ => 0
  customStatuses : List (String × StatusCategory) := []

def sweepRequiresFilter (tier : SweepTier) : Bool := tier == .durable || tier == .wispsPlane

def validateSweepRequest (host : SweepHost) (req : SweepRequest) : Except String Unit :=
  match req.tier with
  | .other "" =>
    .error "validation failed: sweep requires a tier (\"ephemeral\", \"durable\" or \"wisps-plane\"), and has no default"
  | .other name => .error ("validation failed: \"" ++ name ++
    "\" is not a sweep tier; use \"ephemeral\", \"durable\" or \"wisps-plane\"")
  | tier =>
    if req.idPattern ≠ "" ∧ host.filepathMatch req.idPattern "" = none then
      .error ("validation failed: --pattern \"" ++ req.idPattern ++ "\" is not a valid glob: syntax error in pattern")
    else if req.limit < 0 then
      .error ("validation failed: sweep limit " ++ toString req.limit ++ " is negative; use 0 for no limit")
    else if sweepRequiresFilter tier && req.closedBefore.isNone && req.idPattern == "" then
      .error ("validation failed: a " ++ tier.name ++ " sweep requires a closed-before cutoff or an id pattern; " ++
        "pass the pattern \"*\" to sweep every closed issue deliberately")
    else .ok ()

/-- `BuildSweepCandidateFilter`. The bound of the query is the cutoff cut down to whole seconds. -/
def buildSweepCandidateFilter (req : SweepRequest) (item : SweepItem) : Bool :=
  item.status == .closed &&
  (match req.tier with
    | .wispsPlane => true
    | .ephemeral => item.columns.ephemeral || item.columns.wispType != ""
    | _ => !item.columns.ephemeral && item.columns.wispType == "") &&
  req.closedBefore.all fun cutoff => item.columns.closedAt.any (· < cutoff / 10 ^ 9)

def matchesSweepPattern (host : SweepHost) (pattern : String) (id : Id) : Bool :=
  pattern == "" || host.filepathMatch pattern id == some true

/-- The pattern narrows first; then come the pinned flag and the three checks of what the query
should have asked. -/
def filterSweepCandidates (host : SweepHost) (issues : List SweepItem) (pattern : String)
    (cutoff : Option Int) : List SweepItem × SweepSkips :=
  issues.foldl (fun (kept, skips) issue =>
    if !matchesSweepPattern host pattern issue.ref.id then (kept, skips)
    else if issue.columns.pinned then (kept, { skips with pinned := skips.pinned + 1 })
    else if issue.status != .closed then (kept, { skips with notClosed := skips.notClosed + 1 })
    else match issue.columns.closedAt with
      | none => (kept, { skips with unknownClosedAt := skips.unknownClosedAt + 1 })
      | some closedAt =>
        if cutoff.any fun cutoff => !decide (closedAt * 10 ^ 9 < cutoff) then
          (kept, { skips with closedAtOrAfterCutoff := skips.closedAtOrAfterCutoff + 1 })
        else (kept ++ [issue], skips)) ([], {})

def isSweepProtectingEdge (type : DependencyType) : Bool :=
  [.parentChild, .other "tracks", .blocks].contains type

section

variable (incoming : List Dependency)

def sweepLiveDependentSources : List Id :=
  ((incoming.filter fun dep => isSweepProtectingEdge dep.type).map Dependency.issueId).eraseDups.insertionSort
    fun one other => one.toList ≤ other.toList

def targetsBySource (source : Id) : List Id :=
  (incoming.filter fun dep => isSweepProtectingEdge dep.type && dep.issueId == source).map fun dep => dep.target.id

def sweepLiveDependentTargets (live : List Id) : List Id :=
  Worklist.drain (targetsBySource incoming) (live.length + incoming.length) [] live

end

section

variable (candidates : List SweepItem)

def partitionSweepLiveDependents (guarded : List Id) : List SweepItem × Nat :=
  (candidates.filter fun issue => !guarded.contains issue.ref.id,
    (candidates.filter fun issue => guarded.contains issue.ref.id).length)

def partitionSweepReferenced (referenced : List Id) : List SweepItem × Nat × List Id :=
  let cited := candidates.filter fun issue => referenced.contains issue.ref.id
  (candidates.filter fun issue => !referenced.contains issue.ref.id, cited.length,
    (cited.map fun issue => issue.ref.id).take sweepReferencedSampleLimit)

def closedBeforeItem (one other : SweepItem) : Bool :=
  match one.columns.closedAt, other.columns.closedAt with
  | some closedAt, some otherClosedAt =>
    if closedAt ≠ otherClosedAt then closedAt < otherClosedAt else one.ref.id.toList < other.ref.id.toList
  | _, _ => one.ref.id.toList < other.ref.id.toList

def limitSweepCandidates (limit : Int) : List SweepItem × Nat :=
  if limit ≤ 0 ∨ (candidates.length : Int) ≤ limit then (candidates, 0)
  else ((candidates.insertionSort fun one other => closedBeforeItem other one = false).take limit.toNat,
    candidates.length - limit.toNat)

end

def notDoneStatusesForSweep (custom : List (String × StatusCategory)) : List Status :=
  [.opened, .inProgress, .blocked, .deferred, .pinned, .hooked] ++
    (custom.filter fun status => status.2 != .done).map fun status => .custom status.1

namespace SweepStore

variable (host : SweepHost) (store : SweepStore)

def rows (plane : Plane) : List SweepItem :=
  (store.items plane).map fun row => ⟨⟨plane, row.id⟩, row.status, store.columns ⟨plane, row.id⟩⟩

def searchWispsPlane (filter : SweepItem → Bool) : List SweepItem :=
  host.orderBy ((store.rows .wisp).filter filter)

/-- An issue gives way to a wisp of its id if both pass the filter. -/
def searchIssues (filter : SweepItem → Bool) : List SweepItem :=
  let wispResults := (store.rows .wisp).filter filter
  host.orderBy (((store.rows .issue).filter filter).filter (fun issue => !wispResults.any
    fun wisp => wisp.ref.id == issue.ref.id) ++
    wispResults)

/-- The rows that point at one of the targets. The key of a row is derived from its ends, and a row
of `wisp_dependencies` is skipped if a row of `dependencies` has its key. -/
def getDependentRecordsForIssues (targetIds : List Id) : List Dependency :=
  let durable := (store.dependencies .issue).filter fun dep => targetIds.contains dep.target.id
  durable ++ (store.dependencies .wisp).filter fun dep =>
    targetIds.contains dep.target.id && !durable.any fun seen => seen.key == dep.key

/-- `PartitionWispIDsInTx`: an id with a row in `wisps` is a wisp. -/
def partitionWispIds (ids : List Id) : List Id × List Id :=
  (ids.filter fun id => store.stored ⟨.wisp, id⟩, ids.filter fun id => !store.stored ⟨.wisp, id⟩)

def getCommentsForIssue (id : Id) : List String :=
  if store.stored ⟨.wisp, id⟩ then store.comments ⟨.wisp, id⟩ else store.comments ⟨.issue, id⟩

def isNotDone (status : Status) : Bool :=
  (notDoneStatusesForSweep store.customStatuses).contains status

def sweepLiveDependents (candidates : List SweepItem) : List Id :=
  let incoming := store.getDependentRecordsForIssues (candidates.map fun issue => issue.ref.id)
  let sources := sweepLiveDependentSources incoming
  if sources.isEmpty then []
  else
    let liveRows := store.searchIssues host fun item => sources.contains item.ref.id && store.isNotDone item.status
    sweepLiveDependentTargets incoming (liveRows.map fun issue => issue.ref.id)

def sweepReferenced (candidates : List SweepItem) : List Id :=
  let matcher := newCandidateIdMatcher (candidates.map fun issue => issue.ref.id)
  let notDone := store.searchIssues host fun item => store.isNotDone item.status
  notDone.flatMap fun issue =>
    (issue.columns.description :: issue.columns.notes ::
      store.getCommentsForIssue issue.ref.id).flatMap fun text => findAll matcher (bytesOf text)

variable (req : SweepRequest)

def sweepCandidates : List SweepItem × SweepSkips :=
  let found := if req.tier = .wispsPlane then store.searchWispsPlane host (buildSweepCandidateFilter req)
    else store.searchIssues host (buildSweepCandidateFilter req)
  filterSweepCandidates host found req.idPattern req.closedBefore

def keepUnneeded (kept : List SweepItem) : List SweepItem × Nat :=
  if req.protectLiveDependents then partitionSweepLiveDependents kept (store.sweepLiveDependents host kept) else (kept, 0)

def keepUncited (kept : List SweepItem) : List SweepItem × Nat × List Id :=
  if req.protectReferenced then partitionSweepReferenced kept (store.sweepReferenced host kept) else (kept, 0, [])

/-- Rows that go with the deleted ones: outgoing edges, and edges into them from rows that stay. -/
def countDependencies (regularIds wispIds : List Id) : Nat :=
  ((store.dependencies .issue).filter fun dep => regularIds.contains dep.issueId).length +
    ((store.dependencies .wisp).filter fun dep => wispIds.contains dep.issueId).length +
    ((store.dependencies .issue ++ store.dependencies .wisp).filter fun dep =>
      (regularIds ++ wispIds).contains dep.target.id && !(regularIds ++ wispIds).contains dep.issueId).length

variable (session : Session)

def deleteResolvedSet (regularIds wispIds : List Id) : Option SweepStore :=
  (store.toStore.deleteAll session regularIds wispIds).map fun after =>
    { store with
      toStore := after
      comments := fun ref => if Tables.isDeleted regularIds wispIds ref then [] else store.comments ref
      labels := fun ref => if Tables.isDeleted regularIds wispIds ref then [] else store.labels ref
      events := fun ref => if Tables.isDeleted regularIds wispIds ref then 0 else store.events ref }

/-- `DeleteIssuesInTx` without cascade and with force, which deletes the ids as they are routed. -/
def deleteIssues (ids : List Id) (dryRun : Bool) (result : SweepResult) : Option (SweepStore × SweepResult) :=
  let (wispIds, regularIds) := store.partitionWispIds ids
  let counted := { result with
    swept := regularIds.length + wispIds.length
    dependencies := store.countDependencies regularIds wispIds
    labels := (regularIds.map fun id => (store.labels ⟨.issue, id⟩).length).sum +
      (wispIds.map fun id => (store.labels ⟨.wisp, id⟩).length).sum
    events := (regularIds.map fun id => store.events ⟨.issue, id⟩).sum + (wispIds.map fun id => store.events ⟨.wisp, id⟩).sum }
  if dryRun then some (store, counted) else (store.deleteResolvedSet session regularIds wispIds).map
    fun after => (after, counted)

/-- `none` is a recompute of `is_blocked` that runs out of passes. -/
def sweep (req : SweepRequest) : Option (SweepStore × SweepResult) :=
  let (candidates, skips) := store.sweepCandidates host req
  let (unneeded, liveDependent) := store.keepUnneeded host req candidates
  let (uncited, referenced, referencedIds) := store.keepUncited host req unneeded
  let (kept, remaining) := limitSweepCandidates uncited req.limit
  let result : SweepResult := {
    dryRun := req.dryRun
    skipped := { skips with liveDependent, referenced }
    referencedIds, remaining }
  if kept.isEmpty then some (store, result) else store.deleteIssues session (kept.map
    fun issue => issue.ref.id) req.dryRun result

end SweepStore

end Beads
