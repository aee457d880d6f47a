import Beads.Data.CanonicalJson
import Beads.Data.Worklist

/-! The sync engine on one issue that is linked to an issue of an external tracker. A `Sync` detects
conflicts, pulls, pushes and then writes `last_sync`; all that it remembers between runs is that
time and the hash of what it pushed. Edits are made on both sides at any moment, also between two
calls of a running `Sync`. Times are in nanoseconds. The options that only choose dependencies are
left out. -/

namespace Beads.Tracker

variable {κ : Type}

/-- The linked issue in beads. `content` is what a transfer carries, `edits` counts the edits made
on this side. -/
structure LocalIssue (κ : Type) where
  content : κ
  createdAt : Nat
  updatedAt : Nat
  edits : Nat
  deriving DecidableEq, Repr

structure ExtIssue (κ : Type) where
  content : κ
  updatedAt : Nat
  edits : Nat
  deriving DecidableEq, Repr

inductive Side where
  | beads
  | tracker
  deriving DecidableEq, Repr

/-- What a `Sync` did, as far as the two sides can tell. -/
inductive Observation (κ : Type) where
  /-- The push was left out on the strength of the stored hash; `seen` is what was last written to
  the tracker or read from it. -/
  | skipped (content : κ) (seen : Option κ)
  /-- The content of a side was replaced; `pending` if it held an edit that had not been
  transferred. -/
  | replaced (side : Side) (pending reported : Bool)
  deriving DecidableEq, Repr

/-- `issue`, `extIssue`, `lastSync`, `pushHash` and the clock are stored; the rest is kept by an
observer. -/
structure State (κ : Type) where
  issue : LocalIssue κ
  extIssue : ExtIssue κ
  lastSync : Option Nat
  pushHash : Option (List Char)
  now : Nat
  /-- The edits of the local side that need no more transfer, and those of the tracker. -/
  localSettled : Nat
  extSettled : Nat
  seen : Option κ
  log : List (Observation κ)

structure Edit (κ : Type) where
  side : Side
  content : κ
  delay : Nat

namespace State

variable (s : State κ)

/-- One exact clock: whatever happens is later than everything before it. -/
def tick (delay : Nat) : State κ := { s with now := s.now + delay + 1 }

def edit (edit : Edit κ) : State κ :=
  let s := s.tick edit.delay
  match edit.side with
  | .beads => { s with issue := { s.issue with content := edit.content, updatedAt := s.now, edits := s.issue.edits + 1 } }
  | .tracker =>
    { s with extIssue := { s.extIssue with content := edit.content, updatedAt := s.now, edits := s.extIssue.edits + 1 } }

/-- The local content holds an edit that the tracker never got. -/
def localPending : Bool := s.localSettled < s.issue.edits

def extPending : Bool := s.extSettled < s.extIssue.edits

end State

inductive Call where
  | detectSearch | detectFetch
  | pullStamp | pullSearch | pullFetch | hydrate | pullRead | pullWrite
  | pushSearch | hashRead | pushFetch | pushWrite | record | relink
  | stamp
  deriving DecidableEq, Repr

/-- `PreviousExternalRef`, which not every store answers. -/
inductive RefHistory where
  | unavailable
  | unrecorded
  | recorded (ref : List Char)
  deriving DecidableEq, Repr

/-- The edits made right before each call, the calls that fail though `Sync` goes on, and how long
the writes take; the rows of the hierarchy, child before parent, and whether a batch push leaves the
issue alone. -/
structure Course (κ : Type) where
  edits : Call → List (Edit κ)
  fails : Call → Bool
  delay : Call → Nat
  history : RefHistory
  parentChild : List (List Char × List Char) := []
  batchSkips : Bool := false

section

variable (s : State κ)

variable (course : Course κ)

def State.reach (call : Call) : State κ := (course.edits call).foldl State.edit s

inductive ConflictResolution where
  | timestamp
  | local_
  | external
  deriving DecidableEq, Repr

structure SyncOptions where
  pull : Bool := false
  push : Bool := false
  dryRun : Bool := false
  createOnly : Bool := false
  state : String := ""
  conflictResolution : ConflictResolution := .timestamp
  typeFilter : List String := []
  excludeTypes : List String := []
  excludeIdPrefix : List Char := []
  excludeIdPatterns : List (List Char) := []
  excludeEphemeral : Bool := false
  parentId : List Char := []
  issueIds : List (List Char) := []
  deriving DecidableEq, Repr

def SyncOptions.pulls (opts : SyncOptions) : Bool := opts.pull || !opts.push

def SyncOptions.pushes (opts : SyncOptions) : Bool := opts.push || !opts.pull

/-- A tracker that is a `BatchPushTracker` takes all issues in one call, which some can preview. -/
inductive Batch where
  | none
  | pushes
  | previews
  deriving DecidableEq, Repr

/-- The tracker with its hooks, and the issue: its ids on both sides, its external ref without
surrounding space, and what the filters read of its content. `inState` is the state filter of the
tracker's own search. -/
structure Engine (κ : Type) where
  contentEqual : Option (κ → κ → Bool)
  contentHash : Option (κ → List Char)
  targetScope : List Char
  externalRef : List Char
  batch : Batch := .none
  shouldImport : κ → Bool := fun _ => true
  shouldPush : κ → Bool := fun _ => true
  inState : String → κ → Bool := fun _ _ => true
  issuePrefix : List Char := "bd".toList
  issueId : List Char := "bd-1".toList
  identifier : List Char := "42".toList
  ephemeral : Bool := false
  issueType : κ → String := fun _ => "task"
  closed : κ → Bool := fun _ => false

structure Conflict where
  localUpdated : Nat
  externalUpdated : Nat
  deriving DecidableEq, Repr

def State.read : State κ := { s with seen := some s.extIssue.content }

/-- A search that fails is only warned about, a fetch that fails not even that. -/
def detectConflicts (s : State κ) : Option Conflict × State κ :=
  match s.lastSync with
  | none => (none, s)
  | some lastSync =>
    let s := s.reach course .detectSearch
    let issue := s.issue
    if course.fails .detectSearch || decide (issue.updatedAt ≤ lastSync) then (none, s)
    else
      let s := s.reach course .detectFetch
      if course.fails .detectFetch then (none, s)
      else (if lastSync < s.extIssue.updatedAt then some ⟨issue.updatedAt, s.extIssue.updatedAt⟩ else none, s.read)

/-- `skipPushIDs`, `forcePushIDs` and `allowPullOverwriteIDs`, for the one issue. -/
structure Verdict where
  skipPush : Bool
  forcePush : Bool
  allowPullOverwrite : Bool
  deriving DecidableEq, Repr

def keepLocal : Verdict := ⟨false, true, false⟩

def keepExternal : Verdict := ⟨true, false, true⟩

def resolveConflicts (resolution : ConflictResolution) : Option Conflict → Verdict
  | none => ⟨false, false, false⟩
  | some conflict =>
    match resolution with
    | .local_ => keepLocal
    | .external => keepExternal
    | .timestamp => if conflict.externalUpdated < conflict.localUpdated then keepLocal else keepExternal

/-- Without a history the issue's own times have to do. -/
def externalRefChangedAfter (history : RefHistory) (currentRef : List Char) (issue : LocalIssue κ) (lastSync : Nat) : Bool :=
  match history with
  | .unavailable => decide (lastSync < issue.createdAt) || decide (lastSync < issue.updatedAt)
  | .unrecorded => true
  | .recorded ref => ref != currentRef

def isBeadId (issuePrefix id : List Char) : Bool := !issuePrefix.isEmpty && (issuePrefix ++ ['-']).isPrefixOf id

/-- One of the `IssueIDs` of a pull asks for the issue. -/
def Engine.names (engine : Engine κ) (id : List Char) : Bool :=
  id == if isBeadId engine.issuePrefix id then engine.issueId else engine.identifier

/-- The issue as the tracker returns it, and whether it was fetched as one that got its ref since
the last sync. Ids that are asked for are fetched one by one, the issue under one of them. -/
def fetchIssue (engine : Engine κ) (opts : SyncOptions) (course : Course κ) (lastSync : Option Nat)
    (issue : LocalIssue κ) (s : State κ) : Option (ExtIssue κ × Bool) × State κ :=
  if opts.issueIds ≠ [] ∧ opts.issueIds.any engine.names = false then (none, s)
  else
    let s := s.reach course .pullFetch
    if opts.issueIds ≠ [] then
      if course.fails .pullFetch then (none, s) else (some (s.extIssue, false), s.read)
    else if lastSync.all (fun lastSync => decide (lastSync < s.extIssue.updatedAt)) &&
      engine.inState opts.state s.extIssue.content then
      (some (s.extIssue, false), s.read)
    else if lastSync.any (externalRefChangedAfter course.history engine.externalRef issue) then
      let s := s.reach course .hydrate
      (some (s.extIssue, true), s.read)
    else (none, s)

def State.agree (issue : LocalIssue κ) (ext : ExtIssue κ) : State κ :=
  { s with localSettled := issue.edits, extSettled := ext.edits }

/-- `ApplyIssueUpdate` with the content that was fetched. -/
def State.overwriteIssue (ext : ExtIssue κ) (reported : Bool) (delay : Nat) : State κ :=
  let s := s.tick delay
  { s with
    issue := { s.issue with content := ext.content, updatedAt := s.now }
    log := .replaced .beads s.localPending reported :: s.log
    localSettled := s.issue.edits
    extSettled := ext.edits }

section

variable [DecidableEq κ] (engine : Engine κ) (opts : SyncOptions) (course : Course κ)

/-- The local issue is read again; one modified since the last sync is left alone. The answer is
whether a write was tried. -/
def importIssue (lastSync : Option Nat) (allowOverwrite reported : Bool)
    (searched : LocalIssue κ) (ext : ExtIssue κ) (hydrated : Bool) (s : State κ) : Bool × State κ :=
  if !engine.shouldImport ext.content then (false, s)
  else
    let s := s.reach course .pullRead
    let existing := if course.fails .pullRead then searched else s.issue
    if lastSync.any (fun lastSync => decide (lastSync < existing.updatedAt)) && !allowOverwrite && !hydrated then (false, s)
    else if existing.content = ext.content then (false, s.agree existing ext)
    else if opts.dryRun then (false, s)
    else
      let s := s.reach course .pullWrite
      if course.fails .pullWrite then (true, s) else (true, s.overwriteIssue ext reported (course.delay .pullWrite))

/-- Whether the push has to leave the issue alone because it was pulled. A `last_sync` that cannot
be read counts as none. -/
def doPull (allowOverwrite reported : Bool) (s : State κ) : Bool × State κ :=
  let lastSync := if course.fails .pullStamp then none else s.lastSync
  let s := s.reach course .pullSearch
  let searched := s.issue
  match fetchIssue engine opts course lastSync searched s with
  | (none, s) => (false, s)
  | (some (ext, hydrated), s) => importIssue engine opts course lastSync allowOverwrite reported searched ext hydrated s

end

def byteLength (text : List Char) : Nat := (text.map Char.utf8Size).sum

/-- The content hash bound to its target, each part behind its length. Nothing
is stored without a hash. -/
def Engine.pushCacheValue (engine : Engine κ) (content : κ) : List Char :=
  match engine.contentHash with
  | none => []
  | some contentHash =>
    let hash := contentHash content
    if hash = [] ∨ engine.externalRef = [] then []
    else "v3:".toList ++ (Nat.toDigits 10 (byteLength hash) ++ ':' :: (hash ++ (Nat.toDigits 10 (byteLength engine.targetScope) ++
      ':' :: (engine.targetScope ++ engine.externalRef))))

def storedPushHashMatches (engine : Engine κ) (course : Course κ) (s : State κ) (content : κ) : Bool :=
  let current := engine.pushCacheValue content
  current != [] && !course.fails .hashRead && s.pushHash == some current

def recordPushHash (engine : Engine κ) (course : Course κ) (content : κ) (s : State κ) : State κ :=
  let value := engine.pushCacheValue content
  if value = [] ∨ course.fails .record then s else { s with pushHash := some value }

def State.overwriteExt (issue : LocalIssue κ) (reported : Bool) (delay : Nat) : State κ :=
  let s := s.tick delay
  { s with
    extIssue := { s.extIssue with content := issue.content, updatedAt := s.now }
    log := .replaced .tracker s.extPending reported :: s.log
    localSettled := issue.edits
    extSettled := s.extIssue.edits
    seen := some issue.content }

end

def updateIssue (engine : Engine κ) (course : Course κ) (reported : Bool) (issue : LocalIssue κ) (s : State κ) : State κ :=
  let s := s.reach course .pushWrite
  if course.fails .pushWrite then s
  else recordPushHash engine course issue.content (s.overwriteExt issue reported (course.delay .pushWrite))

/-- The check before the update. An issue that cannot be fetched is updated without it. -/
def pushIssue (engine : Engine κ) (course : Course κ) (reported : Bool) (issue : LocalIssue κ) (s : State κ) : State κ :=
  if storedPushHashMatches engine course s issue.content then { s with log := .skipped issue.content s.seen :: s.log }
  else
    let s := s.reach course .pushFetch
    if course.fails .pushFetch then updateIssue engine course reported issue s
    else
      match engine.contentEqual with
      | some contentEqual =>
        if contentEqual issue.content s.extIssue.content then
          recordPushHash engine course issue.content (s.read.agree issue s.extIssue)
        else updateIssue engine course reported issue s.read
      | none => if s.extIssue.updatedAt < issue.updatedAt then updateIssue engine course reported issue s.read else s.read

/-- `applyBatchPushResult` writes the ref, the same as before, and so touches the issue. -/
def relink (course : Course κ) (s : State κ) : State κ :=
  let s := s.reach course .relink
  if course.fails .relink then s
  else
    let s := s.tick (course.delay .relink)
    { s with issue := { s.issue with updatedAt := s.now } }

/-- The tracker decides on its own what it updates; the engine keeps no hash of it. -/
def batchPush (course : Course κ) (reported : Bool) (issue : LocalIssue κ) (s : State κ) : State κ :=
  let s := s.reach course .pushWrite
  if course.fails .pushWrite || course.batchSkips then s
  else relink course (s.overwriteExt issue reported (course.delay .pushWrite))

def buildDescendantSet (parentChild : List (List Char × List Char)) (parentId : List Char) : List (List Char) :=
  Worklist.drain (fun parent => (parentChild.filter fun row => row.2 == parent).map Prod.fst) (parentChild.length + 1)
    [parentId] [parentId]

def Engine.shouldPushIssue (engine : Engine κ) (opts : SyncOptions) (content : κ) : Bool :=
  !(opts.excludeEphemeral && engine.ephemeral) &&
  (opts.typeFilter.isEmpty || opts.typeFilter.contains (engine.issueType content)) &&
  !opts.excludeTypes.contains (engine.issueType content) &&
  !(!opts.excludeIdPrefix.isEmpty && opts.excludeIdPrefix.isPrefixOf engine.issueId) &&
  !opts.excludeIdPatterns.any (fun pattern => !pattern.isEmpty && decide (pattern <:+: engine.issueId)) &&
  !(opts.state == "open" && engine.closed content)

/-- The issue is among those that the options leave for the push. -/
def Engine.eligible (engine : Engine κ) (opts : SyncOptions) (course : Course κ) (content : κ) : Bool :=
  (opts.issueIds.isEmpty || opts.issueIds.contains engine.issueId) &&
  (opts.parentId.isEmpty || (buildDescendantSet course.parentChild opts.parentId).contains engine.issueId) &&
  engine.shouldPushIssue opts content && engine.shouldPush content

/-- A preview; one of a batch is up to the tracker, if it offers one. -/
def previewPush (engine : Engine κ) (course : Course κ) (force : Bool) (issue : LocalIssue κ) (s : State κ) : State κ :=
  if engine.batch ≠ .previews ∧ force = false ∧ storedPushHashMatches engine course s issue.content = true then
    { s with log := .skipped issue.content s.seen :: s.log }
  else s

def doPush (engine : Engine κ) (opts : SyncOptions) (course : Course κ) (skip force reported : Bool) (s : State κ) : State κ :=
  let s := s.reach course .pushSearch
  if skip || !engine.eligible opts course s.issue.content || opts.createOnly && !force then s
  else if opts.dryRun then previewPush engine course force s.issue s
  else if engine.batch ≠ .none then batchPush course reported s.issue s
  else if force then updateIssue engine course reported s.issue s
  else pushIssue engine course reported s.issue s

def nextSecond (now : Nat) : Nat := now / 10 ^ 9 * 10 ^ 9 + 10 ^ 9

/-- A dry run leaves `last_sync` as it is. -/
def stampLastSync (opts : SyncOptions) (course : Course κ) (s : State κ) : State κ :=
  let s := (s.reach course .stamp).tick (course.delay .stamp)
  if opts.dryRun || course.fails .stamp then s else { s with lastSync := some (nextSecond s.now) }

def sync [DecidableEq κ] (engine : Engine κ) (opts : SyncOptions) (course : Course κ) (s : State κ) : State κ :=
  let detected := if opts.pulls && opts.pushes then detectConflicts course s else (none, s)
  let verdict := resolveConflicts opts.conflictResolution detected.1
  let reported := detected.1.isSome
  let pulled := if opts.pulls then doPull engine opts course verdict.allowPullOverwrite reported detected.2
    else (false, detected.2)
  let pushed := if opts.pushes then
      doPush engine opts course (verdict.skipPush || pulled.1) verdict.forcePush reported pulled.2
    else pulled.2
  stampLastSync opts course pushed

inductive Step (κ : Type) where
  | edit (edit : Edit κ)
  | sync (opts : SyncOptions) (course : Course κ)

def step [DecidableEq κ] (engine : Engine κ) (s : State κ) : Step κ → State κ
  | .edit edit => s.edit edit
  | .sync opts course => Tracker.sync engine opts course s

def run [DecidableEq κ] (engine : Engine κ) (steps : List (Step κ)) (s : State κ) : State κ :=
  steps.foldl (step engine) s

/-- Every step meets the condition in the state that it is taken in. -/
def Along [DecidableEq κ] (engine : Engine κ) (meets : State κ → Step κ → Prop) : List (Step κ) → State κ → Prop
  | [], _ => True
  | first :: rest, s => meets s first ∧ Along engine meets rest (step engine s first)

theorem run_keeps [DecidableEq κ] {engine : Engine κ} {meets : State κ → Step κ → Prop} {invariant : State κ → Prop}
    (keeps : ∀ s taken, invariant s → meets s taken → invariant (step engine s taken)) {steps : List (Step κ)} {s : State κ}
    (start : invariant s) (along : Along engine meets steps s) : invariant (run engine steps s) := by
  induction steps generalizing s with
  | nil => exact start
  | cons first rest ih => exact ih (keeps s first start along.1) along.2

end Beads.Tracker
