import Beads.Create.Batch
import Beads.Create.Upsert
import Beads.Data.Text

/-! An issue without an id gets one from a hash that is probed against its own table or, in counter
mode, from the counter of its prefix. A child id comes from the counter of its parent, which the
creates advance past the children they write. Issues and wisps share one space of ids. -/

namespace Beads

/-- The item tables of the two planes and the counters, each under a foreign key with a cascade to
its parent's row. -/
structure CreateStore where
  items : Plane → KeyedTable Id IssueRow := fun _ => {}
  issueCounter : KeyedTable String Nat := {}
  childCounters : Plane → KeyedTable Id Nat := fun _ => {}

/-- An issue to create, with the token its row write draws. -/
structure CreateRequest where
  id : Id := ""
  plane : Plane := .issue
  prefixOverride : String := ""
  idPrefix : String := ""
  row : IssueRow
  token : Nat := 0

/-- The options and the configuration a create reads; `valid` stands for the checks of the fields
and of an explicit id's prefix, `hashSuffix` for the digest. -/
structure CreateContext where
  opts : BatchCreateOptions := {}
  configPrefix : String := "bd"
  counterMode : Bool := false
  valid : CreateRequest → Bool := fun _ => true
  adaptiveIdLength : KeyedTable Id IssueRow → String → Nat := fun _ _ => 6
  hashSuffix : CreateRequest → (length nonce : Nat) → String

inductive IdError where
  | exhausted (idPrefix : String)
  | counterOutOfRange (counter : String)
  | noParent (parentId : Id)
  | notFound (id : Id)
  | create (error : CreateError)
  deriving DecidableEq, Repr

def maxCounter : Nat := 2 ^ 31 - 1

namespace CreateStore

variable (store : CreateStore)

def stored (plane : Plane) (id : Id) : Bool := ((store.items plane).get? id).isSome

def isActiveWisp (id : Id) : Bool := store.stored .wisp id

def routedPlane (id : Id) : Plane := if store.isActiveWisp id then .wisp else .issue

def ids (plane : Plane) : List Id := (store.items plane).entries.map Prod.fst

variable (idPrefix : String)

def counterId (number : Nat) : Id := idPrefix ++ "-" ++ Nat.repr number

def counterSuffix? (id : Id) : Option Int :=
  let dashed := idPrefix.toList ++ ['-']
  let suffix := if dashed.isPrefixOf id.toList then id.toList.drop dashed.length else id.toList
  if '.' ∈ suffix then none else Text.int64? suffix

def highestSuffix : Nat :=
  let matching := (store.ids .issue).filter fun id => Text.like (idPrefix.toList ++ ['-', '%']) id.toList
  Text.highest 0 (matching.filterMap (counterSuffix? idPrefix))

def seedCounterFromExistingIssues : KeyedTable String Nat :=
  match store.issueCounter.get? idPrefix with
  | some _ => store.issueCounter
  | none =>
    let highest := store.highestSuffix idPrefix
    if 0 < highest then store.issueCounter.insert idPrefix highest else store.issueCounter

def nextCounterId : Except IdError (Id × KeyedTable String Nat) :=
  let seeded := store.seedCounterFromExistingIssues idPrefix
  let nextId := (seeded.get? idPrefix).elim 1 (· + 1)
  if nextId ≤ maxCounter then .ok (counterId idPrefix nextId, seeded.insert idPrefix nextId)
  else .error (.counterOutOfRange idPrefix)

def generateIssueIdInTable (context : CreateContext) (idPrefix : String) (request : CreateRequest) :
    Except IdError (Id × KeyedTable String Nat) :=
  -- Counter mode is for the issues table only.
  if request.plane == .issue && context.counterMode then store.nextCounterId idPrefix
  else
    let table := store.items request.plane
    let baseLength := min (context.adaptiveIdLength table idPrefix) 8
    let candidates := (List.range' baseLength (9 - baseLength)).flatMap fun length =>
      (List.range 10).map fun nonce => idPrefix ++ "-" ++ context.hashSuffix request length nonce
    match candidates.find? fun candidate => (table.get? candidate).isNone with
    | some candidate => .ok (candidate, store.issueCounter)
    | none => .error (.exhausted idPrefix)

def requestedPrefix (configPrefix : String) (request : CreateRequest) : String :=
  if request.prefixOverride ≠ "" then request.prefixOverride
  else if request.idPrefix ≠ "" then configPrefix ++ "-" ++ request.idPrefix
  else match request.plane with
    | .wisp => configPrefix ++ "-wisp"
    | .issue => configPrefix

def assignCreateIssueId (context : CreateContext) (request : CreateRequest) : Except IdError (Id × KeyedTable String Nat) :=
  if request.id = "" then store.generateIssueIdInTable context (requestedPrefix context.configPrefix request) request
  else .ok (request.id, store.issueCounter)

end CreateStore

inductive CreateOutcome where
  /-- The id lives in the other plane and the options tolerate it: nothing is written. -/
  | skipped
  | staleRejected
  | accepted (isNew : Bool)
  deriving DecidableEq, Repr

structure CreatedRow where
  id : Id
  plane : Plane
  outcome : CreateOutcome
  store : CreateStore

namespace CreateStore

variable (store : CreateStore)

def checkCreateOnly (opts : BatchCreateOptions) (id : Id) : Except IdError Unit :=
  if opts.createOnly && (store.stored .issue id || store.stored .wisp id) then .error (.create (.alreadyExists id)) else .ok ()

def checkCrossTableIdCollision (opts : BatchCreateOptions) (plane : Plane) (id : Id) : Except IdError Bool :=
  if store.stored plane.sibling id then
    if opts.conflictSkip then .ok true else .error (.create (.crossTableIdCollision id plane.sibling))
  else .ok false

def setItems (plane : Plane) (table : KeyedTable Id IssueRow) : CreateStore :=
  { store with items := Function.update store.items plane table }

/-- `CreateIssueInTxWithResult` up to the write of the row. -/
def createRow (context : CreateContext) (request : CreateRequest) : Except IdError CreatedRow :=
  if !context.valid request then .error (.create (.invalidIssue request.id))
  else
    (store.assignCreateIssueId context request).bind fun (id, counter) =>
    let numbered := { store with issueCounter := counter }
    (numbered.checkCreateOnly context.opts id).bind fun () =>
    (numbered.checkCrossTableIdCollision context.opts request.plane id).bind fun skip =>
    if skip then .ok ⟨id, request.plane, .skipped, numbered⟩
    else
      match insertIssueIfNew context.opts request.token (numbered.items request.plane) id request.row with
      | .error error => .error (.create error)
      | .ok result =>
        let outcome := if result.staleRejected then .staleRejected else .accepted result.isNew
        .ok ⟨id, request.plane, outcome, numbered.setItems request.plane result.table⟩

end CreateStore

def parseHierarchicalId (id : Id) : Option (Id × Int) :=
  (Text.splitLast '.' id.toList).bind fun (parent, suffix) =>
    (Text.scanInt64? suffix).map fun number => (String.ofList parent, number)

def childId (parentId : Id) (number : Nat) : Id := parentId ++ "." ++ Nat.repr number

namespace CreateStore

variable (store : CreateStore)

def counter (plane : Plane) (parentId : Id) : Nat :=
  ((store.childCounters plane).get? parentId).getD 0

/-- `INSERT … ON DUPLICATE KEY UPDATE` of a counter: the value fits its column
and the parent has a row. -/
def setCounter (plane : Plane) (parentId : Id) (number : Nat) : Except IdError CreateStore :=
  if maxCounter < number then .error (.counterOutOfRange parentId)
  else if !store.stored plane parentId then .error (.noParent parentId)
  else .ok { store with
    childCounters := Function.update store.childCounters plane ((store.childCounters plane).insert parentId number) }

def scannedChildren (plane : Plane) (parentId : Id) : List Id :=
  (store.ids plane).filter fun id =>
    Text.like (parentId.toList ++ ['.', '%']) id.toList && !Text.like (parentId.toList ++ ['.', '%', '.', '%']) id.toList

def lastChild (plane : Plane) (parentId : Id) : Nat :=
  Text.highest (store.counter plane parentId)
    (((store.scannedChildren plane parentId).filterMap parseHierarchicalId).map Prod.snd)

def getNextChildId (parentId : Id) : Except IdError (Id × CreateStore) :=
  let plane := store.routedPlane parentId
  let nextChild := store.lastChild plane parentId + 1
  (store.setCounter plane parentId nextChild).map fun after => (childId parentId nextChild, after)

variable (accepted : List CreatedRow)

def maxChild (parentId : Id) : Nat :=
  Text.highest 0 (((accepted.filterMap fun created => parseHierarchicalId created.id).filter
    fun parsed => parsed.1 == parentId).map
    Prod.snd)

def parentPlane (parentId : Id) : Plane :=
  if accepted.any fun created => created.plane == .wisp && created.id == parentId then .wisp else store.routedPlane parentId

def reconcileParent (parentId : Id) : Except IdError CreateStore :=
  let highest := maxChild accepted parentId
  let plane := store.parentPlane accepted parentId
  if highest == 0 then .ok store
  -- An orphan's counter would have no owner.
  else if !store.stored plane parentId then .ok store
  else if highest ≤ store.counter plane parentId then .ok store
  else store.setCounter plane parentId (max (store.counter plane parentId) highest)

/-- `ReconcileChildCounters`. The parents are independent of each other, so
their order does not matter. -/
def reconcileChildCounters : Except IdError CreateStore :=
  (((accepted.filterMap fun created => parseHierarchicalId created.id).map Prod.fst).eraseDups).foldlM
    (fun store parentId => store.reconcileParent accepted parentId) store

/-- `deleteIssueRowInTx`, with the cascade to the counter. -/
def deleteIssue (id : Id) : Except IdError CreateStore :=
  let plane := store.routedPlane id
  if store.stored plane id then
    .ok { store with
      items := Function.update store.items plane ((store.items plane).erase id)
      childCounters := Function.update store.childCounters plane ((store.childCounters plane).erase id) }
  else .error (.notFound id)

end CreateStore

structure CreateMoment where
  before : CreateStore
  context : CreateContext
  request : CreateRequest
  created : CreatedRow

inductive CreateEvent where
  | created (moment : CreateMoment)
  | drawn (before : CreateStore) (parentId child : Id)
  | deleted (id : Id)

inductive CreateOperation where
  | createIssue (context : CreateContext) (request : CreateRequest)
  | createIssues (context : CreateContext) (requests : List CreateRequest)
  | getNextChildId (parentId : Id)
  | delete (id : Id)

namespace CreateStore

variable (store : CreateStore)

def createRows (context : CreateContext) : List CreateRequest → CreateStore → Except IdError (CreateStore × List CreateMoment)
  | [], store => .ok (store, [])
  | request :: rest, store =>
    (store.createRow context request).bind fun created =>
    (createRows context rest created.store).map fun (after, moments) => (after, ⟨store, context, request, created⟩ :: moments)

/-- A single create reconciles the counter only for a new row. -/
def createIssue (context : CreateContext) (request : CreateRequest) : Except IdError (CreateStore × List CreateMoment) :=
  (store.createRow context request).bind fun created =>
  let moment : CreateMoment := ⟨store, context, request, created⟩
  if created.outcome == .accepted true then (created.store.reconcileChildCounters [created]).map fun after => (after, [moment])
  else .ok (created.store, [moment])

/-- The batch reconciles the counters for every row but the stale ones. -/
def createIssues (context : CreateContext) (requests : List CreateRequest) : Except IdError (CreateStore × List CreateMoment) :=
  (createRows context requests store).bind fun (after, moments) =>
  let accepted := (moments.map CreateMoment.created).filter fun created => created.outcome != .staleRejected
  (after.reconcileChildCounters accepted).map fun reconciled => (reconciled, moments)

def execute : CreateOperation → Except IdError (CreateStore × List CreateEvent)
  | .createIssue context request => (store.createIssue context request).map fun (after, moments) =>
    (after, moments.map .created)
  | .createIssues context requests => (store.createIssues context requests).map
    fun (after, moments) => (after, moments.map .created)
  | .getNextChildId parentId => (store.getNextChildId parentId).map fun (child, after) => (after, [.drawn store parentId child])
  | .delete id => (store.deleteIssue id).map fun after => (after, [.deleted id])

/-- A run of transactions, one after the other; one that fails is rolled back. The events are in
their order. -/
def run : List CreateOperation → CreateStore → CreateStore × List CreateEvent
  | [], store => (store, [])
  | operation :: rest, store =>
    match store.execute operation with
    | .error _ => run rest store
    | .ok (after, events) => ((run rest after).1, events ++ (run rest after).2)

end CreateStore

end Beads
