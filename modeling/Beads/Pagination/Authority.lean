import Beads.Data.KeyedTable
import Beads.Data.Fallible

/-! A first page takes a snapshot of a whole collection and mints one cursor for
every later page. -/

namespace Beads

/-- A parsed continuation: scheme, host and path, and the pairs of its query. -/
structure PageUrl where
  target : String
  query : List (String × String)
  deriving DecidableEq, Repr

namespace PageUrl

def has (url : PageUrl) (key : String) : Bool := url.query.any fun pair => pair.1 = key

def get? (url : PageUrl) (key : String) : Option String := url.query.lookup key

def set (url : PageUrl) (key value : String) : PageUrl :=
  { url with query := (url.query.filter fun pair => pair.1 ≠ key) ++ [(key, value)] }

end PageUrl

/-- What the authority asks of its libraries: URLs, JSON and base64. -/
structure PaginationHost where
  parseUrl : String → Option PageUrl
  queryParses : String → Bool
  render : PageUrl → String
  confined : String → String → PageUrl → Bool
  validScope : String → Bool
  jsonValid : List UInt8 → Bool
  decodesToken : String → Bool

structure PaginationError where
  code : String
  reason : String
  deriving DecidableEq, Repr

structure PaginationOptions where
  scopeUrl : String
  defaultPageItems : Int := 100
  maxPageItems : Int := 1000
  maxSnapshots : Int := 32
  maxCursorPositions : Int := 4096
  maxCursorPositionsPerSnapshot : Int := 999
  maxSnapshotItems : Int := 1000
  maxSnapshotBytes : Int := 8388608
  maxRetainedBytes : Int := 33554432
  cursorTtl : Int := 300000000000
  deriving DecidableEq, Repr

/-- The fences of a request: authorization view, epoch and projection. -/
@[ext] structure PageFences where
  view : String
  epoch : String
  projection : String
  deriving DecidableEq, Repr

structure FirstPageInput where
  items : List (List UInt8)
  limit : Int
  fences : PageFences
  continuationUrl : String
  deriving DecidableEq, Repr

structure ContinuationInput where
  token : String
  fences : PageFences
  deriving DecidableEq, Repr

def laterPages (count limit : Nat) : Nat := if limit < count then (count - 1) / limit else 0

structure PageSnapshot where
  address : Nat
  items : List (List UInt8)
  limit : Nat
  bytes : Int
  fences : PageFences
  continuation : PageUrl
  expires : Int
  tokens : List String
  positive : 0 < limit
  covered : tokens.length = laterPages items.length limit

structure PageCursor where
  snapshot : PageSnapshot
  offset : Nat

structure Page where
  items : List (List UInt8)
  next : Option PageUrl
  deriving DecidableEq, Repr

structure Pagination where
  options : PaginationOptions
  snapshots : List PageSnapshot := []
  cursors : KeyedTable String PageCursor := {}
  retainedBytes : Int := 0
  epoch : String := ""
  closed : Bool := false
  lastTime : Int := 0
  allocated : Nat := 0

def paginationContextLimit : Nat := 32768

def isSpace (c : Char) : Bool :=
  c.toNat ∈ [0x09, 0x0a, 0x0b, 0x0c, 0x0d, 0x20, 0x85, 0xa0, 0x1680, 0x2028, 0x2029, 0x202f, 0x205f,
    0x3000] || (0x2000 ≤ c.toNat && c.toNat ≤ 0x200a)

def pageIdentity (s : String) : Bool := s.utf8ByteSize ≤ paginationContextLimit && s.toList.any fun c => !isSpace c

def PageFences.identities (fences : PageFences) : Bool :=
  pageIdentity fences.view && pageIdentity fences.epoch && pageIdentity fences.projection

def newPagination (host : PaginationHost) (options : PaginationOptions) : Except PaginationError Pagination :=
  if paginationContextLimit < options.scopeUrl.utf8ByteSize ∨ !host.validScope options.scopeUrl then
    .error ⟨"configuration-error", "Scope must be a canonical HTTP URL ending in slash"⟩
  else if (host.parseUrl options.scopeUrl).isNone then .error ⟨"configuration-error", "Scope URL cannot be parsed"⟩
  else if [options.defaultPageItems, options.maxPageItems, options.maxSnapshots,
      options.maxCursorPositions, options.maxCursorPositionsPerSnapshot, options.maxSnapshotItems,
      options.maxSnapshotBytes, options.maxRetainedBytes].any fun n => n ≤ 0 then
    .error ⟨"configuration-error", "all capacity bounds must be positive"⟩
  else if options.maxPageItems < options.defaultPageItems ∨ options.maxCursorPositions < options.maxCursorPositionsPerSnapshot ∨
      options.maxRetainedBytes < options.maxSnapshotBytes ∨ options.cursorTtl ≤ 0 then
    .error ⟨"configuration-error", "inconsistent pagination bounds"⟩
  else .ok { options }

def PageSnapshot.page (s : PageSnapshot) (offset : Nat) : Page :=
  let stop := offset + min s.limit (s.items.length - offset)
  { items := (s.items.take stop).drop offset
    next := if stop < s.items.length then s.tokens[stop / s.limit - 1]?.map (s.continuation.set "cursor") else none }

namespace Pagination

variable (host : PaginationHost)

def continuation (p : Pagination) (value : String) : Except PaginationError PageUrl :=
  if paginationContextLimit < value.utf8ByteSize then .error ⟨"invalid-input", "continuation URL exceeds operational bound"⟩
  else
    match host.parseUrl value with
    | none => .error ⟨"invalid-input", "continuation URL must be canonical and confined to Scope"⟩
    | some url =>
      if !host.confined p.options.scopeUrl value url then
        .error ⟨"invalid-input", "continuation URL must be canonical and confined to Scope"⟩
      else if !host.queryParses value || url.has "cursor" then
        .error ⟨"invalid-input", "continuation URL must not contain a cursor"⟩
      else if paginationContextLimit < (host.render (url.set "cursor" (String.ofList (List.replicate 43 'A')))).utf8ByteSize then
        .error ⟨"invalid-input", "continuation target exceeds operational bound"⟩
      else .ok url

def limit (p : Pagination) (limit : Int) : Except PaginationError { n : Nat // 0 < n } :=
  let asked := if limit = 0 then p.options.defaultPageItems else limit
  if within : 1 ≤ asked ∧ asked ≤ p.options.maxPageItems then .ok ⟨asked.toNat, by omega⟩
  else .error ⟨"invalid-limit", "page size outside configured range"⟩

def clock (p : Pagination) (now : Int) : Int := if now < p.lastTime then p.lastTime else now

def tick (p : Pagination) (now : Int) : Pagination := { p with lastTime := p.clock now }

def release (p : Pagination) (s : PageSnapshot) : Pagination :=
  if s.address ∈ p.snapshots.map PageSnapshot.address then
    { p with
      snapshots := p.snapshots.filter fun other => other.address ≠ s.address
      retainedBytes := p.retainedBytes - s.bytes
      cursors := p.cursors.removeWhere fun token => decide (token ∈ s.tokens) }
  else p

def releaseAll (p : Pagination) : Pagination := p.snapshots.foldl release p

def cleanup (p : Pagination) (now : Int) : Pagination :=
  (p.snapshots.filter fun s => decide (s.expires ≤ now)).foldl release p

def snapshotBytes (maxSnapshotBytes : Int) : Int → List (List UInt8) → Except PaginationError Int
  | bytes, [] => .ok bytes
  | bytes, item :: rest =>
    if maxSnapshotBytes - bytes < item.length then .error ⟨"capacity-exceeded", "snapshot byte bound"⟩
    else if !host.jsonValid item then .error ⟨"invalid-snapshot", "items must contain complete JSON values"⟩
    else snapshotBytes maxSnapshotBytes (bytes + item.length) rest

def checkFirstPage (p : Pagination) (input : FirstPageInput) :
    Except PaginationError ({ n : Nat // 0 < n } × PageUrl × Int) := do
  let limit ← p.limit input.limit
  if !input.fences.identities then .error ⟨"invalid-input", "authority fences must be nonempty bounded identities"⟩
  else do
    let continuation ← p.continuation host input.continuationUrl
    if p.options.maxSnapshotItems < input.items.length then .error ⟨"capacity-exceeded", "snapshot item bound"⟩
    else do
      let bytes ← snapshotBytes host p.options.maxSnapshotBytes 0 input.items
      return (limit, continuation, bytes)

/-- Up to `attempts` draws from the random source, until one is a token that is not in use. -/
def uniqueToken (p : Pagination) (pending : List String) : (attempts : Nat) → List (Option String) →
    Except PaginationError (String × List (Option String))
  | 0, _ => .error ⟨"token-generation-failed", "opaque token collision or invalid entropy"⟩
  | _ + 1, [] => .error ⟨"token-generation-failed", "random source failed"⟩
  | _ + 1, none :: _ => .error ⟨"token-generation-failed", "random source failed"⟩
  | attempts + 1, some token :: draws =>
    if token.utf8ByteSize ≠ 43 then p.uniqueToken pending attempts draws
    else if !host.decodesToken token then p.uniqueToken pending attempts draws
    else if token ∈ pending then p.uniqueToken pending attempts draws
    else if (p.cursors.get? token).isSome then p.uniqueToken pending attempts draws
    else .ok (token, draws)

def mintTokens (p : Pagination) : (positions : Nat) → (pending : List String) → List (Option String) →
    Except PaginationError { tokens : List String // tokens.length = positions }
  | 0, _, _ => .ok ⟨[], rfl⟩
  | positions + 1, pending, draws => do
      let (token, draws) ← p.uniqueToken host pending 8 draws
      let later ← p.mintTokens positions (pending ++ [token]) draws
      return ⟨token :: later.1, congrArg Nat.succ later.2⟩

def addCursors (s : PageSnapshot) : (index : Nat) → List String → KeyedTable String PageCursor → KeyedTable String PageCursor
  | _, [], cursors => cursors
  | index, token :: later, cursors => addCursors s (index + 1) later (cursors.insert token ⟨s, (index + 1) * s.limit⟩)

def retain (p : Pagination) (s : PageSnapshot) : Pagination :=
  { p with
    snapshots := p.snapshots ++ [s]
    retainedBytes := p.retainedBytes + s.bytes
    cursors := addCursors s 0 s.tokens p.cursors
    allocated := p.allocated + 1 }

def closedError : PaginationError := ⟨"configuration-error", "pagination is closed"⟩

def enterEpoch (p : Pagination) (epoch : String) : Pagination :=
  { (if p.epoch ≠ "" ∧ p.epoch ≠ epoch then p.releaseAll else p) with epoch }

def exhausted (p : Pagination) (positions : Nat) (bytes : Int) : Bool :=
  0 < positions && (p.options.maxCursorPositionsPerSnapshot < positions || p.options.maxSnapshots ≤ p.snapshots.length ||
    p.options.maxCursorPositions - p.cursors.entries.length < positions || p.options.maxRetainedBytes - p.retainedBytes < bytes)

def sweep (p : Pagination) (reading : Int) : Pagination :=
  (p.tick reading).cleanup (p.clock reading)

/-- A first page from a snapshot, which is kept if it has more pages than one. Every token is minted
before that. -/
def takeSnapshot (p : Pagination) (now : Int) (input : FirstPageInput)
    (draws : List (Option String)) (limit : { n : Nat // 0 < n })
    (continuation : PageUrl) (bytes : Int) : Except PaginationError Page × Pagination :=
  let positions := laterPages input.items.length limit.1
  if p.exhausted positions bytes then (.error ⟨"capacity-exceeded", "active snapshot capacity exhausted"⟩, p)
  else
    match p.mintTokens host positions [] draws with
    | .error refusal => (.error refusal, p)
    | .ok tokens =>
      let s : PageSnapshot :=
        { address := p.allocated, items := input.items, limit := limit.1, bytes, fences := input.fences, continuation,
          expires := now + p.options.cursorTtl, tokens := tokens.1, positive := limit.2, covered := tokens.2 }
      (.ok (s.page 0), if positions = 0 then p else p.retain s)

def firstPage (p : Pagination) (reading : Int) (input : FirstPageInput)
    (draws : List (Option String)) : Except PaginationError Page × Pagination :=
  if p.closed then (.error closedError, p)
  else
    match (p.sweep reading).checkFirstPage host input with
    | .error refusal => (.error refusal, p.sweep reading)
    | .ok (limit, continuation, bytes) =>
      ((p.sweep reading).enterEpoch input.fences.epoch).takeSnapshot host (p.clock reading) input draws limit continuation bytes

def continuePage (p : Pagination) (reading : Int) (input : ContinuationInput) : Except PaginationError Page × Pagination :=
  if p.closed then (.error closedError, p)
  else
    match p.cursors.get? input.token with
    | none => (.error ⟨"cursor-expired", "unknown"⟩, p.sweep reading)
    | some cursor =>
      let s := cursor.snapshot
      if s.expires ≤ p.clock reading then
        (.error ⟨"cursor-expired", "expired"⟩, ((p.tick reading).release s).cleanup (p.clock reading))
      else if !input.fences.identities then
        (.error ⟨"invalid-input", "authority fences must be nonempty bounded identities"⟩, p.sweep reading)
      else if input.fences.epoch ≠ s.fences.epoch then
        (.error ⟨"cursor-expired", "epoch-changed"⟩, (p.sweep reading).release s)
      else if input.fences.view ≠ s.fences.view then
        (.error ⟨"foreign-view", "authorization projection changed"⟩, p.sweep reading)
      else if input.fences.projection ≠ s.fences.projection then
        (.error ⟨"foreign-projection", "collection projection changed"⟩, p.sweep reading)
      else (.ok (s.page cursor.offset), p.sweep reading)

def cleanupExpired (p : Pagination) (reading : Int) : Pagination := p.sweep reading

def close (p : Pagination) : Pagination := { p with closed := true }.releaseAll

end Pagination

/-- A call of some client, with the reading of the clock and the draws of the
random source that it meets. -/
inductive PageCall where
  | firstPage (reading : Int) (input : FirstPageInput) (draws : List (Option String))
  | continuePage (reading : Int) (input : ContinuationInput)
  | cleanupExpired (reading : Int)
  | close
  deriving DecidableEq, Repr

def PageCall.reading? : PageCall → Option Int
  | .firstPage reading _ _ => some reading
  | .continuePage reading _ => some reading
  | .cleanupExpired reading => some reading
  | .close => none

namespace Pagination

variable (host : PaginationHost)

def step (p : Pagination) : PageCall → Pagination
  | .firstPage reading input draws => (p.firstPage host reading input draws).2
  | .continuePage reading input => (p.continuePage reading input).2
  | .cleanupExpired reading => p.cleanupExpired reading
  | .close => p.close

def run (p : Pagination) (calls : List PageCall) : Pagination := calls.foldl (step host) p

/-- The calls that end a snapshot before it expires: closing, a well-formed first page under another
epoch, and one of its own cursors under another epoch. -/
def cancels (p : Pagination) (s : PageSnapshot) : PageCall → Bool
  | .firstPage _ input _ => (p.checkFirstPage host input).isOk && decide (input.fences.epoch ≠ s.fences.epoch)
  | .continuePage _ input =>
    decide (input.token ∈ s.tokens) && input.fences.identities && decide (input.fences.epoch ≠ s.fences.epoch)
  | .cleanupExpired _ => false
  | .close => true

end Pagination

end Beads
