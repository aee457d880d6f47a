import Beads.Data.CanonicalJson
import Beads.Data.GoTime

/-! Events are hashed over their canonical JSON text and chained by the hash of
the event before them. -/

namespace Beads

open GoTime

inductive LedgerEventKind where
  | mint | install | update | promote | rotate | allocate | tombstone | refuseUrl
  deriving DecidableEq, Repr

def LedgerEventKind.text : LedgerEventKind → String
  | .mint => "mint"
  | .install => "install"
  | .update => "update"
  | .promote => "promote"
  | .rotate => "rotate"
  | .allocate => "allocate"
  | .tombstone => "tombstone"
  | .refuseUrl => "refuse_url"

inductive ResourceKind where
  | bead | link
  deriving DecidableEq, Repr

def ResourceKind.text : ResourceKind → String
  | .bead => "bead"
  | .link => "link"

inductive AllocationState where
  | live | reserved | pruned | erased
  deriving DecidableEq, Repr

def AllocationState.text : AllocationState → String
  | .live => "live"
  | .reserved => "reserved"
  | .pruned => "pruned"
  | .erased => "erased"

structure Revision where
  token : String
  nonempty : token ≠ ""
  deriving DecidableEq

/-- The members of an event; the empty text is no member. -/
@[ext] structure LedgerEventSpec where
  seq : Nat
  kind : LedgerEventKind
  opId : String
  path : String := ""
  scopeUrl : String := ""
  resourceKind : Option ResourceKind := none
  revision : Option Revision := none
  state : Option AllocationState := none
  fingerprint : String := ""
  authorityId : String
  epoch : Nat
  atTime : Instant
  prevHash : String
  hash : String := ""
  deriving DecidableEq

def maxLedgerSeq : Nat := 2 ^ 64 - 2

def genesisHash : String := "0000000000000000000000000000000000000000000000000000000000000000"

/-- SHA-256 in hexadecimal digits, and the grammars of URLs and paths with their refusals. -/
structure LedgerHost where
  hashHex : List UInt8 → String
  scopeUrlRefusal? : String → Option String
  pathRefusal? : String → ResourceKind → Option String

def isLowerHex (s : String) (n : Nat) : Bool :=
  s.utf8ByteSize = n && s.toList.all fun c => ('0' ≤ c && c ≤ '9') || ('a' ≤ c && c ≤ 'f')

structure LedgerMembers where
  path : Bool := false
  scopeUrl : Bool := false
  resourceKind : Bool := false
  revision : Bool := false
  state : Bool := false
  fingerprint : Bool := false
  deriving DecidableEq, Repr

structure LedgerShape where
  required : LedgerMembers := {}
  allowed : LedgerMembers := {}

def ledgerShapes : LedgerEventKind → LedgerShape
  | .mint => { required := { scopeUrl := true }, allowed := { scopeUrl := true } }
  | .install => { required := { fingerprint := true }, allowed := { fingerprint := true } }
  | .update =>
    { required := { path := true, resourceKind := true, revision := true },
      allowed := { path := true, resourceKind := true, revision := true } }
  | .promote => {}
  | .rotate => { required := { scopeUrl := true }, allowed := { scopeUrl := true } }
  | .refuseUrl => { required := { scopeUrl := true }, allowed := { scopeUrl := true } }
  | .allocate =>
    { required := { path := true, resourceKind := true }, allowed := { path := true, resourceKind := true, revision := true } }
  | .tombstone =>
    { required := { path := true, resourceKind := true, state := true },
      allowed := { path := true, resourceKind := true, state := true, revision := true } }

namespace LedgerEventSpec

variable (spec : LedgerEventSpec)

def present : LedgerMembers where
  path := spec.path ≠ ""
  scopeUrl := spec.scopeUrl ≠ ""
  resourceKind := spec.resourceKind.isSome
  revision := spec.revision.isSome
  state := spec.state.isSome
  fingerprint := spec.fingerprint ≠ ""

def memberRefusal? : Option String :=
  let shape := ledgerShapes spec.kind
  [("path", spec.present.path, shape.required.path, shape.allowed.path),
    ("scope_url", spec.present.scopeUrl, shape.required.scopeUrl, shape.allowed.scopeUrl),
    ("resource_kind", spec.present.resourceKind, shape.required.resourceKind, shape.allowed.resourceKind),
    ("revision", spec.present.revision, shape.required.revision, shape.allowed.revision),
    ("state", spec.present.state, shape.required.state, shape.allowed.state),
    ("fingerprint", spec.present.fingerprint, shape.required.fingerprint, shape.allowed.fingerprint)].findSome?
    fun (name, present, required, allowed) =>
      if required && !present then some (name ++ " is required")
      else if present && !allowed then some (name ++ " is not a member of this kind")
      else none

def truncated : LedgerEventSpec := { spec with atTime := spec.atTime.truncate 1000 }

open Text in
/-- The layout `2006-01-02T15:04:05.000000Z07:00`, whose zone is `Z` in UTC. -/
def formatAt (instant : Instant) : List Char :=
  let date := civil instant.days
  (if date.year < 0 then ['-'] else []) ++ padded 4 date.year.natAbs ++
    '-' :: padded 2 date.month.toNat ++ '-' :: padded 2 date.day.toNat ++
    'T' :: padded 2 (instant.clock / 3600).toNat ++ ':' :: padded 2 (instant.clock / 60 % 60).toNat ++
    ':' :: padded 2 (instant.clock % 60).toNat ++ '.' :: padded 6 (instant.nsec / 1000) ++ ['Z']

open CanonicalJson in
def optional (value : String) : Option Scalar := if value = "" then none else some (.text value.toList)

open CanonicalJson in
def wire : List (List Char × Option Scalar) :=
  [("at".toList, some (.text (formatAt spec.truncated.atTime))),
    ("authority_id".toList, some (.text spec.authorityId.toList)),
    ("epoch".toList, some (.number spec.epoch)),
    ("fingerprint".toList, optional spec.fingerprint),
    ("kind".toList, some (.text spec.kind.text.toList)),
    ("op_id".toList, some (.text spec.opId.toList)),
    ("path".toList, optional spec.path),
    ("prev_hash".toList, some (.text spec.prevHash.toList)),
    ("resource_kind".toList, optional ((spec.resourceKind.map ResourceKind.text).getD "")),
    ("revision".toList, optional ((spec.revision.map Revision.token).getD "")),
    ("scope_url".toList, optional spec.scopeUrl),
    ("seq".toList, some (.number spec.seq)),
    ("state".toList, optional ((spec.state.map AllocationState.text).getD ""))]

/-- Below ten to the power of 21 the canonical form of an integer is its digits, so every `uint64`
is spelled exactly. -/
def canonicalBytes : List UInt8 :=
  (String.ofList (CanonicalJson.object (CanonicalJson.present spec.wire))).toUTF8.data.toList

end LedgerEventSpec

namespace LedgerHost

variable (host : LedgerHost)

variable (spec : LedgerEventSpec)

def refusal? : Option String :=
  if spec.seq = 0 ∨ maxLedgerSeq < spec.seq then
    some "seq must be in 1..18446744073709551614 (the ledger is exhausted beyond MaxLedgerSeq)"
  else if !isLowerHex spec.opId 32 then some "op_id must be 32 lowercase hex digits"
  else if !isLowerHex spec.authorityId 32 then some "authority_id must be 32 lowercase hex digits"
  else if spec.atTime.sec = 0 ∧ spec.atTime.nsec = 0 then some "at is required"
  else if !isLowerHex spec.prevHash 64 then some "prev_hash must be 64 lowercase hex digits"
  else
    spec.memberRefusal?.or <|
    (if spec.scopeUrl = "" then none else (host.scopeUrlRefusal? spec.scopeUrl).map ("scope_url: " ++ ·)).or <|
    (if spec.path = "" then none
      else spec.resourceKind.bind fun kind => (host.pathRefusal? spec.path kind).map ("path: " ++ ·)).or <|
    (if spec.state = none ∨ spec.state = some .pruned ∨ spec.state = some .erased then none
      else some "state must be pruned or erased").or <|
    if spec.fingerprint = "" ∨ isLowerHex spec.fingerprint 64 then none else some "fingerprint must be 64 lowercase hex digits"

def refuse (reason : String) : String :=
  "ledger event seq " ++ toString spec.seq ++ " (" ++ spec.kind.text ++ "): " ++ reason

def validate : Except String (LedgerEventSpec × List UInt8) :=
  match host.refusal? spec with
  | some reason => .error (refuse spec reason)
  | none =>
    let canonical := spec.truncated.canonicalBytes
    let hash := host.hashHex canonical
    if spec.hash ≠ "" ∧ spec.hash ≠ hash then
      .error (refuse spec ("stored hash " ++ spec.hash ++ " does not verify (computed " ++ hash ++ ")"))
    else .ok ({ spec.truncated with hash }, canonical)

end LedgerHost

structure LedgerEvent (host : LedgerHost) where
  spec : LedgerEventSpec
  canonical : List UInt8
  made : ∃ input, host.validate input = .ok (spec, canonical)

def newLedgerEvent (host : LedgerHost) (spec : LedgerEventSpec) : Except String (LedgerEvent host) :=
  match made : host.validate spec with
  | .ok (checked, canonical) => .ok ⟨checked, canonical, spec, made⟩
  | .error refusal => .error refusal

structure LedgerManifestSpec where
  scopeUrl : String
  lineage : String
  firstSeq : Nat
  lastSeq : Nat
  prevHash : String
  headHash : String
  deriving DecidableEq, Repr

def LedgerHost.manifestRefusal? (host : LedgerHost) (spec : LedgerManifestSpec) : Option String :=
  (host.scopeUrlRefusal? spec.scopeUrl).or <|
  ([("lineage", spec.lineage), ("prev_hash", spec.prevHash), ("head_hash", spec.headHash)].findSome? fun (name, value) =>
    if isLowerHex value 64 then none else some ("ledger manifest " ++ name ++ " must be 64 lowercase hex digits")).or <|
  if spec.firstSeq = 0 then some "ledger manifest range must start at seq 1 or later (0 is not an event)"
  else if maxLedgerSeq < spec.lastSeq then
    some ("ledger manifest range ends at seq " ++ toString spec.lastSeq ++ ", beyond MaxLedgerSeq (the sequence is exhausted)")
  else if spec.lastSeq < spec.firstSeq then
    some ("ledger manifest range " ++ toString spec.firstSeq ++ ".." ++ toString spec.lastSeq ++ " is empty")
  else none

structure LedgerManifest (host : LedgerHost) extends LedgerManifestSpec where
  checked : host.manifestRefusal? toLedgerManifestSpec = none

def newLedgerManifest (host : LedgerHost) (spec : LedgerManifestSpec) : Except String (LedgerManifest host) :=
  match checked : host.manifestRefusal? spec with
  | none => .ok ⟨spec, checked⟩
  | some reason => .error reason

section Chains

variable {host : LedgerHost}

/-- The loop of the chain check: each event links to the hash before it and has the number after the
last one. -/
def linkEvents : (prev : String) → (last : Option Nat) → List (LedgerEvent host) → Except String Unit
  | _, _, [] => .ok ()
  | prev, last, event :: rest =>
    if event.spec.prevHash ≠ prev then .error ("ledger event seq " ++ toString event.spec.seq ++
      " does not link to the preceding hash")
    else if event.spec.seq = 0 ∨ maxLedgerSeq < event.spec.seq then
      .error ("ledger event seq " ++ toString event.spec.seq ++ " is outside 1..MaxLedgerSeq")
    else
      match last with
      | none => linkEvents event.spec.hash (some event.spec.seq) rest
      | some before =>
        if event.spec.seq ≤ before ∨ event.spec.seq - before ≠ 1 then
          .error ("ledger gap: seq " ++ toString event.spec.seq ++ " follows seq " ++ toString before)
        else linkEvents event.spec.hash (some event.spec.seq) rest

def verifyLedgerChain (prevHash : String) (events : List (LedgerEvent host)) : Except String Unit :=
  if !isLowerHex prevHash 64 then .error "ledger chain must continue from a 64-hex-digit hash"
    else linkEvents prevHash none events

def LedgerManifest.covers (manifest : LedgerManifest host) (events : List (LedgerEvent host)) : Except String Unit :=
  match events with
  | [] => .error ("ledger manifest covers seq " ++ toString manifest.firstSeq ++ ".." ++
    toString manifest.lastSeq ++ ", no events supplied")
  | first :: rest => do
      if events.length ≠ manifest.lastSeq - manifest.firstSeq + 1 then
        .error ("ledger manifest covers " ++ toString (manifest.lastSeq - manifest.firstSeq + 1) ++
          " events, " ++ toString events.length ++ " supplied")
      else if first.spec.seq ≠ manifest.firstSeq then
        .error ("ledger manifest starts at seq " ++ toString manifest.firstSeq ++ ", events start at " ++ toString first.spec.seq)
      else
        verifyLedgerChain manifest.prevHash events
        let head := (rest.getLastD first).spec.hash
        if head ≠ manifest.headHash then
          .error ("ledger manifest head " ++ manifest.headHash ++ ", events end at " ++ head)
        else if manifest.prevHash = genesisHash then
          if first.spec.kind ≠ .mint then .error "a ledger range from genesis must begin with the mint event"
          else if first.spec.hash ≠ manifest.lineage then
            .error ("ledger manifest lineage " ++ manifest.lineage ++ " is not the mint event's hash " ++ first.spec.hash)
          else .ok ()
        else .ok ()

end Chains

end Beads
