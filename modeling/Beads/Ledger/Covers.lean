import Beads.Data.Fallible
import Beads.Ledger.Events

namespace Beads

open CanonicalJson Fallible LedgerEvent List GoTime Text

variable {host : LedgerHost}

namespace LedgerEventSpec

variable {one other : LedgerEventSpec}

theorem optional_injective {value again : String} (same : optional value = optional again) : value = again := by
  unfold optional at same
  split_ifs at same with empty blank
  · rw [empty, blank]
  · exact String.toList_injective (Scalar.text.inj (Option.some.inj same))

theorem kind_text_injective {kind again : LedgerEventKind} (same : kind.text = again.text) : kind = again := by
  cases kind <;> cases again <;> first | rfl | exact absurd same (by decide)

theorem resourceKind_text_injective {kind again : Option ResourceKind}
    (same : (kind.map ResourceKind.text).getD "" = (again.map ResourceKind.text).getD "") : kind = again := by
  rcases kind with _ | _ | _ <;> rcases again with _ | _ | _ <;> first | rfl | exact absurd same (by decide)

theorem state_text_injective {state again : Option AllocationState}
    (same : (state.map AllocationState.text).getD "" = (again.map AllocationState.text).getD "") : state = again := by
  rcases state with _ | _ | _ | _ | _ <;> rcases again with _ | _ | _ | _ | _ <;> first | rfl | exact absurd same (by decide)

theorem revision_token_injective {revision again : Option Revision}
    (same : (revision.map Revision.token).getD "" = (again.map Revision.token).getD "") : revision = again := by
  cases revision with
  | none =>
    cases again with
    | none => rfl
    | some token => exact absurd same.symm token.nonempty
  | some token =>
    cases again with
    | none => exact absurd same token.nonempty
    | some other =>
      obtain ⟨text, nonempty⟩ := token
      obtain ⟨again, known⟩ := other
      have equal : text = again := same
      subst equal
      rfl

theorem utf8_injective {one other : List Char}
    (same : (String.ofList one).toUTF8.data.toList = (String.ofList other).toUTF8.data.toList) : one = other :=
  String.ofList_injective (String.toByteArray_inj.mp (ByteArray.ext (Array.toList_inj.mp same)))

theorem signed_injective {year again : Int}
    (same : (if year < 0 then ['-'] else []) ++ padded 4 year.natAbs =
      (if again < 0 then ['-'] else []) ++ padded 4 again.natAbs) : year = again := by
  have digit (number : Nat) : '-' ∉ padded 4 number := by
    intro sign
    rw [padded, mem_append, mem_replicate] at sign
    obtain ⟨-, zero⟩ | sign := sign
    · cases zero
    · exact absurd (Nat.isDigit_of_mem_toDigits (by decide) (by decide) sign) (by decide)
  split_ifs at same with negative below below <;> simp only [nil_append, singleton_append] at same
  · have sizes := padded_injective (cons.inj same).2
    omega
  · exact absurd (same ▸ mem_cons_self) (digit again.natAbs)
  · exact absurd (same ▸ mem_cons_self) (digit year.natAbs)
  · have sizes := padded_injective same
    omega

theorem formatAt_injective {one other : Instant} (whole : one.nsec % 1000 = 0)
    (rewhole : other.nsec % 1000 = 0) (same : formatAt one = formatAt other) : one = other := by
  obtain ⟨clock, day, month⟩ := one.fields_range
  obtain ⟨reclock, reday, remonth⟩ := other.fields_range
  have first := one.fraction
  have second := other.fraction
  obtain ⟨same, micros⟩ := append_padded_inj (append_cancel_right same) (by decide) (by omega) (by omega)
  obtain ⟨same, seconds⟩ := append_padded_inj same (by decide) (by omega) (by omega)
  obtain ⟨same, minutes⟩ := append_padded_inj same (by decide) (by omega) (by omega)
  obtain ⟨same, hours⟩ := append_padded_inj same (by decide) (by omega) (by omega)
  obtain ⟨same, days⟩ := append_padded_inj same (by decide) (by omega) (by omega)
  obtain ⟨same, months⟩ := append_padded_inj same (by decide) (by omega) (by omega)
  have years := signed_injective same
  unfold Date.year Date.month at *
  exact Instant.eq_of_civil (Date.ext (by omega) (by omega)) (by omega) (by omega)

theorem canonicalBytes_wire (same : one.canonicalBytes = other.canonicalBytes) : one.wire = other.wire := by
  have distinct : (["at", "authority_id", "epoch", "fingerprint", "kind", "op_id", "path",
    "prev_hash", "resource_kind", "revision",
      "scope_url", "seq", "state"].map String.toList).Nodup := by decide
  exact present_injective rfl distinct (object_injective (utf8_injective same))

theorem canonicalBytes_injective (same : one.canonicalBytes = other.canonicalBytes) :
    { one.truncated with hash := "" } = { other.truncated with hash := "" } := by
  have fields := canonicalBytes_wire same
  simp only [wire, cons.injEq, Prod.mk.injEq, Option.some.injEq, Scalar.text.injEq,
    Scalar.number.injEq, true_and, and_true, String.toList_inj] at fields
  obtain ⟨instant, authority, epoch, fingerprint, kind, op, path, prev, resource, revision, url, seq, state⟩ := fields
  have whole : ∀ spec : LedgerEventSpec, spec.truncated.atTime.nsec % 1000 = 0 := fun spec => by
    simp only [truncated, Instant.truncate]
    omega
  have atTime := formatAt_injective (whole one) (whole other) instant
  exact LedgerEventSpec.ext seq (kind_text_injective kind) op (optional_injective path) (optional_injective url)
    (resourceKind_text_injective (optional_injective resource)) (revision_token_injective (optional_injective revision))
    (state_text_injective (optional_injective state)) (optional_injective fingerprint) authority epoch atTime prev rfl

end LedgerEventSpec

namespace LedgerEvent

variable {event : LedgerEvent host}

theorem made_spec {input checked : LedgerEventSpec} {canonical : List UInt8}
    (made : host.validate input = .ok (checked, canonical)) :
    host.refusal? input = none ∧ canonical = input.truncated.canonicalBytes ∧
      checked = { input.truncated with hash := host.hashHex canonical } := by
  unfold LedgerHost.validate at made
  split at made
  · cases made
  · rename_i accepted
    cases (ite_error_eq_ok.mp made).2
    exact ⟨accepted, rfl, rfl⟩

theorem seq_within : event.spec.seq ≠ 0 ∧ event.spec.seq ≤ maxLedgerSeq := by
  obtain ⟨input, made⟩ := event.made
  obtain ⟨accepted, _, checked⟩ := made_spec made
  have numbered : ¬ (input.seq = 0 ∨ maxLedgerSeq < input.seq) := by
    intro outside
    rw [LedgerHost.refusal?, if_pos outside] at accepted
    cases accepted
  have same : event.spec.seq = input.seq := by rw [checked]; rfl
  omega

theorem hash_eq : event.spec.hash = host.hashHex event.canonical := by
  obtain ⟨input, made⟩ := event.made
  rw [(made_spec made).2.2]

theorem truncated_truncated (spec : LedgerEventSpec) : spec.truncated.truncated = spec.truncated := by
  have whole : (spec.atTime.truncate 1000).truncate 1000 = spec.atTime.truncate 1000 := by
    ext <;> simp only [Instant.truncate]
    omega
  exact congrArg (fun time => { spec with atTime := time }) whole

theorem made_members {one other checked again : LedgerEventSpec} {canonical : List UInt8}
    (made : host.validate one = .ok (checked, canonical)) (remade : host.validate other = .ok (again, canonical)) :
    { one.truncated with hash := "" } = { other.truncated with hash := "" } := by
  have members := LedgerEventSpec.canonicalBytes_injective ((made_spec made).2.1.symm.trans (made_spec remade).2.1)
  rwa [truncated_truncated, truncated_truncated] at members

theorem eq_of_canonical {one other : LedgerEvent host} (same : one.canonical = other.canonical) : one = other := by
  obtain ⟨spec, canonical, input, made⟩ := one
  obtain ⟨otherSpec, otherCanonical, otherInput, otherMade⟩ := other
  subst same
  have equal : spec = otherSpec := by
    rw [(made_spec made).2.2, (made_spec otherMade).2.2]
    exact congrArg (fun members => { members with hash := host.hashHex canonical }) (made_members made otherMade)
  subst equal
  rfl

end LedgerEvent

/-- The numbers and links of a run of events that goes on from `prev`. -/
def Chained (prev : String) (first : Nat) (events : List (LedgerEvent host)) : Prop :=
  events.map (·.spec.seq) = List.range' first events.length ∧
    events.map (·.spec.prevHash) = (prev :: events.map (·.spec.hash)).take events.length

variable {prev : String} {event : LedgerEvent host} {rest events : List (LedgerEvent host)}

theorem chained_cons {first : Nat} : Chained prev first (event :: rest) ↔
      event.spec.seq = first ∧ event.spec.prevHash = prev ∧ Chained event.spec.hash (first + 1) rest := by
  simp only [Chained, map_cons, length_cons, range'_succ, take_succ_cons, cons.injEq]
  tauto

theorem linkEvents_iff {before : Nat} :
    linkEvents prev (some before) events = .ok () ↔ Chained prev (before + 1) events := by
  induction events generalizing prev before with
  | nil => simp [linkEvents, Chained]
  | cons event rest ih =>
    have within := event.seq_within
    rw [chained_cons, linkEvents]
    simp only [ite_error_eq_ok, ih, not_not]
    constructor
    · intro ⟨linked, _, follows, chained⟩
      have next : event.spec.seq = before + 1 := by omega
      exact ⟨next, linked, next ▸ chained⟩
    · intro ⟨next, linked, chained⟩
      exact ⟨linked, by omega, by omega, next ▸ chained⟩

theorem linkEvents_first :
    linkEvents prev none (event :: rest) = .ok () ↔ Chained prev event.spec.seq (event :: rest) := by
  have within := event.seq_within
  rw [chained_cons, linkEvents]
  simp only [ite_error_eq_ok, linkEvents_iff, not_not]
  exact ⟨fun ⟨linked, _, chained⟩ => ⟨trivial, linked, chained⟩, fun ⟨_, linked, chained⟩ => ⟨linked, by omega, chained⟩⟩

namespace LedgerManifest

variable {manifest : LedgerManifest host} {events : List (LedgerEvent host)}

theorem checked_range : 0 < manifest.firstSeq ∧ manifest.firstSeq ≤ manifest.lastSeq ∧
    isLowerHex manifest.prevHash 64 = true := by
  have checked := manifest.checked
  simp only [LedgerHost.manifestRefusal?, Option.or_eq_none_iff, findSome?_eq_none_iff] at checked
  obtain ⟨_, hashes, range⟩ := checked
  have hex := hashes ("prev_hash", manifest.prevHash) (by simp)
  split_ifs at range with zero large empty
  refine ⟨by omega, by omega, ?_⟩
  by_contra other
  rw [if_neg other] at hex
  cases hex

/-- The events are the range of the manifest: its numbers, chained from its previous hash to its
head hash. -/
structure Runs (manifest : LedgerManifest host) (events : List (LedgerEvent host)) : Prop where
  numbers : events.map (·.spec.seq) = List.range' manifest.firstSeq (manifest.lastSeq - manifest.firstSeq + 1)
  links : events.map (·.spec.prevHash) = (manifest.prevHash :: events.map (·.spec.hash)).take events.length
  head : events.getLast?.map (·.spec.hash) = some manifest.headHash

def Mints (manifest : LedgerManifest host) (events : List (LedgerEvent host)) : Prop :=
  ∃ first rest, events = first :: rest ∧ first.spec.kind = .mint ∧ first.spec.hash = manifest.lineage

/-- What a covered range is to be: its events run through it, and they start with the mint of the
lineage after the genesis hash exactly when its numbers start at one. -/
def Describes (manifest : LedgerManifest host) (events : List (LedgerEvent host)) : Prop :=
  manifest.Runs events ∧
    ((manifest.Mints events ∧ events.head?.map (·.spec.prevHash) = some genesisHash) ↔ manifest.firstSeq = 1)

theorem Runs.length (runs : manifest.Runs events) : events.length = manifest.lastSeq - manifest.firstSeq + 1 := by
  have count := congrArg List.length runs.numbers
  rwa [length_map, length_range'] at count

theorem Runs.chained (runs : manifest.Runs events) : Chained manifest.prevHash manifest.firstSeq events :=
  ⟨by rw [runs.length]; exact runs.numbers, runs.links⟩

theorem runs_cons {first : LedgerEvent host} : manifest.Runs (first :: rest) ↔
    (first :: rest).length = manifest.lastSeq - manifest.firstSeq + 1 ∧
      Chained manifest.prevHash manifest.firstSeq (first :: rest) ∧
      (rest.getLastD first).spec.hash = manifest.headHash := by
  have last : (first :: rest).getLast?.map (·.spec.hash) = some (rest.getLastD first).spec.hash := by
    rw [getLast?_cons, getLastD_eq_getLast?, Option.map_some]
  constructor
  · intro runs
    exact ⟨runs.length, runs.chained, Option.some.inj (last.symm.trans runs.head)⟩
  · intro ⟨count, chained, head⟩
    exact ⟨by rw [← count]; exact chained.1, chained.2, by rw [last, head]⟩

theorem covers_iff : manifest.covers events = .ok () ↔
    manifest.Runs events ∧ (manifest.prevHash = genesisHash → manifest.Mints events) := by
  cases events with
  | nil => exact ⟨nofun, fun ⟨runs, _⟩ => nomatch runs.head⟩
  | cons first rest =>
    obtain ⟨_, _, hex⟩ := manifest.checked_range
    have mints : manifest.Mints (first :: rest) ↔ first.spec.kind = .mint ∧ first.spec.hash = manifest.lineage := by
      constructor
      · intro ⟨event, later, same, mint⟩
        cases same
        exact mint
      · exact fun mint => ⟨first, rest, rfl, mint⟩
    rw [runs_cons, mints, covers]
    constructor
    · intro covered
      obtain ⟨count, covered⟩ := ite_error_eq_ok.mp covered
      obtain ⟨start, covered⟩ := ite_error_eq_ok.mp covered
      obtain ⟨_, verified, covered⟩ := bind_eq_ok covered
      obtain ⟨head, covered⟩ := ite_error_eq_ok.mp covered
      have chained := linkEvents_first.mp (ite_error_eq_ok.mp verified).2
      rw [not_not.mp start] at chained
      refine ⟨⟨not_not.mp count, chained, not_not.mp head⟩, fun genesis => ?_⟩
      rw [if_pos genesis] at covered
      obtain ⟨mint, covered⟩ := ite_error_eq_ok.mp covered
      exact ⟨not_not.mp mint, not_not.mp (ite_error_eq_ok.mp covered).1⟩
    · intro ⟨⟨count, chained, head⟩, minted⟩
      have start := (chained_cons.mp chained).1
      have verified : verifyLedgerChain manifest.prevHash (first :: rest) = .ok () :=
        ite_error_eq_ok.mpr ⟨by simp [hex], linkEvents_first.mpr (start ▸ chained)⟩
      rw [if_neg (not_not.mpr count), if_neg (not_not.mpr start), verified]
      refine ite_error_eq_ok.mpr ⟨not_not.mpr head, ite_eq_right_iff.mpr fun genesis => ?_⟩
      rw [if_neg (not_not.mpr (minted genesis).1), if_neg (not_not.mpr (minted genesis).2)]

end LedgerManifest

def LedgerHost.Collisionless (host : LedgerHost) (strings : List (List UInt8)) : Prop :=
  ∀ one ∈ strings, ∀ other ∈ strings, host.hashHex one = host.hashHex other → one = other

theorem chained_unique {altered : List (LedgerEvent host)}
    (collisionless : host.Collisionless ((events ++ altered).map canonical)) {start : String} {first again : Nat}
    (chained : Chained prev first events) (rechained : Chained start again altered) (count : events.length = altered.length)
    (last : events.getLast?.map (·.spec.hash) = altered.getLast?.map (·.spec.hash)) : events = altered := by
  have same : ∀ one ∈ events, ∀ other ∈ altered, one.spec.hash = other.spec.hash → one = other := by
    intro one here other there hashes
    rw [hash_eq, hash_eq] at hashes
    have listed : one.canonical ∈ (events ++ altered).map canonical := mem_map_of_mem (mem_append_left _ here)
    have relisted : other.canonical ∈ (events ++ altered).map canonical := mem_map_of_mem (mem_append_right _ there)
    exact eq_of_canonical (collisionless one.canonical listed other.canonical relisted hashes)
  clear collisionless
  induction events generalizing altered prev start first again with
  | nil => exact (length_eq_zero_iff.mp count.symm).symm
  | cons event rest ih =>
    cases altered with
    | nil => cases count
    | cons other later =>
      obtain ⟨_, _, chained⟩ := chained_cons.mp chained
      obtain ⟨_, _, rechained⟩ := chained_cons.mp rechained
      have counts : rest.length = later.length := Nat.succ.inj count
      cases rest with
      | nil =>
        cases length_eq_zero_iff.mp counts.symm
        rw [same event (.head _) other (.head _) (Option.some.inj last)]
      | cons next rest =>
        cases later with
        | nil => cases counts
        | cons otherNext later =>
          rw [getLast?_cons_cons, getLast?_cons_cons] at last
          have tails := ih chained rechained counts last fun one here other there =>
            same one (.tail _ here) other (.tail _ there)
          have before : event.spec.hash = other.spec.hash := by
            rw [← (chained_cons.mp chained).2.1, ← (chained_cons.mp rechained).2.1, (cons.inj tails).1]
          rw [same event (.head _) other (.head _) before, tails]

theorem newLedgerEvent_ok {input : LedgerEventSpec} (made : newLedgerEvent host input = .ok event) :
    host.validate input = .ok (event.spec, event.canonical) := by
  unfold newLedgerEvent at made
  split at made
  · rename_i checked canonical validated
    cases made
    exact validated
  · cases made

/-- A range is covered exactly when it is what the manifest describes, if its numbers start at one
where it goes on from the genesis hash, and only then. The canonical bytes of an event fix its
members, and a manifest fixes all events of the range it covers. -/
theorem ledger_covers_iff :
    (∀ (manifest : LedgerManifest host) (events : List (LedgerEvent host)),
      (manifest.covers events = .ok () ↔ manifest.Describes events) ↔
        (manifest.Runs events → (manifest.firstSeq = 1 ↔ manifest.prevHash = genesisHash))) ∧
    (∀ (one other : LedgerEventSpec) (event again : LedgerEvent host), newLedgerEvent host one = .ok event →
      newLedgerEvent host other = .ok again → event.canonical = again.canonical →
      { one.truncated with hash := "" } = { other.truncated with hash := "" } ∧ event = again) ∧
    (∀ (manifest : LedgerManifest host) (events altered : List (LedgerEvent host)),
      host.Collisionless ((events ++ altered).map LedgerEvent.canonical) →
      manifest.covers events = .ok () → manifest.covers altered = .ok () → events = altered) := by
  refine ⟨?_, ?_, ?_⟩
  · intro manifest events
    rw [LedgerManifest.covers_iff, LedgerManifest.Describes]
    by_cases runs : manifest.Runs events
    · have linked : events.head?.map (·.spec.prevHash) = some genesisHash ↔ manifest.prevHash = genesisHash := by
        cases events with
        | nil => exact absurd runs.head nofun
        | cons first rest =>
          obtain ⟨_, chained, _⟩ := LedgerManifest.runs_cons.mp runs
          rw [head?_cons, Option.map_some, Option.some.injEq, (chained_cons.mp chained).2.1]
      rw [linked]
      tauto
    · tauto
  · intro one other event again made remade same
    exact ⟨made_members (newLedgerEvent_ok made) (same ▸ newLedgerEvent_ok remade), LedgerEvent.eq_of_canonical same⟩
  · intro manifest events altered collisionless covered again
    have runs := (LedgerManifest.covers_iff.mp covered).1
    have reruns := (LedgerManifest.covers_iff.mp again).1
    exact chained_unique collisionless runs.chained reruns.chained (runs.length.trans reruns.length.symm)
      (runs.head.trans reruns.head.symm)

/-! ## A ledger of two events -/

def mintSpec : LedgerEventSpec where
  seq := 1
  kind := .mint
  opId := "0123456789abcdef0123456789abcdef"
  scopeUrl := "https://beads/"
  authorityId := "fedcba9876543210fedcba9876543210"
  epoch := 1
  atTime := .unix 1735689600
  prevHash := genesisHash

def mintHash : String := "0eb787b49d1810f93bfeb9eb8846d8d333ec52e4903b6be887094a2726235849"

def promoteSpec : LedgerEventSpec :=
  { mintSpec with seq := 2, kind := .promote, scopeUrl := "", prevHash := mintHash }

def promoteHash : String := "0e1a1f404113d51a9053c36b2b6f16cb1e3723e4e8073760fa8afab53e4f138c"

/-- The promotion with the number of the mint. -/
def straySpec : LedgerEventSpec := { promoteSpec with seq := 1 }

def strayHash : String := "e9ec8d754daf3527c63ae29a5c2683dfa5bbdebc67faf3894b423e4b36d0f331"

/-- SHA-256 on the bytes of the three events. -/
def sampleHost : LedgerHost where
  hashHex bytes :=
    if bytes = mintSpec.canonicalBytes then mintHash
    else if bytes = promoteSpec.canonicalBytes then promoteHash else strayHash
  scopeUrlRefusal? url := if url = "https://beads/" then none else some "Scope URL is not canonical"
  pathRefusal? _ _ := some "path is not canonical"

theorem hashHex_mint : sampleHost.hashHex mintSpec.canonicalBytes = mintHash := by
  simp only [sampleHost, if_true]

theorem hashHex_promote : sampleHost.hashHex promoteSpec.canonicalBytes = promoteHash := by
  have apart : promoteSpec.canonicalBytes ≠ mintSpec.canonicalBytes := fun same =>
    absurd (congrArg LedgerEventSpec.seq (LedgerEventSpec.canonicalBytes_injective same)) (by decide)
  simp only [sampleHost, apart, if_false, if_true]

theorem hashHex_stray : sampleHost.hashHex straySpec.canonicalBytes = strayHash := by
  have apart : straySpec.canonicalBytes ≠ mintSpec.canonicalBytes := fun same =>
    absurd (congrArg LedgerEventSpec.kind (LedgerEventSpec.canonicalBytes_injective same)) (by decide)
  have numbered : straySpec.canonicalBytes ≠ promoteSpec.canonicalBytes := fun same =>
    absurd (congrArg LedgerEventSpec.seq (LedgerEventSpec.canonicalBytes_injective same)) (by decide)
  simp only [sampleHost, apart, numbered, if_false]

theorem exists_event {spec : LedgerEventSpec} (accepted : host.refusal? spec = none) (blank : spec.hash = "")
    (whole : spec.truncated = spec) : ∃ event, newLedgerEvent host spec = .ok event ∧
      event.spec = { spec with hash := host.hashHex spec.canonicalBytes } := by
  have made : host.validate spec = .ok ({ spec with hash := host.hashHex spec.canonicalBytes }, spec.canonicalBytes) := by
    simp [LedgerHost.validate, accepted, blank, whole]
  unfold newLedgerEvent
  split
  · rename_i checked canonical validated
    rw [made] at validated
    cases validated
    exact ⟨_, rfl, rfl⟩
  · rename_i refused
    rw [made] at refused
    cases refused

theorem exists_manifest {spec : LedgerManifestSpec} (accepted : host.manifestRefusal? spec = none) :
    ∃ manifest, newLedgerManifest host spec = .ok manifest ∧ manifest.toLedgerManifestSpec = spec := by
  unfold newLedgerManifest
  split
  · exact ⟨_, rfl, rfl⟩
  · rename_i refused
    rw [accepted] at refused
    cases refused

theorem covers_promoted : ∃ minted promoted manifest, newLedgerEvent sampleHost mintSpec =
    .ok minted ∧ newLedgerEvent sampleHost promoteSpec = .ok promoted ∧
      newLedgerManifest sampleHost ⟨"https://beads/", mintHash, 1, 2, genesisHash, promoteHash⟩ = .ok manifest ∧
        manifest.covers [minted, promoted] = .ok () ∧ manifest.Describes [minted, promoted] := by
  obtain ⟨minted, made, first⟩ := exists_event (show sampleHost.refusal? mintSpec = none by decide) rfl rfl
  obtain ⟨promoted, remade, second⟩ := exists_event (show sampleHost.refusal? promoteSpec = none by decide) rfl rfl
  obtain ⟨manifest, built, range⟩ := exists_manifest (show sampleHost.manifestRefusal?
    ⟨"https://beads/", mintHash, 1, 2, genesisHash, promoteHash⟩ = none by decide)
  rw [hashHex_mint] at first
  rw [hashHex_promote] at second
  have covered : manifest.covers [minted, promoted] = .ok () := by
    refine LedgerManifest.covers_iff.mpr ⟨⟨?_, ?_, ?_⟩, fun _ => ⟨minted, _, rfl, ?_, ?_⟩⟩ <;>
      simp [first, second, range] <;> decide
  refine ⟨minted, promoted, manifest, made, remade, built, covered, ?_⟩
  exact ((ledger_covers_iff.1 manifest [minted, promoted]).mpr fun _ => by simp [range]).mp covered

theorem covers_unminted : ∃ event manifest, newLedgerEvent sampleHost straySpec = .ok event ∧
    newLedgerManifest sampleHost ⟨"https://beads/", mintHash, 1, 1, mintHash, strayHash⟩ = .ok manifest ∧
      manifest.covers [event] = .ok () ∧ ¬ manifest.Mints [event] ∧ ¬ manifest.Describes [event] := by
  obtain ⟨event, made, stray⟩ := exists_event (show sampleHost.refusal? straySpec = none by decide) rfl rfl
  obtain ⟨manifest, built, range⟩ := exists_manifest (show sampleHost.manifestRefusal?
    ⟨"https://beads/", mintHash, 1, 1, mintHash, strayHash⟩ = none by decide)
  rw [hashHex_stray] at stray
  have none : ¬ manifest.Mints [event] := by
    rintro ⟨first, rest, same, mint, -⟩
    rw [← (cons.inj same).1, stray] at mint
    exact absurd mint (by decide)
  refine ⟨event, manifest, made, built, ?_, none, fun described => none (described.2.mpr (by rw [range])).1⟩
  refine LedgerManifest.covers_iff.mpr ⟨⟨?_, ?_, ?_⟩, fun genesis => ?_⟩
  · simp [stray, range]
    decide
  · simp [stray, range]
    decide
  · simp [stray, range]
  · rw [range] at genesis
    exact absurd genesis (by decide)

end Beads
