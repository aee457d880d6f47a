import Beads.Data.Fallible
import Beads.Json.Scanner

/-! The segments of canonical paths and the public ids made of them, as byte strings. Which Scope
URLs are valid is a parameter. -/

namespace Beads.Graph

open Json (Bytes ascii hexValue)

def isLiteralSegmentByte (byte : UInt8) : Bool :=
  (0x41 ≤ byte && byte ≤ 0x5a) || (0x61 ≤ byte && byte ≤ 0x7a) || (0x30 ≤ byte && byte ≤ 0x39) ||
    (ascii "._~!$&'()*+,;=:@-").contains byte

def upperHexDigit (number : Nat) : UInt8 := (ascii "0123456789ABCDEF").getD number 0x30

def canonicalByte (byte : UInt8) : Bytes :=
  if isLiteralSegmentByte byte then [byte] else [0x25, upperHexDigit (byte.toNat / 16), upperHexDigit (byte.toNat % 16)]

def canonicalSegment (decoded : Bytes) : Bytes := decoded.flatMap canonicalByte

inductive SegmentError where
  | empty
  | incompleteEscape
  | malformedEscape
  | invalidUtf8
  | dotSegment
  | control
  | separator
  | notCanonical (canonical : Bytes)

def decodeSegment : Bytes → Except SegmentError Bytes
  | [] => .ok []
  | byte :: rest =>
    if byte ≠ 0x25 then (decodeSegment rest).map (byte :: ·)
    else
      match rest with
      | high :: low :: rest =>
        match hexValue high, hexValue low with
        | some high, some low => (decodeSegment rest).map (UInt8.ofNat (high * 16 + low) :: ·)
        | _, _ => .error .malformedEscape
      | _ => .error .incompleteEscape

def charRefusal? (char : Char) : Option SegmentError :=
  if char.toNat ≤ 0x1f ∨ char.toNat = 0x7f then some .control else if char = '/' ∨ char = '\\' then some .separator else none

def validateCanonicalSegment (segment : Bytes) : Except SegmentError Unit :=
  if segment = [] then .error .empty
  else do
    let decoded ← decodeSegment segment
    match Utf8.decode decoded with
    | none => .error .invalidUtf8
    | some text =>
      if text = ['.'] ∨ text = ['.', '.'] then .error .dotSegment
      else
        match text.findSome? charRefusal? with
        | some refusal => .error refusal
        | none => if canonicalSegment decoded ≠ segment then .error (.notCanonical (canonicalSegment decoded)) else .ok ()

inductive ResourceError where
  | scope
  | outsideScope
  | queryOrFragment
  | segment (reason : SegmentError)

def validateCanonicalResourceId (id : Bytes) : Except ResourceError Unit :=
  if 0x3f ∈ id ∨ 0x23 ∈ id then .error .queryOrFragment
  else (id.splitOn 0x2f).forM fun segment => (validateCanonicalSegment segment).mapError .segment

def canonicalPublicResourceUrl (validScope : Bytes → Bool) (scope id : Bytes) : Except ResourceError Bytes :=
  if validScope scope = false then .error .scope
  else do
    validateCanonicalResourceId id
    .ok (scope ++ id)

def scopeLocalPublicResourceId (validScope : Bytes → Bool) (scope uri : Bytes) : Except ResourceError Bytes :=
  if validScope scope = false then .error .scope
  else if scope.isPrefixOf uri = false then .error .outsideScope
  else do
    validateCanonicalResourceId (uri.drop scope.length)
    .ok (uri.drop scope.length)

theorem decodeSegment_canonicalByte (byte : UInt8) (rest : Bytes) :
    decodeSegment (canonicalByte byte ++ rest) = (decodeSegment rest).map (byte :: ·) := by
  have digits : ∀ number < 16, hexValue (upperHexDigit number) = some number := by decide
  have size := byte.toNat_lt
  rw [canonicalByte]
  split
  · rename_i literal
    have plain : byte ≠ 0x25 := by
      rintro rfl
      exact absurd literal (by decide)
    rw [List.singleton_append, decodeSegment.eq_def]
    exact if_pos plain
  · show decodeSegment (0x25 :: _ :: _ :: rest) = _
    have halves : byte.toNat / 16 * 16 + byte.toNat % 16 = byte.toNat := Nat.div_add_mod' _ _
    simp [decodeSegment, digits _ (show byte.toNat / 16 < 16 by omega), digits _ (show byte.toNat % 16 < 16 by omega), halves]

theorem decodeSegment_canonicalSegment (decoded : Bytes) : decodeSegment (canonicalSegment decoded) = .ok decoded := by
  induction decoded with
  | nil => rfl
  | cons byte decoded ih =>
    rw [canonicalSegment, List.flatMap_cons, decodeSegment_canonicalByte]
    exact congrArg (Except.map _) ih

/-- What a segment may decode to. -/
structure Sound (text : List Char) : Prop where
  nonempty : text ≠ []
  notDot : text ≠ ['.'] ∧ text ≠ ['.', '.']
  chars : ∀ char ∈ text, ¬(char.toNat ≤ 0x1f ∨ char.toNat = 0x7f) ∧ char ≠ '/' ∧ char ≠ '\\'

open Fallible

theorem charRefusal?_eq_none {char : Char} :
    charRefusal? char = none ↔ ¬(char.toNat ≤ 0x1f ∨ char.toNat = 0x7f) ∧ char ≠ '/' ∧ char ≠ '\\' := by
  unfold charRefusal?
  split_ifs <;> grind

theorem validateCanonicalSegment_iff {segment : Bytes} :
    validateCanonicalSegment segment = .ok () ↔ ∃ text, Sound text ∧ segment = canonicalSegment (Utf8.encode text) := by
  constructor
  · intro accepted
    obtain ⟨present, accepted⟩ := ite_error_eq_ok.mp accepted
    obtain ⟨decoded, read, accepted⟩ := bind_eq_ok accepted
    split at accepted
    · cases accepted
    rename_i text valid
    obtain rfl := Utf8.encode_of_decode valid
    obtain ⟨notDot, accepted⟩ := ite_error_eq_ok.mp accepted
    split at accepted
    · cases accepted
    rename_i unrefused
    obtain ⟨same, -⟩ := ite_error_eq_ok.mp accepted
    have spelled := not_not.mp same
    have chars := fun char member => charRefusal?_eq_none.mp (List.findSome?_eq_none_iff.mp unrefused char member)
    refine ⟨text, ⟨?_, not_or.mp notDot, chars⟩, spelled.symm⟩
    rintro rfl
    exact present spelled.symm
  · rintro ⟨text, sound, rfl⟩
    have read := decodeSegment_canonicalSegment (Utf8.encode text)
    have present : canonicalSegment (Utf8.encode text) ≠ [] := by
      intro empty
      rw [empty] at read
      have same := (Except.ok.inj read).symm
      exact sound.nonempty (Option.some.inj ((Utf8.decode_encode text).symm.trans (congrArg Utf8.decode same)))
    have unrefused := List.findSome?_eq_none_iff.mpr fun char member => charRefusal?_eq_none.mpr (sound.chars char member)
    rw [validateCanonicalSegment, if_neg present, read]
    simp [bind, Except.bind, sound.notDot, unrefused]

/-- Segments decode to what they spell, the accepted ones are the spellings of sound texts and of no
other, and in a valid Scope the public URL of an id and the id of a public URL are inverse on the
accepted ids. -/
theorem segments_canonical (validScope : Bytes → Bool) :
    (∀ decoded, decodeSegment (canonicalSegment decoded) = .ok decoded) ∧
    (∀ segment, validateCanonicalSegment segment = .ok () ↔ ∃ text, Sound text ∧ segment = canonicalSegment (Utf8.encode text)) ∧
    (∀ one other, validateCanonicalSegment one = .ok () → validateCanonicalSegment other = .ok () →
      decodeSegment one = decodeSegment other → one = other) ∧
    ∀ scope, validScope scope = true →
      (∀ uri id, scopeLocalPublicResourceId validScope scope uri = .ok id ↔
        canonicalPublicResourceUrl validScope scope id = .ok uri) ∧
      ∀ id, (∃ uri, canonicalPublicResourceUrl validScope scope id = .ok uri) ↔ validateCanonicalResourceId id = .ok () := by
  refine ⟨decodeSegment_canonicalSegment, fun _ => validateCanonicalSegment_iff, ?_, ?_⟩
  · intro one other accepted acceptedToo same
    obtain ⟨text, -, rfl⟩ := validateCanonicalSegment_iff.mp accepted
    obtain ⟨otherText, -, rfl⟩ := validateCanonicalSegment_iff.mp acceptedToo
    rw [decodeSegment_canonicalSegment, decodeSegment_canonicalSegment] at same
    rw [Except.ok.inj same]
  · intro scope valid
    have composed : ∀ uri id, canonicalPublicResourceUrl validScope scope id = .ok uri ↔
        validateCanonicalResourceId id = .ok () ∧ scope ++ id = uri := by
      intro uri id
      rw [canonicalPublicResourceUrl, if_neg (by simp [valid])]
      cases validateCanonicalResourceId id <;> simp [bind, Except.bind]
    refine ⟨fun uri id => ?_, fun id => ?_⟩
    · rw [composed, scopeLocalPublicResourceId, if_neg (by simp [valid]), ite_error_eq_ok,
        Bool.not_eq_false, List.isPrefixOf_iff_prefix]
      constructor
      · rintro ⟨⟨rest, rfl⟩, finished⟩
        rw [List.drop_left] at finished
        obtain ⟨_, accepted, ⟨⟩⟩ := bind_eq_ok finished
        exact ⟨accepted, rfl⟩
      · rintro ⟨accepted, rfl⟩
        rw [List.drop_left, accepted]
        exact ⟨List.prefix_append _ _, rfl⟩
    · simp [composed]

end Beads.Graph
