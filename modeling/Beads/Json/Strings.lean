import Beads.Data.Fallible
import Beads.Json.Grammar

namespace Beads.Json

theorem hex4_complete {unit : Nat} {text : Bytes} (hex : HexText unit text)
    (rest : Bytes) : hex4 (text ++ rest) = .ok (unit, rest) := by
  obtain ⟨a, b, c, d, w, x, y, z, rfl, first, second, third, fourth, rfl⟩ := hex
  simp [hex4, first, second, third, fourth]

variable {input rest bytes : Bytes} {char : Char} {text : List Char}

theorem hex4_sound {unit : Nat} (scanned : hex4 input = .ok (unit, rest)) :
    ∃ text, HexText unit text ∧ input = text ++ rest := by
  unfold hex4 at scanned
  split at scanned
  case h_2 => cases scanned
  case h_1 a b c d tail =>
    split at scanned
    case h_2 => cases scanned
    case h_1 w x y z first second third fourth =>
      cases scanned
      exact ⟨[a, b, c, d], ⟨a, b, c, d, w, x, y, z, rfl, first, second, third, fourth, rfl⟩, rfl⟩

open List

theorem escape_complete {text : Bytes} (spelled : EscapeText char text) (rest : Bytes) :
    escape (text ++ rest) = .ok (char, rest) := by
  cases spelled with
  | short known => simp only [cons_append, nil_append, escape, known]
  | @unit unit text hex scalar =>
    have notLead : ¬ (0xd800 ≤ unit ∧ unit ≤ 0xdbff) := by omega
    have notTrail : ¬ (0xdc00 ≤ unit ∧ unit ≤ 0xdfff) := by omega
    show unicodeEscape (text ++ rest) = _
    rw [unicodeEscape, hex4_complete hex]
    show (if _ then _ else _) = _
    rw [if_neg notLead, if_neg notTrail]
  | @pair lead trail leadText trailText leadHex leads trailHex trails =>
    have inside : ¬ (trail < 0xdc00 ∨ 0xdfff < trail) := by omega
    show unicodeEscape ((leadText ++ 0x5c :: 0x75 :: trailText) ++ rest) = _
    rw [unicodeEscape, append_assoc, hex4_complete leadHex]
    show (if _ then _ else _) = _
    rw [if_pos leads]
    show (hex4 (trailText ++ rest) >>= _) = _
    rw [hex4_complete trailHex]
    show (if _ then _ else _) = _
    rw [if_neg inside]

theorem trailSurrogate_sound {lead : Nat} (scanned : trailSurrogate lead input = .ok (char, rest)) :
    ∃ trail text, HexText trail text ∧ (0xdc00 ≤ trail ∧ trail ≤ 0xdfff) ∧ input = 0x5c :: 0x75 ::
      text ++ rest ∧ char = Char.ofNat (0x10000 + (lead - 0xd800) * 0x400 + (trail - 0xdc00)) := by
  unfold trailSurrogate at scanned
  split at scanned
  case h_2 => cases scanned
  case h_1 backslash u tail =>
    split_ifs at scanned with marked
    · obtain ⟨rfl, rfl⟩ := marked
      obtain ⟨⟨trail, after⟩, read, finished⟩ := Fallible.bind_eq_ok scanned
      obtain ⟨text, hex, rfl⟩ := hex4_sound read
      dsimp only at finished
      split_ifs at finished with outside
      · cases finished
      · obtain ⟨rfl, rfl⟩ := Prod.mk.inj (Except.ok.inj finished)
        exact ⟨trail, text, hex, by omega, rfl, rfl⟩
    · cases scanned

theorem escape_sound (scanned : escape input = .ok (char, rest)) :
    ∃ text, EscapeText char text ∧ input = text ++ rest := by
  unfold escape at scanned
  split at scanned
  case h_1 => cases scanned
  case h_2 byte tail =>
    split at scanned
    case h_1 found known =>
      cases scanned
      exact ⟨[byte], .short known, rfl⟩
    case h_2 unknown =>
      split_ifs at scanned with marked
      · subst marked
        obtain ⟨⟨unit, after⟩, read, finished⟩ := Fallible.bind_eq_ok scanned
        obtain ⟨text, hex, rfl⟩ := hex4_sound read
        dsimp only at finished
        split_ifs at finished with leads trails
        · obtain ⟨trail, trailText, trailHex, trails, split, same⟩ := trailSurrogate_sound finished
          rw [same, split]
          exact ⟨_, .pair hex leads trailHex trails, by rw [append_assoc]; rfl⟩
        · cases finished
        · cases finished
          exact ⟨_, .unit hex (by omega), rfl⟩
      · cases scanned

def Raw (byte : UInt8) : Prop := byte ≠ 0x22 ∧ byte ≠ 0x5c ∧ ¬ byte < 0x20

open Utf8

theorem Plain.raw (plain : Plain char) {byte : UInt8} (member : byte ∈ String.utf8EncodeChar char) : Raw byte := by
  obtain ⟨printable, notQuote, notBackslash⟩ := plain
  refine ⟨ne_of_mem_utf8EncodeChar notQuote (by decide) member,
    ne_of_mem_utf8EncodeChar notBackslash (by decide) member, fun below => ?_⟩
  have low : byte.toNat < 0x20 := UInt8.lt_iff_toNat_lt.mp below
  rcases mem_utf8EncodeChar member with ⟨_, same⟩ | ⟨_, high⟩ <;> omega

theorem plain_of_raw (raw : ∀ byte ∈ encode text, Raw byte) : ∀ char ∈ text, Plain char := by
  intro char member
  by_cases ascii : char.toNat < 0x80
  · obtain ⟨notQuote, notBackslash, printable⟩ := raw _ (mem_encode_of_ascii ascii member)
    have value : (UInt8.ofNat char.toNat).toNat = char.toNat := by
      rw [UInt8.toNat_ofNat']
      omega
    refine ⟨?_, fun same => notQuote (by rw [same]; rfl), fun same => notBackslash (by rw [same]; rfl)⟩
    rw [UInt8.lt_iff_toNat_lt, value] at printable
    exact Nat.le_of_not_lt printable
  · refine ⟨by omega, ?_, ?_⟩ <;>
    · rintro rfl
      exact ascii (by decide)

theorem StringText.plainAppend {held : List Char} (plain : ∀ char ∈ held, Plain char)
    (more : StringText text bytes) : StringText (held ++ text) (encode held ++ bytes) := by
  induction held with
  | nil => exact more
  | cons char held ih =>
    rw [cons_append, encode_cons, append_assoc]
    exact .plain (plain char (.head _)) (ih fun other member => plain other (.tail _ member))

theorem strFrom_raw {raw : Bytes} (all : ∀ byte ∈ raw, Raw byte) (fuel : Nat) (segment : Bytes)
    (buf : List Char) (input : Bytes) :
    strFrom (fuel + raw.length) segment buf (raw ++ input) = strFrom fuel (segment ++ raw) buf input := by
  induction raw generalizing segment with
  | nil => rw [append_nil]; rfl
  | cons byte raw ih =>
    obtain ⟨notQuote, notBackslash, printable⟩ := all byte (.head _)
    rw [length_cons, ← Nat.add_assoc, cons_append, strFrom, if_neg notQuote, if_neg notBackslash,
      if_neg printable, ih fun other member => all other (.tail _ member), append_assoc]
    rfl

theorem strFrom_complete (spelled : StringText text bytes) (rest : Bytes) :
    ∀ (fuel : Nat) (held buf : List Char), bytes.length < fuel →
      strFrom fuel (encode held) buf (bytes ++ 0x22 :: rest) = .ok (buf ++ held ++ text, rest) := by
  induction spelled with
  | nil =>
    intro fuel held buf enough
    obtain ⟨fuel, rfl⟩ := Nat.exists_eq_succ_of_ne_zero (Nat.ne_of_gt enough)
    rw [nil_append, strFrom, if_pos rfl, decode_encode]
    simp
  | @plain char text bytes plain more ih =>
    intro fuel held buf enough
    rw [length_append] at enough
    obtain ⟨later, rfl⟩ := Nat.exists_eq_add_of_le' (Nat.le_of_lt (Nat.lt_of_le_of_lt (Nat.le_add_right _ _) enough))
    rw [append_assoc, strFrom_raw fun _ member => plain.raw member]
    have longer : encode held ++ String.utf8EncodeChar char = encode (held ++ [char]) := by simp
    rw [longer, ih later _ _ (by omega)]
    simp
  | @escaped char text escape bytes spelled more ih =>
    intro fuel held buf enough
    simp only [length_append, length_cons] at enough
    obtain ⟨fuel, rfl⟩ := Nat.exists_eq_succ_of_ne_zero (show fuel ≠ 0 by omega)
    rw [cons_append, cons_append, strFrom, if_neg (by decide), if_pos rfl, decode_encode]
    show (Json.escape _ >>= _) = _
    rw [append_assoc, escape_complete spelled]
    show strFrom fuel (encode []) _ _ = _
    rw [ih fuel _ _ (by omega)]
    simp

theorem str_complete (spelled : StringText text bytes) (rest : Bytes) :
    str (bytes ++ 0x22 :: rest) = .ok (text, rest) := by
  rw [str, ← encode_nil, strFrom_complete spelled rest _ [] [] (by rw [length_append, length_cons]; omega)]
  rfl

theorem strFrom_sound {fuel : Nat} {segment : Bytes} {buf : List Char} (raw : ∀ byte ∈ segment, Raw byte)
    (scanned : strFrom fuel segment buf input = .ok (text, rest)) :
    ∃ more bytes, StringText more bytes ∧ segment ++ input = bytes ++ 0x22 :: rest ∧ text = buf ++ more := by
  induction fuel generalizing segment buf input with
  | zero => cases scanned
  | succ fuel ih =>
    unfold strFrom at scanned
    split at scanned
    case h_1 => cases scanned
    case h_2 byte tail =>
      split_ifs at scanned with quote backslash control
      · split at scanned
        case h_1 => cases scanned
        case h_2 held decoded =>
          cases scanned
          obtain rfl := decode_eq_some.mp decoded
          have spelled := StringText.plainAppend (plain_of_raw raw) .nil
          exact ⟨held, encode held, by simpa using spelled, by rw [quote], rfl⟩
      · split at scanned
        case h_1 => cases scanned
        case h_2 held decoded =>
          obtain ⟨⟨char, after⟩, read, finished⟩ := Fallible.bind_eq_ok scanned
          obtain rfl := decode_eq_some.mp decoded
          obtain ⟨escape, escaped, rfl⟩ := escape_sound read
          obtain ⟨more, bytes, spelled, whole, rfl⟩ := ih (forall_mem_nil _) finished
          rw [nil_append] at whole
          exact ⟨_, _, StringText.plainAppend (plain_of_raw raw) (.escaped escaped spelled), by simp [backslash, whole], by simp⟩
      · cases scanned
      · have longer : ∀ other ∈ segment ++ [byte], Raw other := by
          intro other member
          rcases mem_append.mp member with member | member
          · exact raw other member
          · rw [mem_singleton.mp member]
            exact ⟨quote, backslash, control⟩
        obtain ⟨more, bytes, spelled, whole, rfl⟩ := ih longer scanned
        exact ⟨more, bytes, spelled, by rw [← whole]; simp, rfl⟩

theorem str_sound (scanned : str input = .ok (text, rest)) :
    ∃ bytes, StringText text bytes ∧ input = bytes ++ 0x22 :: rest := by
  obtain ⟨more, bytes, spelled, whole, rfl⟩ := strFrom_sound (forall_mem_nil _) scanned
  exact ⟨bytes, spelled, whole⟩

theorem hexValue_lowerHexDigit : ∀ number < 16, hexValue (lowerHexDigit number) = some number := by
  decide

theorem canonicalChar_spells (more : StringText text bytes) :
    StringText (char :: text) (canonicalChar char ++ bytes) := by
  unfold canonicalChar
  split_ifs with quote backslash backspace formFeed newline carriage tab control
  · exact .escaped (.short (congrArg some quote.symm)) more
  · exact .escaped (.short (congrArg some backslash.symm)) more
  · exact .escaped (.short (congrArg some backspace.symm)) more
  · exact .escaped (.short (congrArg some formFeed.symm)) more
  · exact .escaped (.short (congrArg some newline.symm)) more
  · exact .escaped (.short (congrArg some carriage.symm)) more
  · exact .escaped (.short (congrArg some tab.symm)) more
  · have hex : HexText char.toNat [0x30, 0x30, lowerHexDigit (char.toNat / 16), lowerHexDigit (char.toNat % 16)] :=
      ⟨_, _, _, _, 0, 0, char.toNat / 16, char.toNat % 16, rfl, rfl, rfl,
        hexValue_lowerHexDigit _ (by omega), hexValue_lowerHexDigit _ (by omega), by omega⟩
    have spelled := EscapeText.unit hex (by omega)
    rw [Char.ofNat_toNat] at spelled
    exact .escaped spelled more
  · exact .plain ⟨Nat.le_of_not_lt control, quote, backslash⟩ more

theorem canonicalString_spells (text : List Char) : StringText text (text.flatMap canonicalChar) := by
  induction text with
  | nil => exact .nil
  | cons char text ih => exact canonicalChar_spells ih

end Beads.Json
