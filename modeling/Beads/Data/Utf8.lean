import Mathlib

namespace Utf8

def encode (text : List Char) : List UInt8 := text.flatMap String.utf8EncodeChar

/-- The first `skip` bytes belong to the character before. -/
def decodeFrom (skip : Nat) : List UInt8 → Option (List Char)
  | [] => if skip = 0 then some [] else none
  | byte :: rest =>
    if 0 < skip then decodeFrom (skip - 1) rest
    else match (byte :: rest).toByteArray.utf8DecodeChar? 0 with
      | some char => (decodeFrom (char.utf8Size - 1) rest).map (char :: ·)
      | none => none

def decode (bytes : List UInt8) : Option (List Char) := decodeFrom 0 bytes

@[simp] theorem encode_nil : encode [] = [] := rfl

@[simp] theorem encode_cons (char : Char) (text : List Char) : encode (char :: text) =
    String.utf8EncodeChar char ++ encode text := rfl

open List

@[simp] theorem encode_append (one other : List Char) : encode (one ++ other) = encode one ++ encode other := flatMap_append

theorem decodeFrom_append (bytes rest : List UInt8) : decodeFrom bytes.length (bytes ++ rest) = decode rest := by
  induction bytes with
  | nil => rfl
  | cons byte bytes ih =>
    rw [cons_append, decodeFrom, if_pos (by simp), length_cons, Nat.add_sub_cancel]
    exact ih

theorem decode_char_append (char : Char) (rest : List UInt8) :
    decode (String.utf8EncodeChar char ++ rest) = (decode rest).map (char :: ·) := by
  have first : (String.utf8EncodeChar char ++ rest).toByteArray.utf8DecodeChar? 0 = some char := by
    rw [toByteArray_append]
    exact ByteArray.utf8DecodeChar?_utf8EncodeChar_append
  have size := String.length_utf8EncodeChar char
  cases bytes : String.utf8EncodeChar char with
  | nil =>
    rw [bytes] at size
    exact absurd size.symm (Nat.ne_of_gt char.utf8Size_pos)
  | cons byte more =>
    rw [bytes] at first size
    rw [decode, cons_append, decodeFrom, if_neg (Nat.lt_irrefl 0), ← cons_append, first]
    show (decodeFrom (char.utf8Size - 1) (more ++ rest)).map (char :: ·) = _
    rw [← size, length_cons, Nat.add_sub_cancel, decodeFrom_append]

@[simp] theorem decode_encode (text : List Char) : decode (encode text) = some text := by
  induction text with
  | nil => rfl
  | cons char text ih => rw [encode_cons, decode_char_append, ih, Option.map_some]

variable {bytes : List UInt8} {char : Char} {text : List Char}

theorem exists_of_utf8DecodeChar? (first : bytes.toByteArray.utf8DecodeChar? 0 = some char) :
    ∃ rest, bytes = String.utf8EncodeChar char ++ rest := by
  obtain ⟨later, split⟩ := ByteArray.exists_of_utf8DecodeChar?_eq_some first
  refine ⟨later.data.toList, ?_⟩
  have lists := congrArg (fun array => array.data.toList) split
  simpa using lists

theorem encode_of_decode (decoded : decode bytes = some text) : bytes = encode text := by
  induction text generalizing bytes with
  | nil =>
    cases bytes with
    | nil => rfl
    | cons byte rest =>
      rw [decode, decodeFrom, if_neg (Nat.lt_irrefl 0)] at decoded
      split at decoded
      · obtain ⟨_, _, ⟨⟩⟩ := Option.map_eq_some_iff.mp decoded
      · cases decoded
  | cons char text ih =>
    cases bytes with
    | nil => cases decoded
    | cons byte rest =>
      have unfolded := decoded
      rw [decode, decodeFrom, if_neg (Nat.lt_irrefl 0)] at unfolded
      split at unfolded
      case h_2 => cases unfolded
      case h_1 found first =>
        obtain ⟨_, _, same⟩ := Option.map_eq_some_iff.mp unfolded
        obtain rfl := (List.cons.inj same).1
        obtain ⟨later, whole⟩ := exists_of_utf8DecodeChar? first
        rw [whole, decode_char_append] at decoded
        obtain ⟨_, tail, again⟩ := Option.map_eq_some_iff.mp decoded
        obtain rfl := (List.cons.inj again).2
        rw [whole, encode_cons, ih tail]

theorem decode_eq_some : decode bytes = some text ↔ bytes = encode text :=
  ⟨encode_of_decode, fun same => same ▸ decode_encode text⟩

theorem mem_utf8EncodeChar {byte : UInt8} (member : byte ∈ String.utf8EncodeChar char) :
    (char.toNat < 0x80 ∧ byte.toNat = char.toNat) ∨ (0x80 ≤ char.toNat ∧ 0x80 ≤ byte.toNat) := by
  have value : char.val.toNat = char.toNat := rfl
  simp only [String.utf8EncodeChar, value] at member
  split_ifs at member with one two three
  · rw [mem_singleton] at member
    subst member
    exact .inl ⟨by omega, by rw [UInt8.toNat_ofNat']; omega⟩
  all_goals
    refine .inr ⟨by omega, ?_⟩
    simp only [mem_cons, not_mem_nil, or_false] at member
    rcases member with rfl | rfl | rfl | rfl <;> rw [UInt8.toNat_ofNat'] <;> omega

theorem ne_of_mem_utf8EncodeChar {byte : UInt8} {other : Char} (different : char ≠ other) (ascii : other.toNat < 0x80)
    (member : byte ∈ String.utf8EncodeChar char) : byte ≠ UInt8.ofNat other.toNat := by
  rintro rfl
  have apart := mt Char.toNat_inj.mp different
  rcases mem_utf8EncodeChar member with ⟨_, same⟩ | ⟨_, same⟩ <;> rw [UInt8.toNat_ofNat'] at same <;> omega

theorem mem_encode_of_ascii (ascii : char.toNat < 0x80) (member : char ∈ text) :
    UInt8.ofNat char.toNat ∈ encode text := by
  refine mem_flatMap.mpr ⟨char, member, ?_⟩
  have value : char.val.toNat ≤ 0x7f := Nat.lt_succ_iff.mp ascii
  simp only [String.utf8EncodeChar, if_pos value]
  exact mem_singleton.mpr rfl

end Utf8
