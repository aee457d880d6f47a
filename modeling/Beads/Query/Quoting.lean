import Beads.Query.Lexer

/-! The text between the quotes comes back with each of its bytes as a rune, so it comes back as it
was only if its characters have one byte each. -/

namespace Beads.Query

def backslashed (text : List Char) : List Char :=
  text.flatMap fun char => if char = '\\' ∨ char = '\x22' then ['\\', char] else [char]

def quoted (text : List Char) : List Char := '\x22' :: backslashed text ++ ['\x22']

def reread (text : List Char) : List Char := runes (Utf8.encode text)

variable {char : Char}

theorem encode_ascii (ascii : char.toNat < 0x80) : String.utf8EncodeChar char = [UInt8.ofNat char.toNat] := by
  have value : char.val.toNat ≤ 0x7f := Nat.lt_succ_iff.mp ascii
  simp only [String.utf8EncodeChar, if_pos value]
  rfl

theorem rune_ofNat (ascii : char.toNat < 0x80) : rune (UInt8.ofNat char.toNat) = char := by
  have small : (UInt8.ofNat char.toNat).toNat = char.toNat := by
    rw [UInt8.toNat_ofNat']
    omega
  rw [rune, small, Char.ofNat_toNat]

open Utf8 List

theorem reread_ascii (ascii : char.toNat < 0x80) : reread [char] = [char] := by
  simp [reread, runes, encode, encode_ascii ascii, rune_ofNat ascii]

theorem length_reread (char : Char) : (reread [char]).length = char.utf8Size := by
  simp [reread, runes, encode]

theorem reread_append (one other : List Char) : reread (one ++ other) = reread one ++ reread other := by
  simp [reread, runes]

theorem one_lt_utf8Size (wide : ¬ char.toNat < 0x80) : 1 < char.utf8Size := by
  have size := String.length_utf8EncodeChar char
  have value : ¬ char.val.toNat ≤ 0x7f := fun low => wide (Nat.lt_succ_of_le low)
  rw [← size]
  simp only [String.utf8EncodeChar, if_neg value]
  split_ifs <;> simp

theorem length_le_reread (text : List Char) : text.length ≤ (reread text).length := by
  induction text with
  | nil => exact Nat.zero_le _
  | cons char text ih =>
    have here := char.utf8Size_pos
    rw [← singleton_append, reread_append]
    simp only [length_append, length_reread, length_singleton]
    omega

theorem reread_eq_iff {text : List Char} : reread text = text ↔ ∀ char ∈ text, char.toNat < 0x80 := by
  induction text with
  | nil => simp [reread, runes]
  | cons char text ih =>
    rw [← singleton_append, reread_append, forall_mem_append, forall_mem_singleton]
    by_cases ascii : char.toNat < 0x80
    · rw [reread_ascii ascii, append_cancel_left_eq, ih]
      simp [ascii]
    · refine iff_of_false (fun same => ?_) fun both => ascii both.1
      have lengths := congrArg List.length same
      have wide := one_lt_utf8Size ascii
      have rest := length_le_reread text
      rw [length_append, length_reread, length_append, length_singleton] at lengths
      omega

def Ordinary (byte : UInt8) : Prop := byte ≠ 0 ∧ byte ≠ 0x22 ∧ byte ≠ 0x5c

theorem ordinary_of_mem (nonzero : char ≠ '\x00') (notQuote : char ≠ '\x22') (notBackslash : char ≠ '\\')
    {byte : UInt8} (member : byte ∈ String.utf8EncodeChar char) : Ordinary byte :=
  ⟨ne_of_mem_utf8EncodeChar nonzero (by decide) member, ne_of_mem_utf8EncodeChar notQuote (by decide) member,
    ne_of_mem_utf8EncodeChar notBackslash (by decide) member⟩

theorem readString_ordinary {raw : Bytes} (ordinary : ∀ byte ∈ raw, Ordinary byte) (start : Nat)
    (input : Bytes) : readString 0x22 start (raw ++ input) =
      (readString 0x22 start input).map fun (text, after) => (runes raw ++ text, after) := by
  induction raw with
  | nil =>
    cases read : readString 0x22 start input <;> simp [read, Except.map, runes]
  | cons byte raw ih =>
    obtain ⟨zero, quote, backslash⟩ := ordinary byte (.head _)
    rw [cons_append, readString.eq_def]
    simp only [if_neg zero, if_neg quote, if_neg backslash]
    rw [ih fun other member => ordinary other (.tail _ member)]
    cases readString 0x22 start input <;> rfl

theorem readString_escape (byte : UInt8) (nonzero : byte ≠ 0) (start : Nat) (input : Bytes) :
    readString 0x22 start (0x5c :: byte :: input) =
      (readString 0x22 start input).map fun (text, after) => (escaped byte :: text, after) := by
  rw [readString.eq_def]
  simp [nonzero]

theorem readString_backslashed {text : List Char} (nonzero : '\x00' ∉ text) (start : Nat) (rest : Bytes) :
    readString 0x22 start (encode (backslashed text) ++ 0x22 :: rest) = .ok (reread text, rest) := by
  induction text with
  | nil =>
    show readString 0x22 start (0x22 :: rest) = .ok ([], rest)
    rw [readString.eq_def]
    simp
  | cons char text ih =>
    rw [mem_cons, not_or] at nonzero
    have later := ih nonzero.2
    have split : backslashed (char :: text) =
        (if char = '\\' ∨ char = '\x22' then ['\\', char] else [char]) ++ backslashed text := rfl
    have back : reread (char :: text) = reread [char] ++ reread text := reread_append [char] text
    rw [split, back, encode_append, append_assoc]
    by_cases special : char = '\\' ∨ char = '\x22'
    · rw [if_pos special]
      rcases special with rfl | rfl
      · show readString 0x22 start (0x5c :: 0x5c :: (encode (backslashed text) ++ 0x22 :: rest)) = _
        rw [readString_escape 0x5c (by decide), later]
        rfl
      · show readString 0x22 start (0x5c :: 0x22 :: (encode (backslashed text) ++ 0x22 :: rest)) = _
        rw [readString_escape 0x22 (by decide), later]
        rfl
    · rw [if_neg special]
      rw [not_or] at special
      have ordinary : ∀ byte ∈ encode [char], Ordinary byte := by
        intro byte member
        rw [encode_cons, encode_nil, append_nil] at member
        exact ordinary_of_mem (Ne.symm nonzero.1) special.2 special.1 member
      rw [readString_ordinary ordinary, later]
      rfl

/-- The quoted text is one string token, whose value is the text if and only if
the text is ASCII. -/
theorem tokenize_quoted {text : List Char} (nonzero : '\x00' ∉ text) :
    (∃ left last, tokenize (Utf8.encode (quoted text)) =
      .ok [⟨.string, text, left⟩, ⟨.eof, [], last⟩]) ↔ ∀ char ∈ text, char.toNat < 0x80 := by
  have shape : Utf8.encode (quoted text) = 0x22 :: (Utf8.encode (backslashed text) ++ [0x22]) := by
    rw [quoted, List.cons_append, Utf8.encode_cons, Utf8.encode_append]
    rfl
  have length : ((0x22 : UInt8) :: (Utf8.encode (backslashed text) ++ [0x22])).length =
      (Utf8.encode (backslashed text)).length + 2 := by simp
  have first : nextToken (0x22 :: (Utf8.encode (backslashed text) ++ [0x22])) =
      .ok (⟨.string, reread text, (Utf8.encode (backslashed text)).length + 2⟩, []) := by
    show (readString 0x22 _ (Utf8.encode (backslashed text) ++ [0x22])).map _ = _
    rw [readString_backslashed nonzero]
    simp [Except.map]
  have tokens : tokenize (Utf8.encode (quoted text)) =
      .ok [⟨.string, reread text, (Utf8.encode (backslashed text)).length + 2⟩, ⟨.eof, [], 0⟩] := by
    rw [shape, tokenize, length, tokenizeWithin, first]
    rfl
  rw [tokens, ← reread_eq_iff]
  constructor
  · rintro ⟨left, last, same⟩
    injection same with same
    injection same with same _
    exact (Token.mk.inj same).2.1
  · intro back
    rw [back]
    exact ⟨_, _, rfl⟩

theorem quoted_plain : ∃ left last, tokenize (Utf8.encode (quoted ['a', '\x22', '\\'])) =
    .ok [⟨.string, ['a', '\x22', '\\'], left⟩, ⟨.eof, [], last⟩] :=
  (tokenize_quoted (by decide)).mpr (by simp)

/-- The two bytes of one character come back as two characters. -/
theorem quoted_accented : '\x00' ∉ [Char.ofNat 0xe9] ∧ tokenize (Utf8.encode (quoted [Char.ofNat 0xe9])) =
      .ok [⟨.string, [Char.ofNat 0xc3, Char.ofNat 0xa9], 4⟩, ⟨.eof, [], 0⟩] := by
  decide

end Beads.Query
