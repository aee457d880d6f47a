import Beads.Data.Fallible
import Beads.Query.Lexer

/-! What the lexer takes for a token of each type, and that it takes such a text for that token
wherever what follows does not continue it. -/

namespace Beads.Query

theorem forall_byte {holds : UInt8 → Prop} (all : ∀ number < 256, holds (UInt8.ofNat number)) (byte : UInt8) : holds byte := by
  have here := all byte.toNat (UInt8.toNat_lt_size byte)
  rwa [UInt8.ofNat_toNat] at here

open List

theorem span_exact {α : Type} {holds : α → Bool} {body rest : List α} (inside : ∀ value ∈ body, holds value = true)
    (stops : ∀ value ∈ rest.head?, holds value = false) :
    (body ++ rest).takeWhile holds = body ∧ (body ++ rest).dropWhile holds = rest := by
  rw [takeWhile_append_of_pos inside, dropWhile_append_of_pos inside]
  cases rest with
  | nil => exact ⟨append_nil body, rfl⟩
  | cons value rest => simp [stops value rfl]

theorem digit_class : ∀ byte, isDigit byte = true → isIdentChar byte = true ∧ isSpace byte = false ∧
    isSign byte = false ∧ isIdentStart byte = false ∧ isDurationSuffix byte = false :=
  forall_byte (by decide +kernel)

theorem start_class : ∀ byte, isIdentStart byte = true → isIdentChar byte = true ∧
    isSpace byte = false ∧ isSign byte = false ∧ isDigit byte = false :=
  forall_byte (by decide +kernel)

theorem suffix_class : ∀ byte, isDurationSuffix byte = true → isIdentChar byte = true ∧ isDigit byte = false ∧ byte ≠ 0 :=
  forall_byte (by decide +kernel)

theorem char_class : ∀ byte, isIdentChar byte = true → isSpace byte = false ∧ byte ≠ 0 :=
  forall_byte (by decide +kernel)

theorem other_class : ∀ byte, isIdentChar byte = false → isDigit byte = false ∧ isDurationSuffix byte = false ∧ byte ≠ 0x6d :=
  forall_byte (by decide +kernel)

theorem sign_class (byte : UInt8) : isSign byte = true ↔ byte = 0x2d ∨ byte = 0x2b := by
  simp [isSign]

def punctuation : List (TokenType × Bytes) :=
  [(.lParen, [0x28]), (.rParen, [0x29]), (.comma, [0x2c]), (.equals, [0x3d]), (.notEquals, [0x21, 0x3d]),
    (.less, [0x3c]), (.lessEq, [0x3c, 0x3d]), (.greater, [0x3e]), (.greaterEq, [0x3e, 0x3d])]

structure Amount (sign digits : Bytes) : Prop where
  signed : sign = [] ∨ ∃ byte, sign = [byte] ∧ isSign byte = true
  numeric : ∀ byte ∈ digits, isDigit byte = true
  nonempty : digits ≠ []

def DurationUnit (text : Bytes) : Prop := (∃ byte, text = [byte] ∧ isDurationSuffix byte = true) ∨ text = minutes

/-- A run of identifier characters, which is not all digits and not a duration. -/
inductive WordText : Bytes → Prop where
  | letters {byte : UInt8} {rest : Bytes} (start : isIdentStart byte = true) (chars : ∀ byte ∈ rest,
      isIdentChar byte = true) : WordText (byte :: rest)
  | digits {digits rest : Bytes} {byte : UInt8} (amount : Amount [] digits) (notDigit : isDigit byte = false)
      (chars : ∀ other ∈ byte :: rest, isIdentChar other = true) (notDurationUnit : ¬ DurationUnit (byte :: rest)) :
      WordText (digits ++ byte :: rest)

inductive TokenText : TokenType → Bytes → Prop where
  | punctuation {type : TokenType} {text : Bytes} (listed : (type, text) ∈ punctuation) : TokenText type text
  | number {sign digits : Bytes} (amount : Amount sign digits) : TokenText .number (sign ++ digits)
  | duration {sign digits text : Bytes} (amount : Amount sign digits) (unit : DurationUnit text) :
      TokenText .duration (sign ++ digits ++ text)
  | word {text : Bytes} (word : WordText text) : TokenText (keyword (runes text)) text

theorem keyword_cases (value : List Char) :
    keyword value = .and ∨ keyword value = .or ∨ keyword value = .not ∨ keyword value = .ident := by
  unfold keyword
  dsimp only
  split_ifs <;> simp

variable {text input rest digits sign after : Bytes} {token : Token} {byte : UInt8} {type : TokenType}

theorem WordText.chars (word : WordText text) : ∀ byte ∈ text, isIdentChar byte = true := by
  cases word with
  | letters start chars => exact forall_mem_cons.mpr ⟨(start_class _ start).1, chars⟩
  | digits amount notDigit chars notDurationUnit =>
    exact forall_mem_append.mpr ⟨fun byte member => (digit_class _ (amount.numeric byte member)).1, chars⟩

/-- The token stands at the head of the input; a zero byte after it may be gone. -/
def Found (token : Token) (input rest : Bytes) : Prop :=
  ∃ text, TokenText token.type text ∧ token.value = runes text ∧ (input = text ++ rest ∨ input = text ++ 0 :: rest)

theorem readIdent_found (read : readIdent input = (token, rest))
    (word : WordText (input.takeWhile isIdentChar)) : Found token input rest := by
  cases read
  exact ⟨_, .word word, rfl, .inl takeWhile_append_dropWhile.symm⟩

theorem dropWhile_stops {holds : UInt8 → Bool} (input : Bytes) : ∀ byte ∈ (input.dropWhile holds).head?, holds byte = false := by
  intro byte first
  have stops := List.head?_dropWhile_not holds input
  rw [Option.mem_def.mp first] at stops
  simpa using stops

theorem standsAlone_iff_head : standsAlone rest = true ↔ ∀ byte ∈ rest.head?, isIdentChar byte = false := by
  cases rest <;> simp [standsAlone]

theorem standsAlone_iff : standsAlone rest = true ↔ rest.takeWhile isIdentChar = [] := by
  cases rest with
  | nil => simp [standsAlone]
  | cons byte rest => cases char : isIdentChar byte <;> simp [standsAlone, char]

theorem minutes_chars : ∀ byte ∈ minutes, isIdentChar byte = true := all_eq_true.mp (by decide)

theorem wordText_of_digits (amount : Amount [] digits) (notDigit : isDigit byte = false)
    (char : isIdentChar byte = true) (notSuffix : ¬ (isDurationSuffix byte = true ∧ standsAlone rest = true))
    (notWord : ¬ acceptDurationWord (byte :: rest) = true) :
    WordText ((digits ++ byte :: rest).takeWhile isIdentChar) := by
  have split : (digits ++ byte :: rest).takeWhile isIdentChar = digits ++ byte :: rest.takeWhile isIdentChar := by
    rw [takeWhile_append_of_pos fun other member => (digit_class _ (amount.numeric other member)).1]
    simp [char]
  rw [split]
  refine .digits amount notDigit (forall_mem_cons.mpr ⟨char, fun other member => mem_takeWhile_imp member⟩) ?_
  rintro (⟨suffix, same, isSuffix⟩ | same)
  · obtain ⟨rfl, empty⟩ := List.cons.inj same
    exact notSuffix ⟨isSuffix, standsAlone_iff.mpr empty⟩
  · have whole : (byte :: rest) = minutes ++ (byte :: rest).dropWhile isIdentChar := by
      have chars : (byte :: rest).takeWhile isIdentChar = minutes := by simpa [char] using same
      rw [← chars]
      exact takeWhile_append_dropWhile.symm
    refine notWord ?_
    rw [acceptDurationWord, whole]
    simpa [minutes] using standsAlone_iff_head.mpr (dropWhile_stops (byte :: rest))

theorem numberToken_found (amount : Amount sign digits) (ends : ∀ byte ∈ after.head?, isDigit byte = false)
    (read : numberToken (sign ++ digits ++ after) sign digits after = (token, rest)) :
    Found token (sign ++ digits ++ after) rest := by
  unfold numberToken at read
  cases after with
  | nil =>
    cases read
    exact ⟨_, .number amount, rfl, .inl rfl⟩
  | cons byte more =>
    dsimp only at read
    split_ifs at read with zero suffix word char
    · cases read
      exact ⟨_, .number amount, rfl, .inr (by rw [zero])⟩
    · cases read
      exact ⟨_, .duration amount (.inl ⟨byte, rfl, suffix.1⟩), by simp [runes], .inl (by simp)⟩
    · cases read
      rw [acceptDurationWord, Bool.and_eq_true, isPrefixOf_iff_prefix] at word
      obtain ⟨tail, whole⟩ := word.1
      refine ⟨_, .duration amount (.inr rfl), by simp [runes], .inl ?_⟩
      rw [← whole]
      simp [minutes]
    · obtain ⟨rfl, isChar⟩ := char
      exact readIdent_found read (wordText_of_digits amount (ends byte rfl) isChar suffix word)
    · cases read
      exact ⟨_, .number amount, rfl, .inl rfl⟩

theorem readNumberOrDuration_found (read : readNumberOrDuration input = .ok (token, rest)) : Found token input rest := by
  unfold readNumberOrDuration at read
  dsimp only at read
  split_ifs at read with empty
  have ⟨signed, signFirst⟩ : (signOf input = [] ∨ ∃ byte, signOf input = [byte] ∧ isSign byte = true) ∧
      input = signOf input ++ input.drop (signOf input).length := by
    unfold signOf
    cases input with
    | nil => exact ⟨.inl rfl, rfl⟩
    | cons byte more => cases sign : isSign byte <;> simp [sign]
  generalize signOf input = sign at read empty signed signFirst
  generalize input.drop sign.length = body at read empty signFirst
  have split : input = sign ++ body.takeWhile isDigit ++ body.dropWhile isDigit := by
    rw [append_assoc, takeWhile_append_dropWhile, signFirst]
  rw [split] at read ⊢
  exact numberToken_found ⟨signed, fun byte member => mem_takeWhile_imp member, empty⟩ (dropWhile_stops body)
    (Except.ok.inj read)

theorem operator_found {plain withEquals : TokenType} (byte : UInt8) {left : Nat}
    (read : operator plain withEquals [rune byte] left rest = (token, after))
    (alone : (plain, [byte]) ∈ punctuation) (both : (withEquals, [byte, 0x3d]) ∈ punctuation) :
    Found token (byte :: rest) after := by
  unfold operator at read
  split_ifs at read with follows
  · cases read
    obtain ⟨rest, rfl⟩ := head?_eq_some_iff.mp follows
    exact ⟨_, .punctuation both, rfl, .inl rfl⟩
  · cases read
    exact ⟨_, .punctuation alone, rfl, .inl rfl⟩

theorem punctuation_found (text : Bytes) {left : Nat}
    (read : (Except.ok (⟨type, runes text, left⟩, rest) : Except LexError (Token × Bytes)) = .ok (token, after))
    (listed : (type, text) ∈ punctuation) : Found token (text ++ rest) after := by
  cases read
  exact ⟨text, .punctuation listed, rfl, .inl rfl⟩

open Fallible

theorem readString_consumes {quote : UInt8} {start : Nat} {text : List Char}
    (read : readString quote start input = .ok (text, after)) : after.length < input.length := by
  fun_induction readString quote start input generalizing text with
  | case1 | case2 | case4 | case5 => cases read
  | case3 rest =>
    cases read
    exact Nat.lt_succ_self _
  | case6 next rest _ _ _ ih =>
    obtain ⟨⟨more, later⟩, readRest, ⟨⟩⟩ := map_eq_ok read
    exact (ih readRest).trans (by simp only [length_cons]; omega)
  | case7 byte rest _ _ _ ih =>
    obtain ⟨⟨more, later⟩, readRest, ⟨⟩⟩ := map_eq_ok read
    exact Nat.lt_succ_of_lt (ih readRest)

theorem tokenAt_found (read : tokenAt byte rest = .ok (token, after)) :
    (token.type = .eof ∧ byte = 0) ∨ (token.type = .string ∧ after.length < rest.length) ∨ Found token (byte :: rest) after := by
  rw [tokenAt] at read
  split at read
  · rename_i zero
    cases read
    exact .inl ⟨rfl, zero⟩
  split at read
  · rename_i lParen
    subst lParen
    exact .inr <| .inr <| punctuation_found [0x28] read (by decide)
  split at read
  · rename_i rParen
    subst rParen
    exact .inr <| .inr <| punctuation_found [0x29] read (by decide)
  split at read
  · rename_i comma
    subst comma
    exact .inr <| .inr <| punctuation_found [0x2c] read (by decide)
  split at read
  · rename_i equals
    subst equals
    exact .inr <| .inr <| punctuation_found [0x3d] read (by decide)
  split at read
  · rename_i bang
    subst bang
    split at read
    · rename_i notEquals
      obtain ⟨rest, rfl⟩ := head?_eq_some_iff.mp notEquals
      exact .inr <| .inr <| punctuation_found [0x21, 0x3d] read (by decide)
    · cases read
  split at read
  · rename_i less
    subst less
    exact .inr <| .inr <| operator_found 0x3c (Except.ok.inj read) (by decide) (by decide)
  split at read
  · rename_i greater
    subst greater
    exact .inr <| .inr <| operator_found 0x3e (Except.ok.inj read) (by decide) (by decide)
  split at read
  · obtain ⟨⟨text, later⟩, string, ⟨⟩⟩ := map_eq_ok read
    exact .inr <| .inl ⟨rfl, readString_consumes string⟩
  split at read
  · exact .inr <| .inr (readNumberOrDuration_found read)
  split at read
  · rename_i start
    refine .inr <| .inr <| readIdent_found (Except.ok.inj read) ?_
    rw [takeWhile_cons_of_pos (start_class _ start).1]
    exact .letters start fun other member => mem_takeWhile_imp member
  · cases read

section

variable (read : nextToken input = .ok (token, rest))
include read

theorem nextToken_cases : (token.type = .eof ∧ (skipWhitespace input).head?.getD 0 = 0) ∨
    (token.type = .string ∧ rest.length < (skipWhitespace input).length) ∨ Found token (skipWhitespace input) rest := by
  rw [nextToken] at read
  generalize skipWhitespace input = skipped at read ⊢
  cases skipped with
  | nil =>
    cases read
    exact .inl ⟨rfl, rfl⟩
  | cons byte more =>
    rcases tokenAt_found read with ⟨isEnd, zero⟩ | ⟨string, shorter⟩ | found
    · exact .inl ⟨isEnd, zero⟩
    · exact .inr (.inl ⟨string, Nat.lt_succ_of_lt shorter⟩)
    · exact .inr (.inr found)

theorem nextToken_found (notEnd : token.type ≠ .eof) (notString : token.type ≠ .string) :
    ∃ gap text, (∀ byte ∈ gap, isSpace byte = true) ∧ TokenText token.type text ∧ token.value = runes text ∧
      (input = gap ++ (text ++ rest) ∨ input = gap ++ (text ++ 0 :: rest)) := by
  have whole : input = input.takeWhile isSpace ++ skipWhitespace input := takeWhile_append_dropWhile.symm
  rcases nextToken_cases read with ⟨isEnd, -⟩ | ⟨string, -⟩ | ⟨text, spelled, value, split⟩
  · exact absurd isEnd notEnd
  · exact absurd string notString
  · refine ⟨input.takeWhile isSpace, text, fun byte member => mem_takeWhile_imp member, spelled, value, ?_⟩
    rcases split with split | split <;> rw [← split]
    exacts [.inl whole, .inr whole]

end

theorem TokenText.ne_nil (spelled : TokenText type text) : text ≠ [] := by
  cases spelled with
  | punctuation listed =>
    rintro rfl
    simp [Query.punctuation] at listed
  | number amount | duration amount unit => simp [amount.nonempty]
  | word word => cases word <;> simp

theorem nextToken_consumes (read : nextToken input = .ok (token, rest))
    (notEnd : token.type ≠ .eof) : rest.length < input.length := by
  have skips : (skipWhitespace input).length ≤ input.length := length_dropWhile_le _ _
  rcases nextToken_cases read with ⟨isEnd, -⟩ | ⟨-, shorter⟩ | ⟨text, spelled, -, split⟩
  · exact absurd isEnd notEnd
  · exact shorter.trans_le skips
  · have nonempty := length_pos_iff.mpr spelled.ne_nil
    rcases split with split | split <;> rw [split] at skips <;>
      simp only [length_append, length_cons] at skips <;> omega

theorem readString_never (quote : UInt8) (start : Nat) (input : Bytes) : readString quote start input ≠ .error .exhausted := by
  fun_induction readString quote start input with
  | case1 | case2 | case3 | case4 | case5 => exact nofun
  | case6 next rest _ _ _ ih | case7 byte rest _ _ _ ih => exact map_never ih

theorem nextToken_never (input : Bytes) : nextToken input ≠ .error .exhausted := by
  rw [nextToken]
  cases skipWhitespace input with
  | nil => exact nofun
  | cons byte rest =>
    have number : readNumberOrDuration (byte :: rest) ≠ .error .exhausted := ite_never nofun nofun
    have string := @Fallible.map_never _ (Token × Bytes) _ _ _ (fun read => (⟨.string, read.1, rest.length + 1⟩, read.2))
      (readString_never byte (rest.length + 1) rest)
    refine ite_never nofun (ite_never nofun (ite_never nofun (ite_never nofun
      (ite_never nofun (ite_never (ite_never nofun nofun) (ite_never nofun
      (ite_never nofun (ite_never string (ite_never number
      (ite_never nofun nofun))))))))))

/-- What comes next does not continue a token of this type. -/
def Follows : TokenType → Bytes → Prop
  | .lParen, _ | .rParen, _ | .comma, _ | .equals, _ | .notEquals, _ | .lessEq, _ | .greaterEq, _ => True
  | .less, rest | .greater, rest => rest.head? ≠ some 0x3d
  | _, rest => standsAlone rest = true ∧ rest.head? ≠ some 0

theorem readIdent_spelled (word : WordText text) (alone : standsAlone rest = true) :
    readIdent (text ++ rest) = (⟨keyword (runes text), runes text, (text ++ rest).length⟩, rest) := by
  obtain ⟨taken, left⟩ := span_exact word.chars (standsAlone_iff_head.mp alone)
  rw [readIdent, taken, left]

theorem readNumberOrDuration_amount (amount : Amount sign digits)
    (ends : ∀ byte ∈ after.head?, isDigit byte = false) :
    readNumberOrDuration (sign ++ digits ++ after) = .ok (numberToken (sign ++ digits ++ after) sign digits after) := by
  have signFound : signOf (sign ++ digits ++ after) = sign := by
    rcases amount.signed with rfl | ⟨byte, rfl, isSign⟩
    · cases digits with
      | nil => exact absurd rfl amount.nonempty
      | cons digit digits => simp [signOf, (digit_class _ (amount.numeric digit (by simp))).2.2.1]
    · simp [signOf, isSign]
  have body : (sign ++ digits ++ after).drop sign.length = digits ++ after := by simp
  obtain ⟨taken, left⟩ := span_exact amount.numeric ends
  rw [readNumberOrDuration, signFound, body, taken, left, if_neg amount.nonempty]

section

variable (alone : standsAlone after = true)
include alone

theorem numberToken_number (nonzero : after.head? ≠ some 0) :
    numberToken (sign ++ digits ++ after) sign digits after =
      (⟨.number, runes (sign ++ digits), (sign ++ digits ++ after).length⟩, after) := by
  cases after with
  | nil => rfl
  | cons byte after =>
    have notChar : isIdentChar byte = false := by simpa [standsAlone] using alone
    obtain ⟨_, notSuffix, first⟩ := other_class byte notChar
    have notWord : acceptDurationWord (byte :: after) = false := by
      simp [acceptDurationWord, minutes, List.isPrefixOf, first.symm]
    have notZero : byte ≠ 0 := by simpa using nonzero
    simp [numberToken, notZero, notSuffix, notWord, notChar]

theorem numberToken_duration {unit : Bytes} (isUnit : DurationUnit unit) :
    numberToken (sign ++ digits ++ (unit ++ after)) sign digits (unit ++ after) =
      (⟨.duration, runes (sign ++ digits ++ unit), (sign ++ digits ++ (unit ++ after)).length⟩, after) := by
  rcases isUnit with ⟨byte, rfl, suffix⟩ | rfl
  · have notZero := (suffix_class byte suffix).2.2
    simp [numberToken, notZero, suffix, alone, runes]
  · have word : acceptDurationWord (0x6d :: 0x69 :: 0x6e :: after) = true := by
      simpa [acceptDurationWord, minutes] using alone
    have notAlone : standsAlone (0x69 :: 0x6e :: after) = false := by rfl
    simp [numberToken, word, notAlone, runes, minutes]

theorem numberToken_word (amount : Amount [] digits)
    (notDigit : isDigit byte = false) (chars : ∀ other ∈ byte :: rest, isIdentChar other = true)
    (notUnit : ¬ DurationUnit (byte :: rest)) :
    numberToken (digits ++ (byte :: rest ++ after)) [] digits (byte :: rest ++ after) =
      (⟨keyword (runes (digits ++ byte :: rest)), runes (digits ++ byte :: rest),
        (digits ++ byte :: rest ++ after).length⟩, after) := by
  have char := chars byte (by simp)
  have notZero := (char_class byte char).2
  have notSuffix : ¬ (isDurationSuffix byte = true ∧ standsAlone (rest ++ after) = true) := by
    rintro ⟨suffix, ends⟩
    cases rest with
    | nil => exact notUnit (.inl ⟨byte, rfl, suffix⟩)
    | cons other rest => simp [standsAlone, chars other (by simp)] at ends
  have notWord : ¬ acceptDurationWord (byte :: rest ++ after) = true := by
    intro accepted
    rw [acceptDurationWord, Bool.and_eq_true, isPrefixOf_iff_prefix] at accepted
    obtain ⟨tail, whole⟩ := accepted.1
    -- Both sides cut the same text where the identifier ends.
    have ends : standsAlone tail = true := by
      have dropped := accepted.2
      rwa [← whole] at dropped
    have cut := congrArg (List.takeWhile isIdentChar) whole
    rw [takeWhile_append_of_pos minutes_chars, takeWhile_append_of_pos chars,
      standsAlone_iff.mp ends, standsAlone_iff.mp alone, append_nil, append_nil] at cut
    exact notUnit (.inr cut.symm)
  have unread := readIdent_spelled (.digits amount notDigit chars notUnit) alone
  rw [cons_append] at notWord ⊢
  rw [numberToken]
  rw [if_neg notZero, if_neg notSuffix, if_neg notWord, if_pos ⟨rfl, char⟩]
  simpa using unread

end

def reserved : Bytes := [0, 0x28, 0x29, 0x2c, 0x3d, 0x21, 0x3c, 0x3e, 0x22, 0x27]

theorem tokenAt_of_not_reserved (plain : byte ∉ reserved) (rest : Bytes) : tokenAt byte rest =
      if isDigit byte = true ∨ isSign byte = true then readNumberOrDuration (byte :: rest)
      else if isIdentStart byte = true then .ok (readIdent (byte :: rest))
      else .error (.unexpectedCharacter byte (rest.length + 1)) := by
  simp only [reserved, mem_cons, not_mem_nil, or_false, not_or] at plain
  obtain ⟨zero, lParen, rParen, comma, equals, bang, less, greater, double, single⟩ := plain
  rw [tokenAt]
  rw [if_neg zero, if_neg lParen, if_neg rParen, if_neg comma, if_neg equals, if_neg bang,
    if_neg less, if_neg greater, if_neg (not_or.mpr ⟨double, single⟩)]

theorem not_reserved : ∀ byte, isDigit byte = true ∨ isSign byte = true ∨ isIdentStart byte = true →
    byte ∉ reserved ∧ isSpace byte = false :=
  forall_byte (by decide +kernel)

theorem nextToken_plain (plain : isDigit byte = true ∨ isSign byte = true ∨
    isIdentStart byte = true) (rest : Bytes) :
    nextToken (byte :: rest) =
      if isDigit byte = true ∨ isSign byte = true then readNumberOrDuration (byte :: rest)
      else .ok (readIdent (byte :: rest)) := by
  obtain ⟨unreserved, notSpace⟩ := not_reserved byte plain
  have skipped : skipWhitespace (byte :: rest) = byte :: rest := by simp [skipWhitespace, notSpace]
  rw [nextToken, skipped]
  change tokenAt byte rest = _
  rw [tokenAt_of_not_reserved unreserved]
  by_cases amount : isDigit byte = true ∨ isSign byte = true
  · rw [if_pos amount, if_pos amount]
  · rw [if_neg amount, if_neg amount, if_pos ((or_assoc.mpr plain).resolve_left amount)]

theorem nextToken_amount (amount : Amount sign digits) (ends : ∀ byte ∈ after.head?, isDigit byte = false) :
    nextToken (sign ++ digits ++ after) = .ok (numberToken (sign ++ digits ++ after) sign digits after) := by
  rw [← readNumberOrDuration_amount amount ends]
  rcases amount.signed with rfl | ⟨byte, rfl, isSign⟩
  · cases digits with
    | nil => exact absurd rfl amount.nonempty
    | cons digit digits =>
      have isDigit := amount.numeric digit (by simp)
      exact (nextToken_plain (.inl isDigit) _).trans (if_pos (.inl isDigit))
  · exact (nextToken_plain (.inr (.inl isSign)) _).trans (if_pos (.inr isSign))

theorem notDigit_of_standsAlone (alone : standsAlone after = true) : ∀ byte ∈ after.head?, isDigit byte = false :=
  fun byte first => (other_class byte (standsAlone_iff_head.mp alone byte first)).1

theorem nextToken_word (word : WordText text) (alone : standsAlone rest = true) :
    nextToken (text ++ rest) = .ok (⟨keyword (runes text), runes text, (text ++ rest).length⟩, rest) := by
  cases word with
  | @letters byte more start chars =>
    rw [cons_append, nextToken_plain (.inr (.inr start)), if_neg, ← cons_append,
      readIdent_spelled (.letters start chars) alone]
    obtain ⟨-, -, notSign, notDigit⟩ := start_class _ start
    simp [notSign, notDigit]
  | @digits digits more byte amount notDigit chars notUnit =>
    have ends : ∀ other ∈ (byte :: more ++ rest).head?, isDigit other = false := by
      rintro _ ⟨⟩
      exact notDigit
    have read := nextToken_amount amount ends
    rw [nil_append, numberToken_word alone amount notDigit chars notUnit] at read
    rw [append_assoc]
    simpa using read

theorem nextToken_punctuation (listed : (type, text) ∈ punctuation) (follows : Follows type rest) :
    nextToken (text ++ rest) = .ok (⟨type, runes text, (text ++ rest).length⟩, rest) := by
  simp only [punctuation, mem_cons, not_mem_nil, or_false, Prod.mk.injEq] at listed
  rcases listed with ⟨rfl, rfl⟩ | ⟨rfl, rfl⟩ | ⟨rfl, rfl⟩ | ⟨rfl, rfl⟩ | ⟨rfl, rfl⟩ | ⟨rfl, rfl⟩ | ⟨rfl, rfl⟩ |
    ⟨rfl, rfl⟩ | ⟨rfl, rfl⟩
  case inr.inr.inr.inr.inr.inl => exact congrArg Except.ok (if_neg follows)
  case inr.inr.inr.inr.inr.inr.inr.inl => exact congrArg Except.ok (if_neg follows)
  all_goals rfl

theorem nextToken_spelled (spelled : TokenText type text) (follows : Follows type rest) :
    nextToken (text ++ rest) = .ok (⟨type, runes text, (text ++ rest).length⟩, rest) := by
  cases spelled with
  | punctuation listed => exact nextToken_punctuation listed follows
  | number amount =>
    rw [nextToken_amount amount (notDigit_of_standsAlone follows.1), numberToken_number follows.1 follows.2]
  | @duration sign digits unit amount isUnit =>
    have ends : ∀ byte ∈ (unit ++ rest).head?, isDigit byte = false := by
      rcases isUnit with ⟨suffix, rfl, isSuffix⟩ | rfl <;> rintro _ ⟨⟩
      · exact (suffix_class _ isSuffix).2.1
      · rfl
    rw [append_assoc, nextToken_amount amount ends, numberToken_duration follows.1 isUnit]
  | @word text word =>
    refine nextToken_word word ?_
    rcases keyword_cases (runes text) with type | type | type | type
    all_goals
      rw [type] at follows
      exact follows.1

end Beads.Query
