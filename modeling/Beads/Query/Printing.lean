import Beads.Query.Durations
import Beads.Query.Grammar
import Beads.Query.Quoting

namespace Beads.Query

/-- Reading these tokens off the input leaves this rest. -/
inductive Lexes : Bytes → List Token → Bytes → Prop where
  | nil (input : Bytes) : Lexes input [] input
  | cons {input after last : Bytes} {token : Token} (read : nextToken input = .ok (token, after))
      (notEnd : token.type ≠ .eof) (rest : Lexes after tokens last) : Lexes input (token :: tokens) last

def Ends (input : Bytes) : Prop := ∃ last after, nextToken input = .ok (last, after) ∧ last.type = .eof

def isFrame : TokenType → Bool
  | .lParen | .rParen | .and | .or | .not => true
  | _ => false

/-- Comparisons in order, with keywords and parentheses between them. -/
inductive Flat : List Comparison → List Token → Prop where
  | nil : Flat [] []
  | frame {token : Token} (framed : isFrame token.type = true) (rest : Flat comparisons tokens) :
      Flat comparisons (token :: tokens)
  | comparison {field op value : Token} {compared : ComparisonOp} (isField : field.type = .ident)
      (isOp : comparisonOp op.type = some compared) (hasValue : isValue value.type = true) (rest : Flat comparisons tokens) :
      Flat (⟨fieldName field.value, compared, value.value, value.type⟩ :: comparisons) (field :: op :: value :: tokens)

def Node.comparisons : Node → List Comparison
  | .comparison compared => [compared]
  | .and left right | .or left right => left.comparisons ++ right.comparisons
  | .not operand => operand.comparisons

variable {input rest middle other : Bytes} {tokens others before after : List Token} {node : Node} {p last : Parser}
  {comparisons : List Comparison} {compared : Comparison} {type : TokenType} {text : Bytes}

theorem Lexes.append (first : Lexes input before middle) (second : Lexes middle after rest) :
    Lexes input (before ++ after) rest := by
  induction first with
  | nil input => exact second
  | cons read notEnd rest ih => exact .cons read notEnd (ih second)

theorem Ends.not_lexes {token : Token} (ends : Ends input) : ¬ Lexes input (token :: tokens) rest := by
  rintro (_ | ⟨read, notEnd, more⟩)
  obtain ⟨last, after, readEnd, isEnd⟩ := ends
  cases readEnd.symm.trans read
  exact notEnd isEnd

theorem Lexes.unique (one : Lexes input tokens rest) (ends : Ends rest)
    (two : Lexes input others other) (endsToo : Ends other) : tokens = others := by
  induction one generalizing others with
  | nil input =>
    cases others with
    | nil => rfl
    | cons token others => exact absurd two ends.not_lexes
  | cons read notEnd more ih =>
    cases two with
    | nil => exact absurd (.cons read notEnd more) endsToo.not_lexes
    | cons readToo notEndToo moreToo =>
      cases readToo.symm.trans read
      rw [ih ends moreToo]

open List

theorem Lexes.token (lexes : Lexes input tokens rest) :
    ∀ token ∈ tokens, token.type ≠ .eof ∧ ∃ here after, nextToken here = .ok (token, after) := by
  induction lexes with
  | nil input => exact nofun
  | cons read notEnd rest ih => exact forall_mem_cons.mpr ⟨⟨notEnd, _, _, read⟩, ih⟩

theorem Lexes.reads (lexes : Lexes input tokens rest) (moved : advance rest = .ok last) :
    ∃ p, advance input = .ok p ∧ Reads p tokens last := by
  induction lexes with
  | nil input => exact ⟨last, moved, .nil last⟩
  | @cons tokens input after rest token read notEnd more ih =>
    obtain ⟨next, movedNext, reads⟩ := ih moved
    refine ⟨⟨token, after⟩, ?_, .cons notEnd movedNext reads⟩
    rw [advance, read]

theorem Reads.lexes (reads : Reads p tokens last) (moved : advance input = .ok p) :
    ∃ rest, Lexes input tokens rest ∧ advance rest = .ok last := by
  induction reads generalizing input with
  | nil p => exact ⟨input, .nil input, moved⟩
  | cons notEnd movedNext more ih =>
    obtain ⟨rest, lexes, movedLast⟩ := ih movedNext
    exact ⟨rest, .cons (advance_eq_ok moved) notEnd lexes, movedLast⟩

theorem parse_eq_ok_iff_lexes :
    parse input = .ok node ↔ ∃ tokens rest, Lexes input tokens rest ∧ Ends rest ∧ Derives .or node tokens := by
  rw [parse_eq_ok_iff]
  constructor
  · rintro ⟨p, tokens, last, moved, derived, reads, isEnd⟩
    obtain ⟨rest, lexes, movedLast⟩ := reads.lexes moved
    exact ⟨tokens, rest, lexes, ⟨_, _, advance_eq_ok movedLast, isEnd⟩, derived⟩
  · rintro ⟨tokens, rest, lexes, ⟨last, after, read, isEnd⟩, derived⟩
    have movedLast : advance rest = .ok ⟨last, after⟩ := by rw [advance, read]
    obtain ⟨p, moved, reads⟩ := lexes.reads movedLast
    exact ⟨p, tokens, ⟨last, after⟩, moved, derived, reads, isEnd⟩

/-- The tree that the parser returns is the only one the grammar gives the tokens of its input. -/
theorem parse_unambiguous (input : Bytes) (node : Node) : parse input = .ok node ↔
    ∃ tokens rest, Lexes input tokens rest ∧ Ends rest ∧ Derives .or node tokens ∧
      ∀ other, Derives .or other tokens → other = node := by
  constructor
  · intro parsed
    obtain ⟨tokens, rest, lexes, ends, derived⟩ := parse_eq_ok_iff_lexes.mp parsed
    refine ⟨tokens, rest, lexes, ends, derived, fun other again => ?_⟩
    have second := parse_eq_ok_iff_lexes.mpr ⟨tokens, rest, lexes, ends, again⟩
    exact Except.ok.inj (second.symm.trans parsed)
  · rintro ⟨tokens, rest, lexes, ends, derived, _⟩
    exact parse_eq_ok_iff_lexes.mpr ⟨tokens, rest, lexes, ends, derived⟩

theorem Flat.append {one two : List Comparison} (first : Flat one before)
    (second : Flat two after) : Flat (one ++ two) (before ++ after) := by
  induction first with
  | nil => exact second
  | frame framed rest ih => exact .frame framed ih
  | comparison isField isOp hasValue rest ih => exact .comparison isField isOp hasValue ih

theorem Derives.flat {level : Level} (derived : Derives level node tokens) : Flat node.comparisons tokens := by
  induction derived with
  | comparison isField isOp hasValue => exact .comparison isField isOp hasValue .nil
  | parens opens inside closes ih =>
    have joined := ih.append (.frame (by rw [closes]; rfl) .nil)
    rw [append_nil] at joined
    exact .frame (by rw [opens]; rfl) joined
  | primary derived ih | operand derived ih | conjunct derived ih => exact ih
  | not isNot derived ih => exact .frame (by rw [isNot]; rfl) ih
  | and left isKeyword right ihLeft ihRight | or left isKeyword right ihLeft ihRight =>
    exact ihLeft.append (.frame (by rw [isKeyword]; rfl) ihRight)

def FieldSpelled (field : List Char) : Prop :=
  ∃ text, WordText text ∧ keyword (runes text) = .ident ∧ field = fieldName (runes text)

def Spelled (compared : Comparison) : Prop :=
  FieldSpelled compared.field ∧ isValue compared.valueType = true ∧
    (compared.valueType ≠ .string → ∃ text, TokenText compared.valueType text ∧ compared.value = runes text)

theorem TokenText.ident_word (spelled : TokenText .ident text) : WordText text ∧ keyword (runes text) = .ident := by
  generalize type : TokenType.ident = kind at spelled
  cases spelled with
  | punctuation listed =>
    subst type
    simp [Query.punctuation] at listed
  | number amount | duration amount unit => cases type
  | word word => exact ⟨word, rfl⟩

theorem Flat.spelled (flat : Flat comparisons tokens)
    (lexed : ∀ token ∈ tokens, token.type ≠ .eof ∧ ∃ here after,
    nextToken here = .ok (token, after)) : ∀ compared ∈ comparisons, Spelled compared := by
  induction flat with
  | nil => exact nofun
  | frame framed rest ih => exact ih (forall_mem_cons.mp lexed).2
  | comparison isField isOp hasValue rest ih =>
    simp only [forall_mem_cons] at lexed
    obtain ⟨⟨-, here, after, read⟩, -, ⟨notEnd, valueHere, valueAfter, readValue⟩, later⟩ := lexed
    obtain ⟨gap, text, -, spelled, fieldText, -⟩ := nextToken_found read (by simp [isField]) (by simp [isField])
    rw [isField] at spelled
    obtain ⟨word, notKeyword⟩ := spelled.ident_word
    refine forall_mem_cons.mpr ⟨⟨⟨text, word, notKeyword, by rw [fieldText]⟩, hasValue, fun notString => ?_⟩, ih later⟩
    obtain ⟨gap, text, -, spelled, valueText, -⟩ := nextToken_found readValue notEnd notString
    exact ⟨text, spelled, valueText⟩

theorem parse_spelled (parsed : parse input = .ok node) : ∀ compared ∈ node.comparisons, Spelled compared := by
  obtain ⟨tokens, rest, lexes, -, derived⟩ := parse_eq_ok_iff_lexes.mp parsed
  exact derived.flat.spelled lexes.token

def AfterField (before token : Token) : Prop := (comparisonOp token.type).isSome = true → before.type = .ident

theorem isChain_cons {token : Token} (notOp : comparisonOp token.type = none) (chain : (token :: tokens).IsChain AfterField)
    (before : Token) : (before :: token :: tokens).IsChain AfterField := by
  refine .cons_cons (fun isOp => ?_) chain
  rw [notOp] at isOp
  cases isOp

theorem Flat.isChain (flat : Flat comparisons tokens) (before : Token) : (before :: tokens).IsChain AfterField := by
  induction flat generalizing before with
  | nil => exact isChain_singleton before
  | @frame comparisons tokens token framed rest ih =>
    refine isChain_cons ?_ (ih token) before
    cases type : token.type <;> first | rfl | (rw [type] at framed; cases framed)
  | @comparison comparisons tokens field op value compared isField isOp hasValue rest ih =>
    have notOp : comparisonOp value.type = none := by
      cases type : value.type <;> first | rfl | (rw [type] at hasValue; cases hasValue)
    exact isChain_cons (by rw [isField]; rfl) (.cons_cons (fun _ => isField) (isChain_cons notOp (ih value) op)) before

theorem toNat_rune : ∀ byte, (rune byte).toNat = byte.toNat := forall_byte (by decide +kernel)

theorem rune_injective : Function.Injective rune := by
  intro one other same
  have numbers := congrArg Char.toNat same
  rw [toNat_rune, toNat_rune] at numbers
  exact UInt8.toNat_inj.mp numbers

open Utf8

theorem encode_runes (ascii : ∀ char ∈ runes text, char.toNat < 0x80) : encode (runes text) = text := by
  induction text with
  | nil => rfl
  | cons byte text ih =>
    obtain ⟨here, later⟩ := forall_mem_cons.mp ascii
    change String.utf8EncodeChar (rune byte) ++ encode (runes text) = byte :: text
    rw [encode_ascii here, ih later, toNat_rune, UInt8.ofNat_toNat]
    rfl

variable {digits lowered : Bytes}

theorem runes_append (one other : Bytes) : runes (one ++ other) = runes one ++ runes other :=
  map_append

def lowerByte (byte : UInt8) : UInt8 := UInt8.ofNat (toLower (rune byte)).toNat

def Lowers (byte lower : UInt8) : Prop := lower = byte ∨ lower = lowerByte byte

theorem lowerByte_class : ∀ byte, rune (lowerByte byte) = toLower (rune byte) ∧
    isIdentStart (lowerByte byte) = isIdentStart byte ∧ isIdentChar (lowerByte byte) = isIdentChar byte ∧
    isDigit (lowerByte byte) = isDigit byte ∧ isDurationSuffix (lowerByte byte) = isDurationSuffix byte ∧
    toUpper (rune (lowerByte byte)) = toUpper (rune byte) ∧ (isDigit byte = true → lowerByte byte = byte) :=
  forall_byte (by decide +kernel)

theorem Lowers.class {byte lower : UInt8} (lowers : Lowers byte lower) :
    isIdentStart lower = isIdentStart byte ∧ isIdentChar lower = isIdentChar byte ∧
    isDigit lower = isDigit byte ∧ isDurationSuffix lower = isDurationSuffix byte ∧
    toUpper (rune lower) = toUpper (rune byte) ∧ (isDigit byte = true → lower = byte) := by
  obtain rfl | rfl := lowers
  · exact ⟨rfl, rfl, rfl, rfl, rfl, fun _ => rfl⟩
  · exact (lowerByte_class byte).2

theorem runes_lower (text : Bytes) : runes (text.map lowerByte) = (runes text).map toLower := by
  simp [runes, (lowerByte_class _).1]

theorem forall₂_lowers_map (text : Bytes) : List.Forall₂ Lowers text (text.map lowerByte) :=
  forall₂_map_right_iff.mpr (forall₂_same.mpr fun _ _ => .inr rfl)

theorem forall₂_lowers_refl (text : Bytes) : List.Forall₂ Lowers text text :=
  forall₂_same.mpr fun _ _ => .inl rfl

theorem fieldName_lowers (text : Bytes) :
    ∃ lowered, fieldName (runes text) = runes lowered ∧ List.Forall₂ Lowers text lowered := by
  unfold fieldName
  dsimp only
  split
  · rename_i metadata
    obtain ⟨key, whole⟩ := isPrefixOf_iff_prefix.mp metadata.1
    refine ⟨(text.take metadataPrefix.length).map lowerByte ++ text.drop metadataPrefix.length, ?_, ?_⟩
    · have start : runes ((text.take metadataPrefix.length).map lowerByte) = metadataPrefix := by
        rw [runes_lower]
        have taken := congrArg (take metadataPrefix.length) whole
        rw [take_left' rfl] at taken
        simpa [runes, map_take] using taken.symm
      rw [runes_append, start]
      simp [runes, map_drop]
    · have joined : List.Forall₂ Lowers (text.take metadataPrefix.length ++ text.drop metadataPrefix.length) _ :=
        rel_append (forall₂_lowers_map _) (forall₂_lowers_refl _)
      rwa [take_append_drop] at joined
  · exact ⟨text.map lowerByte, (runes_lower text).symm, forall₂_lowers_map text⟩

theorem toLower_cases (char : Char) : toLower char = char ∨
    (0x41 ≤ char.toNat ∧ char.toNat ≤ 0x5a ∨ 0xc0 ≤ char.toNat ∧ char.toNat ≤ 0xde) ∧
      (toLower char).toNat = char.toNat + 0x20 := by
  unfold toLower
  split
  · have valid : (char.toNat + 0x20).isValidChar := .inl (by omega)
    refine .inr ⟨by omega, ?_⟩
    rw [Char.ofNat, dif_pos valid]
    rfl
  · exact .inl rfl

theorem toLower_toLower (char : Char) : toLower (toLower char) = toLower char := by
  rcases toLower_cases char with kept | ⟨upper, number⟩
  · rw [kept, kept]
  · rcases toLower_cases (toLower char) with kept | ⟨again, -⟩
    · exact kept
    · omega

theorem fieldName_fieldName (value : List Char) : fieldName (fieldName value) = fieldName value := by
  have lowered : (fieldName value).map toLower = value.map toLower := by
    unfold fieldName
    dsimp only
    split
    · rename_i metadata
      obtain ⟨key, whole⟩ := isPrefixOf_iff_prefix.mp metadata.1
      rw [map_append, map_drop, ← whole, drop_left' rfl]
      rfl
    · simp [toLower_toLower]
  rw [fieldName, lowered, fieldName]
  split_ifs
  · rw [drop_left' rfl]
  · rfl

/-- Digits and `min`: a field name that reads as a duration. -/
def MinutesField (field : List Char) : Prop :=
  field.takeWhile isDecimal ≠ [] ∧ field.dropWhile isDecimal = "min".toList

instance (field : List Char) : Decidable (MinutesField field) := inferInstanceAs (Decidable (_ ∧ _))

theorem keyword_lowers (lowers : List.Forall₂ Lowers text lowered) :
    keyword (runes lowered) = keyword (runes text) := by
  have upper : (runes lowered).map toUpper = (runes text).map toUpper := by
    induction lowers with
    | nil => rfl
    | cons here later ih =>
      simp only [runes, map_cons] at ih ⊢
      rw [here.class.2.2.2.2.1, ih]
  rw [keyword, keyword, upper]

theorem forall₂_split {α β : Type} {holds : α → β → Prop} {one other : List α} {joined : List β}
    (each : List.Forall₂ holds (one ++ other) joined) :
    ∃ first second, joined = first ++ second ∧ List.Forall₂ holds one first ∧ List.Forall₂ holds other second := by
  exact ⟨_, _, (take_append_drop one.length joined).symm,
    (forall₂_take_append _ _ _ each.flip).flip, (forall₂_drop_append _ _ _ each.flip).flip⟩

theorem Lowers.numeric (lowers : List.Forall₂ Lowers digits lowered)
    (numeric : ∀ byte ∈ digits, isDigit byte = true) : lowered = digits := by
  induction lowers with
  | nil => rfl
  | cons here later ih =>
    obtain ⟨digit, rest⟩ := forall_mem_cons.mp numeric
    rw [here.class.2.2.2.2.2 digit, ih rest]

theorem Lowers.chars (lowers : List.Forall₂ Lowers text lowered)
    (chars : ∀ byte ∈ text, isIdentChar byte = true) : ∀ byte ∈ lowered, isIdentChar byte = true := by
  induction lowers with
  | nil => exact chars
  | cons here later ih =>
    obtain ⟨char, rest⟩ := forall_mem_cons.mp chars
    exact forall_mem_cons.mpr ⟨here.class.2.1.trans char, ih rest⟩

theorem Amount.decimal (amount : Amount [] digits) : ∀ char ∈ runes digits, isDecimal char = true := by
  intro char member
  obtain ⟨byte, inside, rfl⟩ := mem_map.mp member
  rw [isDecimal_rune]
  exact amount.numeric byte inside

theorem span_digits {byte : UInt8} (amount : Amount [] digits) (notDigit : isDigit byte = false) :
    (runes (digits ++ byte :: rest)).takeWhile isDecimal = runes digits ∧
      (runes (digits ++ byte :: rest)).dropWhile isDecimal = runes (byte :: rest) := by
  have stops : ∀ char ∈ (runes (byte :: rest)).head?, isDecimal char = false := by
    intro char first
    cases first
    rw [isDecimal_rune, notDigit]
  rw [runes_append]
  exact span_exact amount.decimal stops

theorem minutesField_digits (amount : Amount [] digits) : MinutesField (runes (digits ++ minutes)) := by
  obtain ⟨taken, left⟩ := @span_digits [0x69, 0x6e] digits 0x6d amount rfl
  refine ⟨fun empty => amount.nonempty ?_, left⟩
  simpa [runes] using taken.symm.trans empty

theorem eq_minutes_of_field {byte : UInt8} (amount : Amount [] digits) (notDigit : isDigit byte = false)
    (isField : MinutesField (runes (digits ++ byte :: rest))) : byte :: rest = minutes := by
  have same := (span_digits amount notDigit).2.symm.trans isField.2
  exact map_injective_iff.mpr rune_injective same

theorem WordText.lowers (word : WordText text) (lowers : List.Forall₂ Lowers text lowered) :
    if MinutesField (runes lowered) then TokenText .duration lowered else WordText lowered := by
  cases word with
  | letters start chars =>
    cases lowers with
    | @cons _ lower _ rest here later =>
      have startToo := here.class.1.trans start
      rw [if_neg]
      · exact .letters startToo (Lowers.chars later chars)
      · rintro ⟨digits, -⟩
        refine digits ?_
        have notDigit := (start_class _ startToo).2.2.2
        simp [runes, isDecimal_rune, notDigit]
  | @digits digits more byte amount notDigit chars notUnit =>
    obtain ⟨first, second, rfl, lowersDigits, lowersRest⟩ := forall₂_split lowers
    obtain rfl := Lowers.numeric lowersDigits amount.numeric
    cases lowersRest with
    | @cons _ lower _ rest here later =>
      have notDigitToo := here.class.2.2.1.trans notDigit
      by_cases isMinutes : lower :: rest = minutes
      · rw [isMinutes, if_pos (minutesField_digits amount)]
        exact .duration amount (.inr rfl)
      · rw [if_neg]
        · refine .digits amount notDigitToo (Lowers.chars (.cons here later) chars) ?_
          rintro (⟨suffix, single, isSuffix⟩ | same)
          · -- The suffix was one before it was set in lower case.
            obtain ⟨rfl, rfl⟩ := cons.inj single
            cases later
            exact notUnit (.inl ⟨byte, rfl, here.class.2.2.2.1.symm.trans isSuffix⟩)
          · exact isMinutes same
        · exact fun isField => isMinutes (eq_minutes_of_field amount notDigitToo isField)

def Separates (rest : Bytes) : Prop := standsAlone rest = true ∧ rest.head? ≠ some 0

def Ascii (text : List Char) : Prop := ∀ char ∈ text, char.toNat < 0x80

theorem field_printed {field : List Char} (spelled : FieldSpelled field) (ascii : Ascii field)
    (separates : Separates rest) : ∃ token, nextToken (encode field ++ rest) = .ok (token, rest) ∧
      token.value = field ∧ token.type = if MinutesField field then .duration else .ident := by
  obtain ⟨text, word, notKeyword, rfl⟩ := spelled
  obtain ⟨lowered, name, lowers⟩ := fieldName_lowers text
  rw [name] at ascii ⊢
  rw [encode_runes ascii]
  have shape := word.lowers lowers
  by_cases isMinutes : MinutesField (runes lowered)
  · rw [if_pos isMinutes] at shape ⊢
    exact ⟨_, nextToken_spelled shape separates, rfl, rfl⟩
  · rw [if_neg isMinutes] at shape ⊢
    have read := nextToken_word shape separates.1
    rw [keyword_lowers lowers, notKeyword] at read
    exact ⟨_, read, rfl, rfl⟩

section

variable (op : ComparisonOp)

theorem op_listed : (op.token, encode op.text) ∈ punctuation := by
  cases op <;> decide

theorem comparisonOp_token : comparisonOp op.token = some op := by
  cases op <;> rfl

theorem value_head (spelled : TokenText type text) (hasValue : isValue type = true) :
    (text ++ rest).head? ≠ some 0x3d := by
  have amountHead : ∀ {sign digits after : Bytes}, Amount sign digits → (sign ++ digits ++ after).head? ≠ some 0x3d := by
    intro sign digits after amount equals
    rcases amount.signed with rfl | ⟨byte, rfl, isSign⟩
    · cases digits with
      | nil => exact amount.nonempty rfl
      | cons digit digits =>
        cases equals
        exact absurd (amount.numeric 0x3d (by simp)) (by decide)
    · cases equals
      exact absurd isSign (by decide)
  cases spelled with
  | punctuation listed =>
    have none : ∀ entry ∈ punctuation, ¬isValue entry.1 = true := by decide
    exact absurd hasValue (none _ listed)
  | number amount => exact amountHead amount
  | duration amount unit =>
    rw [append_assoc]
    exact amountHead amount
  | word word =>
    cases word with
    | letters start chars =>
      intro equals
      cases equals
      exact absurd start (by decide)
    | digits amount notDigit chars notUnit =>
      rw [append_assoc]
      exact @amountHead [] _ _ amount

theorem op_follows (head : rest.head? ≠ some 0x3d) : Follows op.token rest := by
  cases op <;> first | exact head | trivial

theorem op_separates (rest : Bytes) : Separates (encode op.text ++ rest) := by
  cases op <;> exact ⟨rfl, fun zero => absurd (Option.some.inj zero) (by decide)⟩

end

theorem value_follows (hasValue : isValue type = true) (separates : Separates rest) : Follows type rest := by
  cases type <;> first | exact separates | cases hasValue

theorem comparison_printed (spelled : Spelled compared) (unquoted : compared.valueType ≠ .string)
    (ascii : Ascii compared.field ∧ Ascii compared.value) (separates : Separates rest) :
    ∃ field op value, Lexes (encode (Node.comparison compared).text ++ rest) [field, op, value] rest ∧
      field.value = compared.field ∧ field.type = (if MinutesField compared.field then .duration else .ident) ∧
      comparisonOp op.type = some compared.op ∧ value.value = compared.value ∧ value.type = compared.valueType := by
  obtain ⟨fieldSpelled, hasValue, valueSpelled⟩ := spelled
  obtain ⟨text, valueText, value⟩ := valueSpelled unquoted
  rw [value] at ascii
  have afterOp := op_follows compared.op (@value_head rest _ _ valueText hasValue)
  obtain ⟨field, readField, fieldValue, fieldType⟩ :=
    field_printed fieldSpelled ascii.1 (op_separates compared.op (text ++ rest))
  have readOp := nextToken_punctuation (op_listed compared.op) afterOp
  have readValue := nextToken_spelled valueText (value_follows hasValue separates)
  have split : encode (Node.comparison compared).text ++ rest =
      encode compared.field ++ (encode compared.op.text ++ (text ++ rest)) := by
    simp [Node.text, value, encode_runes ascii.2]
  have opType := comparisonOp_token compared.op
  rw [split]
  refine ⟨field, _, _, .cons readField ?_ (.cons readOp (comparisonOp_ne_eof opType)
    (.cons readValue (isValue_ne_eof hasValue) (.nil rest))), fieldValue, fieldType, opType, value.symm, rfl⟩
  rw [fieldType]
  split <;> decide

theorem nextToken_space (input : Bytes) : nextToken (0x20 :: input) = nextToken input := rfl

theorem Lexes.space (lexes : Lexes input tokens rest) (nonempty : tokens ≠ []) : Lexes (0x20 :: input) tokens rest := by
  cases lexes with
  | nil => exact absurd rfl nonempty
  | cons read notEnd more => exact .cons ((nextToken_space _).trans read) notEnd more

/-- The tokens derive the tree, unless a field name is a number of minutes. -/
structure Printed (node : Node) (tokens : List Token) : Prop where
  nonempty : tokens ≠ []
  derives (noMinutes : ∀ compared ∈ node.comparisons, ¬ MinutesField compared.field) : Derives .not node tokens
  refused (minutes : ∃ compared ∈ node.comparisons, MinutesField compared.field) : ¬ tokens.IsChain AfterField

/-- The printed tree can be read, whatever separates it from what comes next. -/
def Readable (node : Node) : Prop :=
  ∀ rest : Bytes, Separates rest → ∃ tokens, Lexes (Utf8.encode node.text ++ rest) tokens rest ∧ Printed node tokens

/-- A comparison of ASCII texts with an unquoted value. -/
def Plain (compared : Comparison) : Prop :=
  Spelled compared ∧ compared.valueType ≠ .string ∧ Ascii compared.field ∧ Ascii compared.value

theorem Readable.comparison (plain : Plain compared) : Readable (.comparison compared) := by
  intro rest separates
  obtain ⟨spelled, unquoted, ascii⟩ := plain
  obtain ⟨field, op, value, lexes, fieldValue, fieldType, isOp, valueText, valueType⟩ :=
    comparison_printed spelled unquoted ascii separates
  refine ⟨_, lexes, cons_ne_nil _ _, fun noMinutes => ?_, ?_⟩
  · rw [if_neg (noMinutes compared (.head _))] at fieldType
    have name : fieldName field.value = compared.field := by
      obtain ⟨text, -, -, same⟩ := spelled.1
      rw [fieldValue, same, fieldName_fieldName]
    have derived := Derives.comparison fieldType isOp (valueType ▸ spelled.2.1)
    rw [name, valueText, valueType] at derived
    exact .primary derived
  · rintro ⟨other, member, minutes⟩ chain
    obtain rfl := mem_singleton.mp member
    rw [if_pos minutes] at fieldType
    have after := (isChain_cons_cons.mp chain).1 (by rw [isOp]; rfl)
    rw [fieldType] at after
    cases after

theorem nil_separates : Separates [] := ⟨rfl, nofun⟩

theorem space_separates (rest : Bytes) : Separates (0x20 :: rest) := ⟨rfl, by simp⟩

theorem rParen_separates (rest : Bytes) : Separates (0x29 :: rest) := ⟨rfl, by simp⟩

theorem encode_pair {word : List Char} {bytes : Bytes} (keyword : encode word = 0x20 :: bytes ++ [0x20])
    (left right : List Char) (rest : Bytes) : encode ('(' :: left ++ word ++ right ++ [')']) ++ rest =
      0x28 :: (encode left ++ 0x20 :: (bytes ++ 0x20 :: (encode right ++ 0x29 :: rest))) := by
  have opening : encode ('(' :: left) = 0x28 :: encode left := rfl
  have closing : encode [')'] = [0x29] := rfl
  rw [encode_append, encode_append, encode_append, keyword, opening, closing]
  simp

theorem Readable.pair {one two : Node} {word : Bytes} (isWord : TokenText type word)
    (follows : ∀ {rest}, Separates rest → Follows type rest) (notEnd : type ≠ .eof)
    (printed : ∀ rest, encode node.text ++ rest =
      0x28 :: (encode one.text ++ 0x20 :: (word ++ 0x20 :: (encode two.text ++ 0x29 :: rest))))
    (members : node.comparisons = one.comparisons ++ two.comparisons)
    (derives : ∀ {left right : List Token} {between : Token}, Derives .not one left →
      between.type = type → Derives .not two right → Derives .or node (left ++ between :: right))
    (readsOne : Readable one) (readsTwo : Readable two) : Readable node := by
  intro rest separates
  obtain ⟨right, lexesRight, printedRight⟩ := readsTwo _ (rParen_separates rest)
  obtain ⟨left, lexesLeft, printedLeft⟩ :=
    readsOne _ (space_separates (word ++ 0x20 :: (encode two.text ++ 0x29 :: rest)))
  have opens := @nextToken_punctuation [0x28] (encode one.text ++
    0x20 :: (word ++ 0x20 :: (encode two.text ++ 0x29 :: rest))) .lParen (by decide) trivial
  have closes := @nextToken_punctuation [0x29] rest .rParen (by decide) trivial
  have between := nextToken_spelled isWord (follows (space_separates (encode two.text ++ 0x29 :: rest)))
  have inside := lexesLeft.append (.cons ((nextToken_space _).trans between) notEnd (lexesRight.space printedRight.nonempty))
  rw [printed]
  refine ⟨_, .cons opens (by simp) (inside.append (.cons closes (by simp) (.nil rest))),
    cons_ne_nil _ _, fun noMinutes => ?_, ?_⟩
  · obtain ⟨noneLeft, noneRight⟩ := forall_mem_append.mp (members ▸ noMinutes)
    exact .primary (.parens rfl (derives (printedLeft.derives noneLeft) rfl (printedRight.derives noneRight)) rfl)
  · rintro ⟨compared, member, minutes⟩ chain
    have all : (left ++ _ :: right).IsChain AfterField := chain.tail.left_of_append
    rcases mem_append.mp (members ▸ member) with inLeft | inRight
    · exact printedLeft.refused ⟨compared, inLeft, minutes⟩ all.left_of_append
    · exact printedRight.refused ⟨compared, inRight, minutes⟩ all.right_of_append.tail

theorem and_spelled : TokenText .and [0x41, 0x4e, 0x44] :=
  @TokenText.word [0x41, 0x4e, 0x44] (.letters (by decide) (all_eq_true.mp (by decide)))

theorem or_spelled : TokenText .or [0x4f, 0x52] :=
  @TokenText.word [0x4f, 0x52] (.letters (by decide) (all_eq_true.mp (by decide)))

theorem not_spelled : TokenText .not [0x4e, 0x4f, 0x54] :=
  @TokenText.word [0x4e, 0x4f, 0x54] (.letters (by decide) (all_eq_true.mp (by decide)))

theorem Node.readable (node : Node) (plain : ∀ compared ∈ node.comparisons, Plain compared) : Readable node := by
  induction node with
  | comparison compared => exact Readable.comparison (plain compared (.head _))
  | not operand ih =>
    intro rest separates
    obtain ⟨tokens, lexes, printed⟩ := ih plain _ separates
    have keyword := nextToken_spelled not_spelled (space_separates (encode operand.text ++ rest))
    refine ⟨_, .cons keyword nofun (lexes.space printed.nonempty), cons_ne_nil _ _,
      fun noMinutes => .not rfl (printed.derives noMinutes), fun minutes chain => ?_⟩
    exact printed.refused minutes chain.tail
  | and one two ihOne ihTwo =>
    have members := forall_mem_append.mp plain
    exact Readable.pair and_spelled id (by decide) (encode_pair rfl _ _) rfl
      (fun left isAnd right => .conjunct (.and (.operand left) isAnd right)) (ihOne members.1) (ihTwo members.2)
  | or one two ihOne ihTwo =>
    have members := forall_mem_append.mp plain
    exact Readable.pair or_spelled id (by decide) (encode_pair rfl _ _) rfl
      (fun left isOr right => .or (.conjunct (.operand left)) isOr (.operand right)) (ihOne members.1) (ihTwo members.2)

theorem ends_nil : Ends [] := ⟨_, _, rfl, rfl⟩

theorem parse_printed (plain : ∀ compared ∈ node.comparisons, Plain compared) :
    parse (encode node.text) = .ok node ↔ ∀ compared ∈ node.comparisons, ¬ MinutesField compared.field := by
  obtain ⟨tokens, lexes, printed⟩ := node.readable plain _ nil_separates
  rw [append_nil] at lexes
  rw [parse_eq_ok_iff_lexes]
  constructor
  · rintro ⟨others, rest, lexesToo, ends, derived⟩ compared member minutes
    obtain rfl := lexes.unique ends_nil lexesToo ends
    exact printed.refused ⟨compared, member, minutes⟩ (derived.flat.isChain ⟨.eof, [], 0⟩).tail
  · exact fun noMinutes => ⟨tokens, [], lexes, ends_nil, .conjunct (.operand (printed.derives noMinutes))⟩

end Beads.Query
