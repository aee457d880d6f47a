import Beads.Query.Printing

namespace Beads.Query

def isHigh (char : Char) : Bool := 0x80 ≤ char.toNat

def marks (bytes : Bytes) : Bytes := bytes.filter fun byte => 0x80 ≤ byte && !isSpace byte

open List

theorem marks_append (one other : Bytes) : marks (one ++ other) = marks one ++ marks other :=
  filter_append _ _

theorem marks_spaces {gap : Bytes} (spaces : ∀ byte ∈ gap, isSpace byte = true) : marks gap = [] := by
  refine filter_eq_nil_iff.mpr fun byte member => ?_
  simp [spaces byte member]

theorem Amount.chars {sign digits : Bytes} (amount : Amount sign digits) :
    ∀ byte ∈ sign ++ digits, isSpace byte = false ∧ byte ≠ 0 := by
  refine forall_mem_append.mpr ⟨?_, fun byte member => char_class byte (digit_class _ (amount.numeric byte member)).1⟩
  rcases amount.signed with rfl | ⟨byte, rfl, isSign⟩
  · exact nofun
  · rcases (sign_class byte).mp isSign with rfl | rfl <;> exact forall_mem_singleton.mpr (by decide)

theorem DurationUnit.chars {unit : Bytes} (isUnit : DurationUnit unit) : ∀ byte ∈ unit, isIdentChar byte = true := by
  rcases isUnit with ⟨byte, rfl, suffix⟩ | rfl
  · exact forall_mem_singleton.mpr (suffix_class _ suffix).1
  · exact minutes_chars

variable {type : TokenType} {text : Bytes} {tokens : List Token}

theorem TokenText.chars (spelled : TokenText type text) : ∀ byte ∈ text, isSpace byte = false ∧ byte ≠ 0 := by
  cases spelled with
  | punctuation listed =>
    have all : ∀ entry ∈ Query.punctuation, (entry.2.all fun byte => !isSpace byte && byte != 0) = true := by decide
    simpa using all _ listed
  | number amount => exact amount.chars
  | duration amount unit =>
    exact forall_mem_append.mpr ⟨amount.chars, fun byte member => char_class byte (unit.chars byte member)⟩
  | word word => exact fun byte member => char_class byte (word.chars byte member)

theorem isHigh_rune : ∀ byte, isHigh (rune byte) = decide (0x80 ≤ byte) :=
  forall_byte (by decide +kernel)

theorem TokenText.marks (spelled : TokenText type text) :
    (marks text).map rune = (runes text).filter isHigh := by
  have noSpaces : Query.marks text = text.filter fun byte => 0x80 ≤ byte :=
    filter_congr fun byte member => by simp [(spelled.chars byte member).1]
  rw [noSpaces, runes, filter_map]
  congr 1
  exact filter_congr fun byte _ => (isHigh_rune byte).symm

def tokenHighs (tokens : List Token) : List Char := tokens.flatMap fun token => token.value.filter isHigh

theorem Lexes.marks {input rest : Bytes} (lexes : Lexes input tokens rest) (nonzero : 0 ∉ input)
    (noStrings : ∀ token ∈ tokens, token.type ≠ .string) :
    (marks input).map rune = tokenHighs tokens ++ (Query.marks rest).map rune ∧ 0 ∉ rest := by
  induction lexes with
  | nil input => exact ⟨rfl, nonzero⟩
  | @cons tokens input after last token read notEnd more ih =>
    obtain ⟨notString, laterNot⟩ := forall_mem_cons.mp noStrings
    obtain ⟨gap, text, spaces, spelled, value, split | lost⟩ := nextToken_found read notEnd notString
    · subst split
      have nonzeroAfter : 0 ∉ after := fun zero => nonzero (by simp [zero])
      obtain ⟨later, nonzeroLast⟩ := ih nonzeroAfter laterNot
      refine ⟨?_, nonzeroLast⟩
      rw [marks_append, marks_append, marks_spaces spaces, nil_append, map_append, spelled.marks,
        later, ← value, ← append_assoc]
      rfl
    · exact absurd (lost ▸ (by simp : (0 : UInt8) ∈ gap ++ (text ++ 0 :: after))) nonzero

theorem TokenText.ne_eof (spelled : TokenText type text) : type ≠ .eof := by
  cases spelled with
  | punctuation listed =>
    rintro rfl
    simp [Query.punctuation] at listed
  | number amount | duration amount unit => decide
  | @word text word => rcases keyword_cases (runes text) with type | type | type | type <;> rw [type] <;> decide

theorem Ends.marks {rest : Bytes} (ends : Ends rest) (nonzero : 0 ∉ rest) : marks rest = [] := by
  obtain ⟨last, after, read, isEnd⟩ := ends
  have whole : rest = rest.takeWhile isSpace ++ skipWhitespace rest := takeWhile_append_dropWhile.symm
  rcases nextToken_cases read with ⟨-, zero⟩ | ⟨string, -⟩ | ⟨text, spelled, -⟩
  · cases skipped : skipWhitespace rest with
    | nil =>
      rw [skipped, append_nil] at whole
      rw [whole]
      exact marks_spaces fun byte member => mem_takeWhile_imp member
    | cons byte more =>
      rw [skipped] at zero whole
      obtain rfl : byte = 0 := zero
      exact absurd (whole ▸ (by simp : (0 : UInt8) ∈ rest.takeWhile isSpace ++ 0 :: more)) nonzero
  · rw [isEnd] at string
    cases string
  · exact absurd isEnd spelled.ne_eof

def Node.names (node : Node) : List Char := node.comparisons.flatMap fun compared => compared.field ++ compared.value

def LowersChar (char lower : Char) : Prop := lower = char ∨ lower = toLower char

theorem isHigh_lower {char lower : Char} (lowers : LowersChar char lower) : isHigh lower = isHigh char := by
  obtain rfl | rfl := lowers
  · rfl
  · rcases toLower_cases char with kept | ⟨upper, number⟩
    · rw [kept]
    · rw [isHigh, isHigh, number]
      simp only [decide_eq_decide]
      omega

theorem forall₂_highs {text lowered : List Char} (lowers : List.Forall₂ LowersChar text lowered) :
    List.Forall₂ LowersChar (text.filter isHigh) (lowered.filter isHigh) := by
  induction lowers with
  | nil => exact .nil
  | @cons char lower text lowered here later ih =>
    have same := isHigh_lower here
    cases high : isHigh char with
    | true =>
      rw [filter_cons_of_pos high, filter_cons_of_pos (same.trans high)]
      exact .cons here ih
    | false =>
      rw [filter_cons_of_neg (by simp [high]), filter_cons_of_neg (by simp [same, high])]
      exact ih

theorem fieldName_lowersChar (text : Bytes) : List.Forall₂ LowersChar (runes text) (fieldName (runes text)) := by
  obtain ⟨lowered, name, lowers⟩ := fieldName_lowers text
  rw [name]
  refine forall₂_map_left_iff.mpr (forall₂_map_right_iff.mpr (lowers.imp fun byte lower here => ?_))
  obtain rfl | rfl := here
  · exact .inl rfl
  · exact .inr (lowerByte_class byte).1

theorem toUpper_high : ∀ byte, isHigh (rune byte) = true → isHigh (toUpper (rune byte)) = true :=
  forall_byte (by decide +kernel)

theorem highs_eq_nil_of_upper {word : List Char} (upper : (runes text).map toUpper = word)
    (ascii : ∀ char ∈ word, isHigh char = false) : (runes text).filter isHigh = [] := by
  refine filter_eq_nil_iff.mpr fun char member high => ?_
  obtain ⟨byte, inside, rfl⟩ := mem_map.mp member
  have inWord : toUpper (rune byte) ∈ word := upper ▸ mem_map_of_mem member
  exact absurd ((ascii _ inWord).symm.trans (toUpper_high byte high)) nofun

theorem TokenText.highs (spelled : TokenText type text) (notValue : isValue type = false) :
    (runes text).filter isHigh = [] := by
  cases spelled with
  | punctuation listed =>
    have all : ∀ entry ∈ Query.punctuation, (runes entry.2).filter isHigh = [] := by decide
    exact all _ listed
  | number amount | duration amount unit => cases notValue
  | @word text word =>
    unfold keyword at notValue
    dsimp only at notValue
    split_ifs at notValue with isAnd isOr isNot
    · exact highs_eq_nil_of_upper isAnd (by simp [isHigh])
    · exact highs_eq_nil_of_upper isOr (by simp [isHigh])
    · exact highs_eq_nil_of_upper isNot (by simp [isHigh])
    · cases notValue

def Lexed (token : Token) : Prop := ∃ text, TokenText token.type text ∧ token.value = runes text

theorem Lexed.highs {token : Token} (lexed : Lexed token) (notValue : isValue token.type = false) :
    token.value.filter isHigh = [] := by
  obtain ⟨text, spelled, value⟩ := lexed
  rw [value]
  exact spelled.highs notValue

theorem tokenHighs_cons (token : Token) (tokens : List Token) :
    tokenHighs (token :: tokens) = token.value.filter isHigh ++ tokenHighs tokens := rfl

theorem comparisonOp_notValue {op : ComparisonOp} (isOp : comparisonOp type = some op) : isValue type = false := by
  cases type <;> first | rfl | cases isOp

theorem isFrame_notValue (framed : isFrame type = true) : isValue type = false := by
  cases type <;> first | rfl | cases framed

/-- The characters outside ASCII in the comparisons are those of their tokens,
some in lower case. -/
theorem Flat.highs {comparisons : List Comparison} (flat : Flat comparisons tokens)
    (lexed : ∀ token ∈ tokens, Lexed token) : List.Forall₂ LowersChar (tokenHighs tokens)
      ((comparisons.flatMap fun compared => compared.field ++ compared.value).filter isHigh) := by
  induction flat with
  | nil => exact .nil
  | frame framed rest ih =>
    obtain ⟨here, later⟩ := forall_mem_cons.mp lexed
    rw [tokenHighs_cons, here.highs (isFrame_notValue framed), nil_append]
    exact ih later
  | @comparison comparisons tokens field op value compared isField isOp hasValue rest ih =>
    simp only [forall_mem_cons] at lexed
    obtain ⟨⟨text, -, fieldText⟩, lexedOp, -, later⟩ := lexed
    rw [tokenHighs_cons, tokenHighs_cons, tokenHighs_cons, lexedOp.highs (comparisonOp_notValue isOp), nil_append,
      flatMap_cons, filter_append, filter_append, append_assoc, fieldText]
    exact rel_append (forall₂_highs (fieldName_lowersChar text))
      (rel_append (forall₂_same.mpr fun _ _ => .inl rfl) (ih later))

theorem Flat.noStrings {comparisons : List Comparison} (flat : Flat comparisons tokens)
    (unquoted : ∀ compared ∈ comparisons, compared.valueType ≠ .string) : ∀ token ∈ tokens, token.type ≠ .string := by
  induction flat with
  | nil => exact nofun
  | frame framed rest ih =>
    refine forall_mem_cons.mpr ⟨fun string => ?_, ih unquoted⟩
    rw [string] at framed
    cases framed
  | comparison isField isOp hasValue rest ih =>
    obtain ⟨here, later⟩ := forall_mem_cons.mp unquoted
    simp only [forall_mem_cons]
    refine ⟨by simp [isField], fun string => ?_, here, ih later⟩
    rw [string] at isOp
    cases isOp

open Node

theorem highs_text (node : Node) : node.text.filter isHigh = node.names.filter isHigh := by
  have pair : ∀ {word left right : List Char}, word.filter isHigh = [] →
      ('(' :: left ++ word ++ right ++ [')']).filter isHigh = left.filter isHigh ++ right.filter isHigh := by
    intro word left right plain
    have opening : ('(' :: left).filter isHigh = left.filter isHigh := filter_cons_of_neg (by decide)
    have closing : [')'].filter isHigh = [] := by decide
    rw [filter_append, filter_append, filter_append, opening, plain, closing, append_nil, append_nil]
  induction node with
  | comparison compared =>
    have opHighs : compared.op.text.filter isHigh = [] := by cases compared.op <;> decide
    simp [text, names, comparisons, opHighs]
  | not operand ih => exact (filter_append _ _).trans ih
  | and left right ihLeft ihRight | or left right ihLeft ihRight =>
    rw [text, pair (by decide), ihLeft, ihRight, ← filter_append]
    simp [names, comparisons]

theorem marks_ascii {char : Char} (ascii : isHigh char = false) : marks (String.utf8EncodeChar char) = [] := by
  have small : char.toNat < 0x80 := by simpa [isHigh] using ascii
  refine filter_eq_nil_iff.mpr fun byte member => ?_
  rcases Utf8.mem_utf8EncodeChar member with ⟨-, same⟩ | ⟨wide, -⟩
  · simp only [Bool.and_eq_true, decide_eq_true_eq, not_and, UInt8.le_iff_toNat_le]
    intro high
    have : 0x80 ≤ byte.toNat := high
    omega
  · omega

theorem marks_encode (text : List Char) :
    marks (Utf8.encode text) = (text.filter isHigh).flatMap fun char => marks (String.utf8EncodeChar char) := by
  induction text with
  | nil => rfl
  | cons char text ih =>
    rw [Utf8.encode_cons, marks_append, ih]
    cases high : isHigh char with
    | true => rw [filter_cons_of_pos high, flatMap_cons]
    | false => rw [filter_cons_of_neg (by simp [high]), marks_ascii high, nil_append]

theorem marks_high : ∀ byte, isHigh (rune byte) = true → 0 < (marks (String.utf8EncodeChar (rune byte))).length ∧
    ∀ lead ∈ marks (String.utf8EncodeChar (rune byte)), 1 < (marks (String.utf8EncodeChar (rune byte))).length ∨
      ¬ (rune byte = rune lead ∨ rune byte = toLower (rune lead)) :=
  forall_byte (by decide +kernel)

theorem highs_eq_nil {highs found : List Char} (latin : ∀ char ∈ highs, isHigh char = true ∧ ∃ byte, char = rune byte)
    (lowers : List.Forall₂ LowersChar found highs)
    (printed : found = (highs.flatMap fun char => marks (String.utf8EncodeChar char)).map rune) : highs = [] := by
  have several : ∀ chars : List Char, (∀ char ∈ chars, isHigh char = true ∧ ∃ byte, char = rune byte) →
      chars.length ≤ (chars.flatMap fun char => marks (String.utf8EncodeChar char)).length := by
    intro chars latin
    induction chars with
    | nil => exact le_rfl
    | cons char chars ih =>
      obtain ⟨⟨high, byte, rfl⟩, later⟩ := forall_mem_cons.mp latin
      have rest := ih later
      have some := (marks_high byte high).1
      rw [flatMap_cons, length_append, length_cons]
      omega
  cases lowers with
  | nil => rfl
  | @cons first high found highs here later =>
    obtain ⟨⟨isHigh, byte, rfl⟩, latinLater⟩ := forall_mem_cons.mp latin
    have atLeast := several highs latinLater
    have lengths := congrArg length printed
    have same := later.length_eq
    rw [flatMap_cons, length_map, length_append, length_cons] at lengths
    obtain ⟨some, different⟩ := marks_high byte isHigh
    obtain ⟨lead, single⟩ := length_eq_one_iff.mp (show (marks (String.utf8EncodeChar (rune byte))).length = 1 by omega)
    rw [flatMap_cons, single] at printed
    obtain ⟨rfl, -⟩ := cons.inj printed
    exact absurd here ((different lead (single ▸ .head _)).resolve_left (by simp [single]))

theorem Spelled.latin {compared : Comparison} (spelled : Spelled compared) (unquoted : compared.valueType ≠ .string) :
    ∀ char ∈ compared.field ++ compared.value, ∃ byte, char = rune byte ∧ byte ≠ 0 := by
  obtain ⟨⟨text, word, -, field⟩, -, spelledValue⟩ := spelled
  obtain ⟨valueText, spelled, value⟩ := spelledValue unquoted
  obtain ⟨lowered, name, lowers⟩ := fieldName_lowers text
  rw [field, name, value]
  refine forall_mem_append.mpr ⟨fun char member => ?_, fun char member => ?_⟩
  · obtain ⟨byte, inside, rfl⟩ := mem_map.mp member
    exact ⟨byte, rfl, (char_class byte (Lowers.chars lowers word.chars byte inside)).2⟩
  · obtain ⟨byte, inside, rfl⟩ := mem_map.mp member
    exact ⟨byte, rfl, (spelled.chars byte inside).2⟩

theorem Node.nonzero_text {node : Node} (nonzero : '\x00' ∉ node.names) : '\x00' ∉ node.text := by
  induction node with
  | comparison compared =>
    have inOp : '\x00' ∉ compared.op.text := by cases compared.op <;> decide
    simp only [names, comparisons, flatMap_singleton, mem_append, not_or] at nonzero
    simp [text, nonzero, inOp]
  | and left right ihLeft ihRight | or left right ihLeft ihRight =>
    simp only [names, comparisons, flatMap_append, mem_append, not_or] at nonzero
    simp [text, ihLeft nonzero.1, ihRight nonzero.2]
  | not operand ih => simp [text, ih nonzero]

theorem zero_notMem_encode {text : List Char} (nonzero : '\x00' ∉ text) : 0 ∉ Utf8.encode text := by
  intro member
  obtain ⟨char, inside, found⟩ := mem_flatMap.mp member
  have differs : char ≠ '\x00' := fun zero => nonzero (zero ▸ inside)
  exact Utf8.ne_of_mem_utf8EncodeChar differs (by decide) found rfl

theorem ascii_of_parse {node : Node} (spelled : ∀ compared ∈ node.comparisons, Spelled compared)
    (unquoted : ∀ compared ∈ node.comparisons, compared.valueType ≠ .string)
    (parsed : parse (Utf8.encode node.text) = .ok node) : Ascii node.names := by
  obtain ⟨tokens, rest, lexes, ends, derived⟩ := parse_eq_ok_iff_lexes.mp parsed
  have latin : ∀ char ∈ node.names, ∃ byte, char = rune byte ∧ byte ≠ 0 := by
    intro char member
    obtain ⟨compared, inside, here⟩ := mem_flatMap.mp member
    exact (spelled compared inside).latin (unquoted compared inside) char here
  have nonzero : '\x00' ∉ node.names := by
    intro member
    obtain ⟨byte, same, notZero⟩ := latin _ member
    exact notZero (rune_injective (show rune byte = rune 0 from same.symm))
  have noStrings := derived.flat.noStrings unquoted
  obtain ⟨found, nonzeroRest⟩ := lexes.marks (zero_notMem_encode (node.nonzero_text nonzero)) noStrings
  have lexed : ∀ token ∈ tokens, Lexed token := by
    intro token member
    obtain ⟨notEnd, here, after, read⟩ := lexes.token token member
    obtain ⟨gap, text, -, spelled, value, -⟩ := nextToken_found read notEnd (noStrings token member)
    exact ⟨text, spelled, value⟩
  rw [ends.marks nonzeroRest, map_nil, append_nil, marks_encode, highs_text] at found
  have none := highs_eq_nil (fun char member => ⟨of_mem_filter member,
    (latin char (mem_of_mem_filter member)).imp fun _ each => each.1⟩) (derived.flat.highs lexed) found.symm
  intro char member
  have low := filter_eq_nil_iff.mp none char member
  simpa [isHigh] using low

/-- The lexer and the parser return, and take at least one byte for each token. A parsed tree with
unquoted values is parsed back from its text if and only if its names and values are ASCII and no
field name is a number of minutes. -/
theorem parse_text (input : Bytes) : tokenize input ≠ .error .exhausted ∧ parse input ≠ .error .exhausted ∧
    (∀ token rest, nextToken input = .ok (token, rest) → token.type ≠ .eof → rest.length < input.length) ∧
    ∀ node, parse input = .ok node → (∀ compared ∈ node.comparisons, compared.valueType ≠ .string) →
      (parse (Utf8.encode node.text) = .ok node ↔ ∀ compared ∈ node.comparisons,
        Ascii (compared.field ++ compared.value) ∧ ¬ MinutesField compared.field) := by
  refine ⟨tokenizeWithin_never (Nat.lt_succ_self _), parse_never input, fun _ _ => nextToken_consumes, ?_⟩
  intro node parsed unquoted
  have spelled := parse_spelled parsed
  have plain (ascii : ∀ compared ∈ node.comparisons, Ascii (compared.field ++ compared.value)) :
      ∀ compared ∈ node.comparisons, Plain compared := fun compared member =>
    ⟨spelled compared member, unquoted compared member, forall_mem_append.mp (ascii compared member)⟩
  constructor
  · intro again compared member
    have ascii : ∀ compared ∈ node.comparisons, Ascii (compared.field ++ compared.value) := fun compared member char inside =>
      ascii_of_parse spelled unquoted again char (mem_flatMap.mpr ⟨compared, member, inside⟩)
    exact ⟨ascii compared member, (parse_printed (plain ascii)).mp again compared member⟩
  · intro holds
    exact (parse_printed (plain fun compared member => (holds compared member).1)).mpr fun compared member =>
      (holds compared member).2

/-- The tree of `not (a=1 or b=2) and c=3`. -/
def nestedNode : Node :=
  .and (.not (.or (.comparison ⟨['a'], .equals, ['1'], .number⟩) (.comparison ⟨['b'], .equals, ['2'], .number⟩)))
    (.comparison ⟨['c'], .equals, ['3'], .number⟩)

theorem parse_text_nested : parse (Utf8.encode "not (a=1 or b=2) and c=3".toList) = .ok nestedNode ∧
    parse (Utf8.encode nestedNode.text) = .ok nestedNode := by
  have parsed : parse (Utf8.encode "not (a=1 or b=2) and c=3".toList) = .ok nestedNode := by rfl
  refine ⟨parsed, ((parse_text _).2.2.2 _ parsed ?_).mpr ?_⟩
  · simp [nestedNode, Node.comparisons]
  · simp [nestedNode, Node.comparisons, Ascii]
    decide

/-- `7MIN=3` is parsed; its text `7min=3` begins with a duration. `ê=1` is parsed; its text has a
byte that begins no token. -/
theorem parse_text_changed :
    parse [0x37, 0x4d, 0x49, 0x4e, 0x3d, 0x33] = .ok (.comparison ⟨['7', 'm', 'i', 'n'], .equals, ['3'], .number⟩) ∧
    parse (Utf8.encode ['7', 'm', 'i', 'n', '=', '3']) = .error (.expectedField 6 .duration) ∧
    parse [0xc3, 0xaa, 0x3d, 0x31] = .ok (.comparison ⟨[Char.ofNat 0xe3, Char.ofNat 0xaa], .equals, ['1'], .number⟩) ∧
    parse (Utf8.encode [Char.ofNat 0xe3, Char.ofNat 0xaa, '=', '1']) =
      .error (.lexical (.unexpectedCharacter 0xa3 5)) :=
  ⟨rfl, rfl, rfl, rfl⟩

end Beads.Query
