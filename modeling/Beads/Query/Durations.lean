import Beads.Query.Tokens
import Beads.Data.GoTime

namespace Beads.Query

open GoTime (wrap)

def isDecimal (char : Char) : Bool := '0' ≤ char && char ≤ '9'

def isSignChar (char : Char) : Bool := char == '+' || char == '-'

def compactUnits : List (List Char) := ["min".toList, ['h'], ['d'], ['w'], ['m'], ['y']]

/-- Named, so that membership tests share one proof. -/
local instance lawful_unit : LawfulBEq (List Char) := inferInstance

/-- The groups of `^([+-]?)(\d+)(min|[hdwmy])$`. -/
def compactDurationRe (s : List Char) : Option (List Char × List Char × List Char) :=
  let sign := (s.take 1).filter isSignChar
  let body := s.drop sign.length
  let amount := body.takeWhile isDecimal
  let unit := body.dropWhile isDecimal
  if amount ≠ [] ∧ unit ∈ compactUnits then some (sign, amount, unit) else none

def numeral (digits : List Char) : Nat := digits.foldl (fun number char => 10 * number + (char.toNat - '0'.toNat)) 0

def maxInt : Nat := 2 ^ 63 - 1

/-- `strconv.Atoi` on digits. -/
def atoi (digits : List Char) : Option Int := if numeral digits ≤ maxInt then some (numeral digits) else none

inductive DurationError where
  | notCompact (text : List Char)
  | invalidAmount (text : List Char)

/-- The arithmetic of `time.Time`. -/
structure Clock (Time : Type) where
  add : Time → Int → Time
  addDate : Time → Int → Int → Int → Time

def minute : Int := 60000000000

def hour : Int := 60 * minute

def applyDuration {Time : Type} (clock : Clock Time) (base : Time) (amount : Int) (unit : List Char) : Time :=
  if unit = "min".toList then clock.add base (wrap (amount * minute))
  else if unit = ['h'] then clock.add base (wrap (amount * hour))
  else if unit = ['d'] then clock.addDate base 0 0 amount
  else if unit = ['w'] then clock.addDate base 0 0 (wrap (amount * 7))
  else if unit = ['m'] then clock.addDate base 0 amount 0
  else if unit = ['y'] then clock.addDate base amount 0 0
  else base

def parseCompactDuration {Time : Type} (clock : Clock Time) (s : List Char) (now : Time) : Except DurationError Time :=
  match compactDurationRe s with
  | none => .error (.notCompact s)
  | some (sign, amountStr, unit) =>
    match atoi amountStr with
    | none => .error (.invalidAmount amountStr)
    | some amount =>
      let amount := if sign = ['-'] then -amount else amount
      .ok (applyDuration clock now amount unit)

def parseDurationAgo {Time : Type} (clock : Clock Time) (now : Time) (s : List Char) : Except DurationError Time :=
  let negated := '-' :: (if s.head? = some '+' then s.drop 1 else s)
  parseCompactDuration clock negated now

theorem isDecimal_rune : ∀ byte, isDecimal (rune byte) = isDigit byte :=
  forall_byte (by decide +kernel)

theorem compactDurationRe_signed {sign : Char} (isSign : isSignChar sign = true)
    {digits unit : List Char} (numeric : ∀ char ∈ digits, isDecimal char = true)
    (nonempty : digits ≠ []) (ends : ∀ char ∈ unit.head?, isDecimal char = false) :
    compactDurationRe (sign :: (digits ++ unit)) =
      if unit ∈ compactUnits then some ([sign], digits, unit) else none := by
  obtain ⟨taken, left⟩ := span_exact numeric ends
  simp [compactDurationRe, isSign, taken, left, nonempty]

theorem parseCompactDuration_negated {Time : Type} (clock : Clock Time) (now : Time) {digits unit : List Char}
    (numeric : ∀ char ∈ digits, isDecimal char = true) (nonempty : digits ≠ [])
    (ends : ∀ char ∈ unit.head?, isDecimal char = false) (fits : numeral digits ≤ maxInt) :
    (∃ time, parseCompactDuration clock ('-' :: (digits ++ unit)) now = .ok time) ↔ unit ∈ compactUnits := by
  rw [parseCompactDuration, compactDurationRe_signed rfl numeric nonempty ends]
  by_cases listed : unit ∈ compactUnits
  · rw [if_pos listed]
    simp [atoi, fits, listed]
  · rw [if_neg listed]
    simp [listed]

section
variable {Time : Type} (clock : Clock Time) (now : Time)

theorem parseDurationAgo_minus (text : List Char) : ¬ ∃ time, parseDurationAgo clock now ('-' :: text) = .ok time := by
  rintro ⟨time, accepted⟩
  cases accepted

theorem parseDurationAgo_plus (text : List Char) :
    parseDurationAgo clock now ('+' :: text) = parseCompactDuration clock ('-' :: text) now := rfl

theorem parseDurationAgo_unsigned {text : List Char} (digit : ∀ char ∈ text.head?, isDecimal char = true) :
    parseDurationAgo clock now text = parseCompactDuration clock ('-' :: text) now := by
  have notPlus : text.head? ≠ some '+' := fun plus => absurd (digit _ plus) (by decide)
  rw [parseDurationAgo, if_neg notPlus]

end

theorem TokenText.duration_parts {text : Bytes} (spelled : TokenText .duration text) :
    ∃ sign digits unit, text = sign ++ digits ++ unit ∧ Amount sign digits ∧ DurationUnit unit := by
  generalize type : TokenType.duration = kind at spelled
  cases spelled with
  | punctuation listed =>
    subst type
    exact absurd listed (by simp [Query.punctuation])
  | number amount => cases type
  | duration amount unit => exact ⟨_, _, _, rfl, amount, unit⟩
  | @word text word =>
    rcases keyword_cases (runes text) with keyword | keyword | keyword | keyword <;> rw [keyword] at type <;> cases type

def isUpper (char : Char) : Bool := 'A' ≤ char && char ≤ 'Z'

variable {unit : Bytes}

open List

section

variable (isUnit : DurationUnit unit)
include isUnit

theorem DurationUnit.compact_iff :
    runes unit ∈ compactUnits ↔ ∀ char ∈ (runes unit).getLast?, isUpper char = false := by
  rcases isUnit with ⟨byte, rfl, suffix⟩ | rfl
  · simp only [isDurationSuffix, mem_cons, not_mem_nil, or_false, decide_eq_true_eq] at suffix
    rcases suffix with rfl | rfl | rfl | rfl | rfl | rfl | rfl | rfl | rfl | rfl <;> simp [runes, rune, compactUnits, isUpper]
  · simp [runes, rune, minutes, compactUnits, isUpper]

theorem DurationUnit.notDigit : ∀ char ∈ (runes unit).head?, isDecimal char = false := by
  rcases isUnit with ⟨byte, rfl, suffix⟩ | rfl
  · intro char first
    cases first
    rw [isDecimal_rune]
    exact (suffix_class _ suffix).2.1
  · rintro _ ⟨⟩
    rfl

theorem DurationUnit.ne_nil : runes unit ≠ [] := by
  rcases isUnit with ⟨byte, rfl, suffix⟩ | rfl
  · simp [runes]
  · decide

end

def amountOf (value : List Char) : List Char := value.filter isDecimal

theorem amountOf_parts {sign digits : Bytes} (amount : Amount sign digits)
    (isUnit : DurationUnit unit) : amountOf (runes (sign ++ digits ++ unit)) = runes digits := by
  have decimal : ∀ char ∈ runes digits, isDecimal char = true := by
    intro char member
    obtain ⟨byte, inside, rfl⟩ := mem_map.mp member
    rw [isDecimal_rune]
    exact amount.numeric byte inside
  have noSign : (runes sign).filter isDecimal = [] := by
    rcases amount.signed with rfl | ⟨byte, rfl, isSign⟩
    · rfl
    · rcases (sign_class _).mp isSign with rfl | rfl <;> decide
  have noUnit : (runes unit).filter isDecimal = [] := by
    rcases isUnit with ⟨byte, rfl, suffix⟩ | rfl
    · simp [runes, isDecimal_rune, (suffix_class _ suffix).2.1]
    · decide
  have split : runes (sign ++ digits ++ unit) = runes sign ++ runes digits ++ runes unit := by simp [runes]
  rw [amountOf, split, filter_append, filter_append, noSign, noUnit, filter_eq_self.mpr decimal,
    nil_append, append_nil]

/-- A duration whose digits fit an int is accepted if and only if it has no minus sign and its
suffix is not in upper case. -/
theorem parseDurationAgo_token {Time : Type} (clock : Clock Time) (now : Time) {input rest : Bytes}
    {token : Token} (read : nextToken input = .ok (token, rest)) (duration : token.type = .duration)
    (fits : numeral (amountOf token.value) ≤ maxInt) :
    (∃ time, parseDurationAgo clock now token.value = .ok time) ↔
      token.value.head? ≠ some '-' ∧ ∀ char ∈ token.value.getLast?, isUpper char = false := by
  obtain ⟨gap, text, -, spelled, value, -⟩ := nextToken_found read (by simp [duration]) (by simp [duration])
  rw [duration] at spelled
  obtain ⟨sign, digits, unit, rfl, amount, isUnit⟩ := spelled.duration_parts
  rw [value, amountOf_parts amount isUnit] at fits
  have decimal : ∀ char ∈ runes digits, isDecimal char = true := by
    intro char member
    obtain ⟨byte, inside, rfl⟩ := List.mem_map.mp member
    rw [isDecimal_rune]
    exact amount.numeric byte inside
  have nonempty : runes digits ≠ [] := by simpa [runes] using amount.nonempty
  have split : token.value = runes sign ++ (runes digits ++ runes unit) := by simp [value, runes]
  have last : token.value.getLast? = (runes unit).getLast? := by
    rw [split, ← List.append_assoc, List.getLast?_append_of_ne_nil _ isUnit.ne_nil]
  have unsigned := parseCompactDuration_negated clock now decimal nonempty isUnit.notDigit fits
  rw [last, ← isUnit.compact_iff, split]
  rcases amount.signed with rfl | ⟨byte, rfl, isSign⟩
  · have notSign : ∀ char ∈ (runes digits ++ runes unit).head?, isDecimal char = true := by
      intro char found
      obtain ⟨digit, more, chars⟩ := List.exists_cons_of_ne_nil nonempty
      rw [chars] at found
      cases found
      exact decimal char (by simp [chars])
    rw [show runes [] ++ (runes digits ++ runes unit) = runes digits ++ runes unit from rfl,
      parseDurationAgo_unsigned clock now notSign, unsigned]
    exact ⟨fun listed => ⟨fun minus => absurd (notSign _ minus) (by decide), listed⟩, And.right⟩
  · rcases (sign_class _).mp isSign with rfl | rfl
    · exact ⟨fun accepted => absurd accepted (parseDurationAgo_minus clock now _), fun unsigned => absurd rfl unsigned.1⟩
    · rw [show runes [0x2b] ++ (runes digits ++ runes unit) = '+' ::
        (runes digits ++ runes unit) from rfl, parseDurationAgo_plus, unsigned]
      exact ⟨fun listed => ⟨fun minus => absurd minus (by simp), listed⟩, And.right⟩

def dayCount : Clock Int := ⟨(· + ·), fun time _ _ days => time + days⟩

theorem parseDurationAgo_week : nextToken [0x37, 0x64] = .ok (⟨.duration, ['7', 'd'], 2⟩, []) ∧
    ∃ time, parseDurationAgo dayCount 0 ['7', 'd'] = .ok time :=
  have read : nextToken [0x37, 0x64] = .ok (⟨.duration, ['7', 'd'], 2⟩, []) := by rfl
  ⟨read, (parseDurationAgo_token dayCount 0 read rfl (by decide)).mpr ⟨by decide, by rintro _ ⟨⟩; rfl⟩⟩

/-- `7D` and `-7d` are duration tokens that the evaluator does not accept. -/
theorem parseDurationAgo_rejects : nextToken [0x37, 0x44] = .ok (⟨.duration, ['7', 'D'], 2⟩, []) ∧
    parseDurationAgo dayCount 0 ['7', 'D'] = .error (.notCompact ['-', '7', 'D']) ∧
    nextToken [0x2d, 0x37, 0x64] = .ok (⟨.duration, ['-', '7', 'd'], 3⟩, []) ∧
    parseDurationAgo dayCount 0 ['-', '7', 'd'] = .error (.notCompact ['-', '-', '7', 'd']) :=
  ⟨rfl, rfl, rfl, rfl⟩

end Beads.Query
