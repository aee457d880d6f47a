import Beads.Data.Fallible
import Beads.Json.Grammar

namespace Beads.Json

open Fallible Decimal

def Ends (byte : UInt8) : Prop := isDigit byte = false ∧ byte ≠ 0x2e ∧ byte ≠ 0x65 ∧ byte ≠ 0x45

instance (byte : UInt8) : Decidable (Ends byte) := inferInstanceAs (Decidable (_ ∧ _))

def Boundary (rest : Bytes) : Prop := ∀ byte ∈ rest.head?, Ends byte

variable {run rest input text out : Bytes} {exp : Int} {number : Literal}

theorem digits_complete (all : Digits run) (nonempty : run ≠ []) (ends : ∀ byte ∈ rest.head?, isDigit byte = false) :
    digits (run ++ rest) = .ok (run, rest) := by
  have stops : rest.takeWhile isDigit = [] ∧ rest.dropWhile isDigit = rest := by
    cases rest with
    | nil => exact ⟨rfl, rfl⟩
    | cons byte rest => exact ⟨by simp [ends byte rfl], by simp [ends byte rfl]⟩
  rw [digits, List.takeWhile_append_of_pos all, List.dropWhile_append_of_pos all, stops.1, stops.2,
    List.append_nil, if_neg nonempty]

open List

theorem digits_sound (scanned : digits input = .ok (run, rest)) : Digits run ∧ run ≠ [] ∧ input = run ++ rest := by
  unfold digits at scanned
  split_ifs at scanned with empty
  · cases scanned
  · cases scanned
    exact ⟨fun _ member => mem_takeWhile_imp member, empty, takeWhile_append_dropWhile.symm⟩

theorem digit_ne {byte other : UInt8} (digits : isDigit byte = true) (not : isDigit other = false) : byte ≠ other := by
  rintro rfl
  exact absurd (digits.symm.trans not) nofun

theorem accumulate_eq {limit start : Nat} (within : start ≤ limit) (run : Bytes) :
    accumulate limit start run =
      if start * 10 ^ run.length + numeral run ≤ limit then some (start * 10 ^ run.length + numeral run) else none := by
  induction run generalizing start with
  | nil => simp [accumulate, within]
  | cons byte run ih =>
    have total : start * 10 ^ (byte :: run).length + numeral (byte :: run) =
      (start * 10 + digit byte) * 10 ^ run.length + numeral run := by
      rw [numeral_cons, length_cons, Nat.pow_succ]
      ring
    rw [accumulate, total]
    split_ifs with beyond fits fits
    · have grows : start * 10 + digit byte ≤ (start * 10 + digit byte) * 10 ^ run.length :=
        Nat.le_mul_of_pos_right _ (Nat.pow_pos (by decide))
      omega
    · rfl
    · rw [ih (Nat.le_of_not_lt beyond), if_pos fits]
    · rw [ih (Nat.le_of_not_lt beyond), if_neg fits]

theorem accumulate_zero (limit : Nat) (run : Bytes) :
    accumulate limit 0 run = if numeral run ≤ limit then some (numeral run) else none := by
  rw [accumulate_eq (Nat.zero_le limit), Nat.zero_mul, Nat.zero_add]

theorem exponentSign_digits (all : Digits run) (nonempty : run ≠ []) (rest : Bytes) :
    exponentSign (run ++ rest) = (false, run ++ rest) := by
  cases run with
  | nil => exact absurd rfl nonempty
  | cons byte run =>
    have here := all byte (.head _)
    rw [cons_append, exponentSign, if_neg]
    rintro (same | same)
    · exact digit_ne here (by decide) same
    · exact digit_ne here (by decide) same

theorem exponent_marked {mark : UInt8} (marked : mark = 0x65 ∨ mark = 0x45) {neg : Bool} {tail : Bytes}
    (signed : exponentSign tail = (neg, run ++ rest)) (all : Digits run) (nonempty : run ≠ [])
    (ends : ∀ byte ∈ rest.head?, isDigit byte = false) (length : Nat) : exponent length (mark :: tail) =
      if numeral run ≤ maxExponentMagnitude + length then .ok (if neg then -(numeral run : Int) else numeral run, rest)
      else fail rest .exponentOutOfRange := by
  rw [exponent, if_pos marked, signed]
  show (digits (run ++ rest) >>= _) = _
  rw [digits_complete all nonempty ends]
  simp only [ok_bind]
  rw [accumulate_zero]
  split_ifs <;> rfl

theorem exponent_complete (spelled : ExponentText exp text) (ends : Boundary rest) (length : Nat) :
    exponent length (text ++ rest) =
      if exp.natAbs ≤ maxExponentMagnitude + length then .ok (exp, rest) else fail rest .exponentOutOfRange := by
  have digitsEnd : ∀ byte ∈ rest.head?, isDigit byte = false := fun byte first => (ends byte first).1
  cases spelled with
  | absent =>
    rw [nil_append, if_pos (show Int.natAbs 0 ≤ _ from Nat.zero_le _)]
    cases rest with
    | nil => rfl
    | cons byte rest => rw [exponent, if_neg fun marked => marked.elim (ends byte rfl).2.2.1 (ends byte rfl).2.2.2]
  | @positive mark sign run marked signed all nonempty =>
    have unsigned : exponentSign (sign ++ run ++ rest) = (false, run ++ rest) := by
      rcases signed with rfl | rfl
      · exact exponentSign_digits all nonempty rest
      · rfl
    rw [Int.natAbs_natCast]
    exact exponent_marked marked unsigned all nonempty digitsEnd length
  | @negative mark run marked all nonempty =>
    rw [Int.natAbs_neg, Int.natAbs_natCast]
    exact @exponent_marked _ _ _ marked true _ rfl all nonempty digitsEnd length

theorem exponentSign_sound (input : Bytes) :
    (exponentSign input = (false, input)) ∨ (∃ rest, input = 0x2b :: rest ∧ exponentSign input = (false, rest)) ∨
      ∃ rest, input = 0x2d :: rest ∧ exponentSign input = (true, rest) := by
  cases input with
  | nil => exact .inl rfl
  | cons byte rest =>
    by_cases plus : byte = 0x2b
    · exact .inr (.inl ⟨rest, by rw [plus], by rw [plus]; rfl⟩)
    · by_cases minus : byte = 0x2d
      · exact .inr (.inr ⟨rest, by rw [minus], by rw [minus]; rfl⟩)
      · exact .inl (by rw [exponentSign, if_neg (not_or.mpr ⟨plus, minus⟩)])

theorem exponent_sound {length : Nat} (scanned : exponent length input = .ok (exp, rest)) :
    ∃ text, ExponentText exp text ∧ input = text ++ rest := by
  unfold exponent at scanned
  split at scanned
  case h_2 =>
    cases scanned
    exact ⟨[], .absent, rfl⟩
  case h_1 mark tail =>
    by_cases marked : mark = 0x65 ∨ mark = 0x45
    · rw [if_pos marked] at scanned
      obtain ⟨⟨run, after⟩, read, finished⟩ := bind_eq_ok scanned
      obtain ⟨all, nonempty, split⟩ := digits_sound read
      dsimp only at finished
      rw [accumulate_zero] at finished
      by_cases fits : numeral run ≤ maxExponentMagnitude + length
      · rw [if_pos fits] at finished
        rcases exponentSign_sound tail with unsigned | ⟨more, rfl, unsigned⟩ | ⟨more, rfl, unsigned⟩ <;>
          rw [unsigned] at split finished
        all_goals
          cases finished
          subst split
        · exact ⟨_, .positive marked (.inl rfl) all nonempty, rfl⟩
        · exact ⟨_, .positive marked (.inr rfl) all nonempty, rfl⟩
        · exact ⟨_, .negative marked all nonempty, rfl⟩
      · rw [if_neg fits] at finished
        cases finished
    · rw [if_neg marked] at scanned
      cases scanned
      exact ⟨[], .absent, rfl⟩

theorem fraction_complete {frac : Bytes} (spelled : FractionText frac text)
    (ends : ∀ byte ∈ rest.head?, isDigit byte = false ∧ byte ≠ 0x2e) : fraction (text ++ rest) = .ok (frac, rest) := by
  cases spelled with
  | absent =>
    cases rest with
    | nil => rfl
    | cons byte rest => rw [nil_append, fraction, if_neg (ends byte rfl).2]
  | present all nonempty => exact digits_complete all nonempty fun byte first => (ends byte first).1

theorem fraction_sound {frac : Bytes} (scanned : fraction input = .ok (frac, rest)) :
    ∃ text, FractionText frac text ∧ input = text ++ rest := by
  unfold fraction at scanned
  split at scanned
  case h_2 =>
    cases scanned
    exact ⟨[], .absent, rfl⟩
  case h_1 point tail =>
    split_ifs at scanned with marked
    · obtain ⟨all, nonempty, rfl⟩ := digits_sound scanned
      exact ⟨_, .present all nonempty, by rw [marked]; rfl⟩
    · cases scanned
      exact ⟨[], .absent, rfl⟩

theorem integerPart_complete (spelled : IntegerText run) (ends : ∀ byte ∈ rest.head?, isDigit byte = false) :
    integerPart (run ++ rest) = .ok (run, rest) := by
  rcases spelled.start with rfl | start
  · rfl
  · cases run with
    | nil => exact absurd rfl spelled.nonempty
    | cons byte run =>
      rw [cons_append, integerPart, if_neg fun naught : byte = 0x30 => start (congrArg some naught),
        ← cons_append, digits_complete spelled.all spelled.nonempty ends]

theorem integerPart_sound (scanned : integerPart input = .ok (run, rest)) : IntegerText run ∧ input = run ++ rest := by
  unfold integerPart at scanned
  split at scanned
  case h_2 => cases scanned
  case h_1 byte tail =>
    split_ifs at scanned with naught
    · cases scanned
      subst naught
      exact ⟨⟨fun other member => by rw [mem_singleton.mp member]; rfl, cons_ne_nil _ _, .inl rfl⟩, rfl⟩
    · obtain ⟨all, nonempty, split⟩ := digits_sound scanned
      refine ⟨⟨all, nonempty, .inr fun first => naught ?_⟩, split⟩
      cases run with
      | nil => exact absurd rfl nonempty
      | cons other run =>
        rw [(cons.inj split).1]
        exact Option.some.inj first

theorem sign_sound (input : Bytes) : input = (if (sign input).1 then [0x2d] else []) ++ (sign input).2 := by
  cases input with
  | nil => rfl
  | cons byte tail =>
    by_cases minus : byte = 0x2d
    · subst minus; rfl
    · have unsigned : sign (byte :: tail) = (false, byte :: tail) := if_neg minus
      rw [unsigned]; rfl

theorem numberLiteral_sound {length : Nat} (scanned : numberLiteral length input = .ok (number, rest)) :
    ∃ text, NumberText number text ∧ input = text ++ rest := by
  obtain ⟨⟨intPart, afterInt⟩, integers, scanned⟩ := bind_eq_ok scanned
  obtain ⟨⟨frac, afterFrac⟩, fractions, scanned⟩ := bind_eq_ok scanned
  obtain ⟨⟨exp, afterExp⟩, exponents, ⟨⟩⟩ := bind_eq_ok scanned
  obtain ⟨integer, wholeInt⟩ := integerPart_sound integers
  obtain ⟨fracText, fractional, wholeFrac⟩ := fraction_sound fractions
  obtain ⟨expText, exponential, wholeExp⟩ := exponent_sound exponents
  refine ⟨_, .parts integer fractional exponential, ?_⟩
  conv_lhs => rw [sign_sound input, wholeInt, wholeFrac, wholeExp]
  simp

def signText (neg : Bool) : Bytes := if neg then [0x2d] else []

section

variable (spelled : NumberText number text)
include spelled

theorem numberLiteral_complete (ends : Boundary rest) (length : Nat) : numberLiteral length (text ++ rest) =
      if number.exp.natAbs ≤ maxExponentMagnitude + length then .ok (number, rest) else fail rest .exponentOutOfRange := by
  obtain @⟨neg, intPart, frac, fracText, expText, exp, integer, fractional, exponential⟩ := spelled
  have expEnds : ∀ byte ∈ (expText ++ rest).head?, isDigit byte = false ∧ byte ≠ 0x2e := by
    intro byte first
    cases exponential with
    | absent => exact ⟨(ends byte first).1, (ends byte first).2.1⟩
    | positive marked | negative marked => obtain rfl := Option.some.inj first; rcases marked with rfl | rfl <;> decide
  have fracEnds : ∀ byte ∈ (fracText ++ (expText ++ rest)).head?, isDigit byte = false := by
    intro byte first
    cases fractional with
    | absent => exact (expEnds byte first).1
    | present all nonempty => obtain rfl := Option.some.inj first; decide
  have signed : sign ((if neg then [0x2d] else []) ++ (intPart ++ (fracText ++ (expText ++ rest)))) =
      (neg, intPart ++ (fracText ++ (expText ++ rest))) := by
    cases neg with
    | true => rfl
    | false =>
      cases intPart with
      | nil => exact absurd rfl integer.nonempty
      | cons byte intPart => exact if_neg (digit_ne (integer.all byte (.head _)) (by decide))
  simp only [append_assoc]
  rw [numberLiteral, signed]
  show (integerPart (intPart ++ _) >>= _) = _
  rw [integerPart_complete integer fracEnds]
  show (fraction (fracText ++ _) >>= _) = _
  rw [fraction_complete fractional expEnds]
  show (exponent length (expText ++ _) >>= _) = _
  rw [exponent_complete exponential ends]
  split_ifs <;> rfl

theorem NumberText.digits : Digits (number.intPart ++ number.frac) := by
  obtain @⟨neg, intPart, frac, fracText, expText, exp, integer, fractional, exponential⟩ := spelled
  intro byte member
  rcases mem_append.mp member with member | member
  · exact integer.all byte member
  · cases fractional with
    | absent => cases member
    | present all nonempty => exact all byte member

inductive CanonicalNumber : ℚ → Bytes → Prop where
  | zero : CanonicalNumber 0 [0x30]
  | nonzero {neg : Bool} {digits : Bytes} {exp : Int} (normal : Normal digits)
      (bounded : (exp + digits.length - 1).natAbs ≤ maxExponentMagnitude) :
      CanonicalNumber (scaled neg (numeral digits) exp) (signText neg ++ placed digits (exp + digits.length))

omit spelled in
theorem CanonicalNumber.of_scaled {neg : Bool} {digits : Bytes} (normal : Normal digits)
    (canonical : CanonicalNumber (scaled neg (numeral digits) exp) out) :
    (exp + digits.length - 1).natAbs ≤ maxExponentMagnitude ∧ out = signText neg ++ placed digits (exp + digits.length) := by
  generalize same : scaled neg (numeral digits) exp = again at canonical
  cases canonical with
  | zero => exact absurd same (scaled_ne_zero normal.pos)
  | nonzero otherNormal bounded =>
    obtain ⟨rfl, rfl, rfl⟩ := normal.unique otherNormal same
    exact ⟨bounded, rfl⟩

omit spelled in
theorem CanonicalNumber.unique {number : ℚ} {one other : Bytes}
    (oneForm : CanonicalNumber number one) (otherForm : CanonicalNumber number other) :
    one = other := by
  cases oneForm with
  | nonzero normal bounded => exact (otherForm.of_scaled normal).2.symm
  | zero =>
    generalize same : (0 : ℚ) = again at otherForm
    cases otherForm with
    | zero => rfl
    | nonzero normal bounded => exact absurd same.symm (scaled_ne_zero normal.pos)

theorem appendCanonicalNumber_eq : (number.value = 0 ∧ appendCanonicalNumber number = some [0x30]) ∨
      ∃ (digits : Bytes) (exp : Int), Normal digits ∧ number.value = scaled number.neg (numeral digits) exp ∧
        appendCanonicalNumber number = if (exp + digits.length - 1).natAbs ≤ maxExponentMagnitude
          then some (signText number.neg ++ placed digits (exp + digits.length)) else none := by
  have all := spelled.digits
  have leadingValue := numeral_dropWhile (number.intPart ++ number.frac)
  rw [Literal.value, appendCanonicalNumber]
  generalize shape : (number.intPart ++ number.frac).dropWhile (· == zero) = leading at leadingValue
  by_cases none : leading = []
  · subst none
    refine .inl ⟨?_, by simp⟩
    rw [← leadingValue, numeral_nil, scaled_zero]
  · have normal := shape ▸ normal_strip all (shape ▸ none)
    refine .inr ⟨leading.rdropWhile (· == zero),
      number.exp - number.frac.length + (leading.length - (leading.rdropWhile (· == zero)).length : Nat), normal, ?_, ?_⟩
    · rw [← leadingValue, numeral_rdropWhile leading, scaled_pow]
    · simp only [if_neg none, signText]
      split_ifs <;> first | rfl | omega

theorem appendCanonicalNumber_eq_some : appendCanonicalNumber number = some out ↔ CanonicalNumber number.value out := by
  rcases appendCanonicalNumber_eq spelled with ⟨naught, form⟩ | ⟨digits, exp, normal, value, form⟩
  · rw [form, naught]
    exact ⟨fun appended => Option.some.inj appended ▸ .zero, fun canonical =>
      congrArg some (CanonicalNumber.zero.unique canonical)⟩
  · rw [form, value]
    constructor
    · intro appended
      split_ifs at appended with bounded
      cases appended
      exact .nonzero normal bounded
    · intro canonical
      obtain ⟨bounded, rfl⟩ := canonical.of_scaled normal
      exact if_pos bounded

end

theorem integerText_take {digits : Bytes} (normal : Normal digits) {count : Nat}
    (positive : 0 < count) : IntegerText (digits.take count) := by
  obtain ⟨count, rfl⟩ := Nat.exists_eq_succ_of_ne_zero (Nat.ne_of_gt positive)
  cases digits with
  | nil => exact absurd rfl normal.nonempty
  | cons byte rest =>
    exact ⟨fun other member => normal.all other (mem_of_mem_take member), cons_ne_nil _ _, .inr normal.start⟩

theorem exponentText_spell (exp : Int) : ExponentText exp (0x65 :: (if 0 ≤ exp then 0x2b else 0x2d) :: spell exp.natAbs) := by
  have all := digits_spell exp.natAbs
  have nonempty := spell_ne_nil exp.natAbs
  have value := numeral_spell exp.natAbs
  by_cases positive : 0 ≤ exp
  · rw [if_pos positive]
    have spelled := ExponentText.positive (.inl rfl : (0x65 : UInt8) = 0x65 ∨ _) (.inr rfl) all nonempty
    rwa [value, Int.natAbs_of_nonneg positive] at spelled
  · rw [if_neg positive]
    have spelled := ExponentText.negative (.inl rfl : (0x65 : UInt8) = 0x65 ∨ _) all nonempty
    rwa [value, Int.ofNat_natAbs_of_nonpos (by omega), Int.neg_neg] at spelled

theorem digits_replicate_zero (count : Nat) : Digits (replicate count zero) := by
  intro byte member
  rw [eq_of_mem_replicate member]
  rfl

theorem digits_append {one other : Bytes} (oneDigits : Digits one) (otherDigits : Digits other) : Digits (one ++ other) :=
  fun byte member => (mem_append.mp member).elim (oneDigits byte) (otherDigits byte)

theorem spelled_of_parts (neg : Bool) {intPart frac fracText expText : Bytes} {value : ℚ} (integer : IntegerText intPart)
    (fractional : FractionText frac fracText) (exponential : ExponentText exp expText)
    (whole : text = signText neg ++ intPart ++ fracText ++ expText) (bounded : exp.natAbs ≤ maxExponentMagnitude)
    (denoted : scaled neg (numeral (intPart ++ frac)) (exp - frac.length) = value) :
    ∃ number, NumberText number text ∧ number.exp.natAbs ≤ maxExponentMagnitude ∧ number.value = value := by
  subst whole
  exact ⟨_, .parts integer fractional exponential, bounded, denoted⟩

theorem placed_spelled (neg : Bool) {digits : Bytes} (normal : Normal digits)
    (bounded : (exp + digits.length - 1).natAbs ≤ maxExponentMagnitude) :
    ∃ number, NumberText number (signText neg ++ placed digits (exp + digits.length)) ∧ number.exp.natAbs ≤ maxExponentMagnitude ∧
      number.value = scaled neg (numeral digits) exp := by
  generalize point : exp + digits.length = n at bounded
  have length : 0 < digits.length := length_pos_iff.mpr normal.nonempty
  have dropped : ∀ count, Digits (digits.drop count) := fun count byte member => normal.all byte (mem_of_mem_drop member)
  rw [placed]
  split
  · have integer : IntegerText (digits ++ replicate (n - digits.length).toNat zero) := by
      refine ⟨digits_append normal.all (digits_replicate_zero _), fun empty =>
        normal.nonempty (append_eq_nil_iff.mp empty).1, .inr ?_⟩
      rw [head?_append_of_ne_nil _ normal.nonempty]
      exact normal.start
    refine spelled_of_parts neg integer .absent .absent (by simp [zero]) (Nat.zero_le _) ?_
    rw [append_nil, numeral_append_zeros, scaled_pow, length_nil]
    congr 1
    omega
  split
  · have integer := integerText_take normal (show 0 < n.toNat by omega)
    have fractional : FractionText (digits.drop n.toNat) (0x2e :: digits.drop n.toNat) := .present (dropped _) (by simp; omega)
    refine spelled_of_parts neg integer fractional .absent (by simp) (Nat.zero_le _) ?_
    rw [take_append_drop, length_drop]
    congr 1
    omega
  split
  · have integer : IntegerText [zero] := ⟨digits_replicate_zero 1, cons_ne_nil _ _, .inl rfl⟩
    have fractional : FractionText (replicate (-n).toNat zero ++ digits) (0x2e :: (replicate (-n).toNat zero ++ digits)) :=
      .present (digits_append (digits_replicate_zero _) normal.all) fun empty => normal.nonempty (append_eq_nil_iff.mp empty).2
    refine spelled_of_parts neg integer fractional .absent (by simp [zero]) (Nat.zero_le _) ?_
    rw [← replicate_one, numeral_zeros_append, numeral_zeros_append, length_append, length_replicate]
    congr 1
    omega
  · have fractional : FractionText (digits.drop 1) (if 1 < digits.length then 0x2e :: digits.drop 1 else []) := by
      split_ifs with several
      · exact .present (dropped 1) (ne_nil_of_length_pos (by rw [length_drop]; omega))
      · rw [drop_eq_nil_of_le (Nat.le_of_not_lt several)]
        exact .absent
    refine spelled_of_parts neg (integerText_take normal Nat.one_pos) fractional (exponentText_spell (n - 1)) (by simp) bounded ?_
    rw [take_append_drop, length_drop]
    congr 1
    omega

theorem CanonicalNumber.spelled {value : ℚ} (canonical : CanonicalNumber value out) :
    ∃ number, NumberText number out ∧ number.exp.natAbs ≤ maxExponentMagnitude ∧ number.value = value := by
  cases canonical with
  | zero =>
    have spelled := @NumberText.parts false _ _ _ _ _ ⟨digits_replicate_zero 1, cons_ne_nil _ _, .inl rfl⟩ .absent .absent
    exact ⟨_, spelled, Nat.zero_le _, scaled_zero _ _⟩
  | nonzero normal bounded => exact placed_spelled _ normal bounded

namespace Scanner

variable {s : Scanner} {path : List PathToken}

theorem number_eq_ok_iff {left : Bytes} (read : numberLiteral s.length (text ++ rest) = .ok (number, rest)) :
    s.number path (text ++ rest) = .ok (out, left) ↔
      left = rest ∧ appendCanonicalNumber number = some out ∧ (s.exact = false → binary64Peer s.formatFloat text = some out) := by
  have whole : (text ++ rest).take ((text ++ rest).length - rest.length) = text := by simp
  have unfolded : s.number path (text ++ rest) = (numberLiteral s.length (text ++ rest) >>= _) := rfl
  rw [unfolded, read]
  simp only [ok_bind]
  rw [whole]
  cases appendCanonicalNumber number with
  | none => simp [fail]
  | some canonical =>
    cases exact : s.exact with
    | true => simp [and_comm, @eq_comm _ left]
    | false =>
      simp only [Bool.false_eq_true, if_false]
      cases binary64Peer s.formatFloat text with
      | none => simp [fail]
      | some peer =>
        by_cases same : peer = canonical
        · simp [same, and_comm, @eq_comm _ left]
        · simp [same, fail]
          grind

theorem number_complete (spelled : NumberText number text) (ends : Boundary rest)
    {left : Bytes} (scanned : s.number path (text ++ rest) = .ok (out, left)) :
    left = rest ∧ CanonicalNumber number.value out ∧ (s.exact = false → binary64Peer s.formatFloat text = some out) := by
  have read := numberLiteral_complete spelled ends s.length
  split_ifs at read with within
  · obtain ⟨same, appended, admitted⟩ := (number_eq_ok_iff read).mp scanned
    exact ⟨same, (appendCanonicalNumber_eq_some spelled).mp appended, admitted⟩
  · obtain ⟨_, other, _⟩ := bind_eq_ok scanned
    exact absurd (read.symm.trans other) nofun

theorem number_sound (scanned : s.number path input = .ok (out, rest)) :
    ∃ number text, NumberText number text ∧ input = text ++ rest := by
  obtain ⟨⟨number, after⟩, read, _⟩ := bind_eq_ok scanned
  obtain ⟨text, spelled, rfl⟩ := numberLiteral_sound read
  obtain ⟨rfl, _⟩ := (number_eq_ok_iff read).mp scanned
  exact ⟨number, text, spelled, rfl⟩

theorem number_canonical {value : ℚ} (canonical : CanonicalNumber value out)
    (admitted : s.exact = false → binary64Peer s.formatFloat out = some out) (path : List PathToken)
    (ends : Boundary rest) : s.number path (out ++ rest) = .ok (out, rest) := by
  obtain ⟨number, spelled, bounded, rfl⟩ := canonical.spelled
  have read := numberLiteral_complete spelled ends s.length
  rw [if_pos (Nat.le_trans bounded (Nat.le_add_right _ _))] at read
  exact (number_eq_ok_iff read).mpr ⟨rfl, (appendCanonicalNumber_eq_some spelled).mpr canonical, admitted⟩

end Scanner

end Beads.Json
