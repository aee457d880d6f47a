import Mathlib

namespace Decimal

def zero : UInt8 := 0x30

def isDigit (byte : UInt8) : Bool := 0x30 ≤ byte && byte ≤ 0x39

def digit (byte : UInt8) : Nat := byte.toNat - 0x30

def numeral (digits : List UInt8) : Nat :=
  digits.foldl (fun number byte => 10 * number + digit byte) 0

def Digits (digits : List UInt8) : Prop := ∀ byte ∈ digits, isDigit byte = true

theorem digit_lt {byte : UInt8} (digits : isDigit byte = true) : digit byte < 10 := by
  simp only [isDigit, Bool.and_eq_true, decide_eq_true_eq, UInt8.le_iff_toNat_le] at digits
  have upper : byte.toNat ≤ 0x39 := digits.2
  rw [digit]
  omega

theorem ofNat_digit {byte : UInt8} (digits : isDigit byte = true) : UInt8.ofNat (digit byte + 0x30) = byte := by
  simp only [isDigit, Bool.and_eq_true, decide_eq_true_eq, UInt8.le_iff_toNat_le] at digits
  have lower : 0x30 ≤ byte.toNat := digits.1
  rw [digit, Nat.sub_add_cancel lower, UInt8.ofNat_toNat]

open List Nat

theorem foldl_digits (start : Nat) (digits : List UInt8) :
    digits.foldl (fun number byte => 10 * number + digit byte) start = start * 10 ^ digits.length + numeral digits := by
  induction digits generalizing start with
  | nil => simp [numeral]
  | cons byte rest ih =>
    have here : numeral (byte :: rest) = (10 * 0 + digit byte) * 10 ^ rest.length + numeral rest := ih _
    rw [foldl_cons, ih, here, length_cons, pow_succ]
    ring

theorem numeral_append (one other : List UInt8) : numeral (one ++ other) = numeral one * 10 ^ other.length + numeral other := by
  rw [numeral, foldl_append, foldl_digits]
  rfl

theorem numeral_cons (byte : UInt8) (rest : List UInt8) : numeral (byte :: rest) = digit byte * 10 ^
    rest.length + numeral rest := by
  rw [numeral, foldl_cons, foldl_digits, mul_zero, zero_add]

@[simp] theorem numeral_nil : numeral [] = 0 := rfl

theorem numeral_zeros (count : Nat) : numeral (replicate count zero) = 0 := by
  induction count with
  | zero => rfl
  | succ count ih => rw [replicate_succ, numeral_cons, ih, show digit zero = 0 from rfl, zero_mul]

theorem numeral_append_zeros (digits : List UInt8) (count : Nat) :
    numeral (digits ++ replicate count zero) = numeral digits * 10 ^ count := by
  rw [numeral_append, numeral_zeros, length_replicate, add_zero]

theorem numeral_zeros_append (count : Nat) (digits : List UInt8) :
    numeral (replicate count zero ++ digits) = numeral digits := by
  rw [numeral_append, numeral_zeros, zero_mul, zero_add]

theorem numeral_eq_ofDigits (digits : List UInt8) : numeral digits = Nat.ofDigits 10 (digits.reverse.map digit) := by
  induction digits with
  | nil => rfl
  | cons byte rest ih =>
    rw [numeral_cons, ih, reverse_cons, map_append, ofDigits_append]
    simp [add_comm, mul_comm]

theorem numeral_injective {one other : List UInt8} (oneDigits : Digits one)
    (otherDigits : Digits other) (oneStart : one.head? ≠ some zero)
    (otherStart : other.head? ≠ some zero) (same : numeral one = numeral other) : one = other := by
  have recover : ∀ {digits : List UInt8}, Digits digits → digits.head? ≠ some zero →
      (Nat.digits 10 (numeral digits)).map (fun number => UInt8.ofNat (number + 0x30)) = digits.reverse := by
    intro digits all start
    have back : (digits.reverse.map digit).map (fun number => UInt8.ofNat (number + 0x30)) = digits.reverse := by
      rw [map_map]
      exact (map_congr_left fun byte member => ofNat_digit (all byte (mem_reverse.mp member))).trans (map_id _)
    rw [numeral_eq_ofDigits, digits_ofDigits 10 (by decide) _ (fun number member => ?_) fun nonempty last => ?_, back]
    · obtain ⟨byte, listed, rfl⟩ := mem_map.mp member
      exact digit_lt (all byte (mem_reverse.mp listed))
    · cases digits with
      | nil => exact nonempty rfl
      | cons byte rest =>
        have first : digit byte = 0 := by simpa using last
        have byteZero := ofNat_digit (all byte (.head _))
        rw [first] at byteZero
        exact start (congrArg some byteZero.symm)
  exact reverse_inj.mp ((recover oneDigits oneStart).symm.trans
    ((congrArg _ (congrArg (Nat.digits 10) same)).trans (recover otherDigits otherStart)))

def spell (number : Nat) : List UInt8 := (Nat.toDigits 10 number).map fun char => UInt8.ofNat char.toNat

theorem spell_ne_nil (number : Nat) : spell number ≠ [] :=
  fun empty => toDigits_ne_nil (map_eq_nil_iff.mp empty)

theorem toNat_ofNat_digit {char : Char} (digits : char.isDigit = true) : (UInt8.ofNat char.toNat).toNat = char.toNat := by
  have upper : char.toNat ≤ 0x39 := (Char.isDigit_iff_toNat.mp digits).2
  rw [UInt8.toNat_ofNat']
  omega

theorem digits_spell (number : Nat) : Digits (spell number) := by
  intro byte member
  obtain ⟨char, listed, rfl⟩ := mem_map.mp member
  have digits := isDigit_of_mem_toDigits (by decide) (by decide) listed
  have bounds := Char.isDigit_iff_toNat.mp digits
  simp only [isDigit, Bool.and_eq_true, decide_eq_true_eq, UInt8.le_iff_toNat_le, toNat_ofNat_digit digits]
  exact bounds

theorem numeral_spell (number : Nat) : numeral (spell number) = number := by
  have chars : ∀ (text : List Char) (start : Nat), (∀ char ∈ text, char.isDigit = true) →
      (text.map fun char => UInt8.ofNat char.toNat).foldl (fun number byte => 10 * number + digit byte) start =
        Nat.ofDigitChars 10 text start := by
    intro text
    induction text with
    | nil => exact fun start _ => ofDigitChars_nil.symm
    | cons char text ih =>
      intro start digits
      rw [map_cons, foldl_cons, ih _ fun other member => digits other (.tail _ member),
        ofDigitChars_cons, digit, toNat_ofNat_digit (digits char (.head _))]
      rfl
  exact (chars _ 0 fun char member => isDigit_of_mem_toDigits (by decide) (by decide) member).trans ofDigitChars_ten_toDigits

structure Normal (digits : List UInt8) : Prop where
  all : Digits digits
  nonempty : digits ≠ []
  start : digits.head? ≠ some zero
  stop : digits.getLast? ≠ some zero

variable {digits : List UInt8}

theorem Normal.pos (normal : Normal digits) : 0 < numeral digits := by
  rcases Nat.eq_zero_or_pos (numeral digits) with naught | positive
  · exact absurd (numeral_injective normal.all (forall_mem_nil _) normal.start nofun (naught.trans numeral_nil.symm))
      normal.nonempty
  · exact positive

theorem Normal.not_dvd (normal : Normal digits) : ¬ 10 ∣ numeral digits := by
  rcases eq_nil_or_concat digits with rfl | ⟨front, last, rfl⟩
  · exact absurd rfl normal.nonempty
  · intro divides
    have lastDigit := normal.all last (by simp)
    have small := digit_lt lastDigit
    rw [concat_eq_append, numeral_append, numeral_cons] at divides
    simp only [length_cons, length_nil, numeral_nil] at divides
    have naught : digit last = 0 := by omega
    have byteZero := ofNat_digit lastDigit
    rw [naught] at byteZero
    exact normal.stop (by rw [concat_eq_append, getLast?_append]; exact congrArg some byteZero.symm)

theorem numeral_dropWhile (digits : List UInt8) : numeral (digits.dropWhile (· == zero)) = numeral digits := by
  have zeros : digits.takeWhile (· == zero) = replicate (digits.takeWhile (· == zero)).length zero :=
    eq_replicate_of_mem fun byte member => by simpa using mem_takeWhile_imp member
  rw [← numeral_zeros_append (digits.takeWhile (· == zero)).length, ← zeros, takeWhile_append_dropWhile]

theorem numeral_rdropWhile (digits : List UInt8) :
    numeral digits = numeral (digits.rdropWhile (· == zero)) * 10 ^ (digits.length - (digits.rdropWhile (· == zero)).length) := by
  have zeros : digits.rtakeWhile (· == zero) = replicate (digits.rtakeWhile (· == zero)).length zero :=
    eq_replicate_of_mem fun byte member => by simpa using mem_rtakeWhile_imp member
  have whole : digits.rdropWhile (· == zero) ++ digits.rtakeWhile (· == zero) = digits := rdropWhile_append_rtakeWhile
  have length := congrArg length whole
  rw [length_append] at length
  rw [show digits.length - (digits.rdropWhile (· == zero)).length =
    (digits.rtakeWhile (· == zero)).length by omega, ← numeral_append_zeros,
    ← zeros, whole]

theorem normal_strip (all : Digits digits) (nonzero : digits.dropWhile (· == zero) ≠ []) :
    Normal ((digits.dropWhile (· == zero)).rdropWhile (· == zero)) := by
  have start : ¬ ((digits.dropWhile (· == zero)).head nonzero == zero) = true := by
    simpa using head_dropWhile_not (· == zero) nonzero
  have nonempty : (digits.dropWhile (· == zero)).rdropWhile (· == zero) ≠ [] := by
    intro empty
    exact start (rdropWhile_eq_nil_iff.mp empty _ (head_mem nonzero))
  have front := rdropWhile_prefix (· == zero) (l := digits.dropWhile (· == zero))
  refine ⟨fun byte member => all byte ((dropWhile_suffix _).subset (front.subset member)), nonempty,
    fun first => ?_, fun last => ?_⟩
  · obtain ⟨later, whole⟩ := front
    have same : (digits.dropWhile (· == zero)).head? = some zero := by rw [← whole, head?_append, first]; rfl
    rw [head?_eq_some_head nonzero] at same
    exact start (by rw [Option.some.inj same]; rfl)
  · rw [getLast?_eq_some_getLast nonempty] at last
    exact rdropWhile_last_not _ _ nonempty (by rw [Option.some.inj last]; rfl)

def scaled (neg : Bool) (number : Nat) (exponent : Int) : ℚ :=
  (if neg then -(number : ℚ) else number) * 10 ^ exponent

theorem scaled_pow (neg : Bool) (number shift : Nat) (exponent : Int) :
    scaled neg (number * 10 ^ shift) exponent = scaled neg number (exponent + shift) := by
  have ten : (10 : ℚ) ≠ 0 := by norm_num
  cases neg
  all_goals
    simp only [scaled, zpow_add₀ ten, zpow_natCast, cast_mul, cast_pow, cast_ofNat]
    simp only [Bool.false_eq_true, if_true, if_false]
    ring

@[simp] theorem scaled_zero (neg : Bool) (exponent : Int) : scaled neg 0 exponent = 0 := by
  cases neg <;> simp [scaled]

theorem scaled_ne_zero {neg : Bool} {number : Nat} {exponent : Int}
    (positive : 0 < number) : scaled neg number exponent ≠ 0 := by
  have cast : (0 : ℚ) < number := cast_pos.mpr positive
  refine mul_ne_zero ?_ (zpow_ne_zero _ (by norm_num))
  cases neg
  · exact ne_of_gt cast
  · exact neg_ne_zero.mpr (ne_of_gt cast)

theorem scaled_neg_iff {neg : Bool} {number : Nat} {exponent : Int}
    (positive : 0 < number) : scaled neg number exponent < 0 ↔ neg = true := by
  have cast : (0 : ℚ) < number := cast_pos.mpr positive
  have power : (0 : ℚ) < 10 ^ exponent := zpow_pos (by norm_num) _
  cases neg
  · simpa [scaled] using le_of_lt (mul_pos cast power)
  · simpa [scaled] using mul_pos cast power

theorem Normal.unique {one other : List UInt8} (oneNormal : Normal one) (otherNormal : Normal other) {oneNeg otherNeg : Bool}
    {oneExp otherExp : Int} (same : scaled oneNeg (numeral one) oneExp = scaled otherNeg (numeral other) otherExp) :
    oneNeg = otherNeg ∧ one = other ∧ oneExp = otherExp := by
  have sign : oneNeg = otherNeg :=
    Bool.eq_iff_iff.mpr ((scaled_neg_iff oneNormal.pos).symm.trans (same ▸ scaled_neg_iff otherNormal.pos))
  subst sign
  -- The larger power of ten divides the other numeral.
  have below : ∀ {low high : List UInt8} {lowExp highExp : Int}, Normal low →
      scaled oneNeg (numeral low) lowExp = scaled oneNeg (numeral high) highExp → lowExp ≤ highExp →
      numeral low = numeral high ∧ lowExp = highExp := by
    intro low high lowExp highExp normal equal order
    have power : (10 : ℚ) ^ lowExp ≠ 0 := zpow_ne_zero _ (by norm_num)
    obtain ⟨shift, rfl⟩ := Int.le.dest order
    rw [← scaled_pow] at equal
    have naturals : numeral low = numeral high * 10 ^ shift := by
      have rational := mul_right_cancel₀ power equal
      cases oneNeg
      · exact cast_injective rational
      · exact cast_injective (neg_inj.mp rational)
    cases shift with
    | zero => exact ⟨by simpa using naturals, by simp⟩
    | succ shift => exact absurd ⟨numeral high * 10 ^ shift, by rw [naturals, pow_succ]; ring⟩ normal.not_dvd
  have numbers : numeral one = numeral other ∧ oneExp = otherExp := by
    rcases Int.le_total oneExp otherExp with order | order
    · exact below oneNormal same order
    · obtain ⟨number, exponent⟩ := below otherNormal same.symm order
      exact ⟨number.symm, exponent.symm⟩
  exact ⟨rfl, numeral_injective oneNormal.all otherNormal.all oneNormal.start otherNormal.start numbers.1, numbers.2⟩

end Decimal
