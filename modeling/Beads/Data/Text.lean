import Mathlib

/-! SQL `LIKE` patterns, whose escape is the backslash unless another one is named, and the decimal
numbers that a scan of identifiers reads. -/

namespace Text

inductive Wild where
  | any
  | one
  | letter (char : Char)
  deriving DecidableEq

def wild (char : Char) : Wild := if char = '%' then .any else if char = '_' then .one else .letter char

def compile (escape : Char) : List Char → List Wild
  | [] => []
  | char :: rest =>
    if char = escape then match rest with
      | [] => [.letter escape]
      | next :: others => .letter next :: compile escape others
    else wild char :: compile escape rest

def Wild.accepts : List Wild → List Char → Bool
  | [], text => text.isEmpty
  | .any :: wilds, text => text.tails.any (Wild.accepts wilds)
  | .one :: wilds, text => match text with
      | [] => false
      | _ :: rest => Wild.accepts wilds rest
  | .letter char :: wilds, text => match text with
      | [] => false
      | first :: rest => char == first && Wild.accepts wilds rest

def likeEscape (escape : Char) (pattern text : List Char) : Bool :=
  Wild.accepts (compile escape pattern) text

def like : (pattern text : List Char) → Bool := likeEscape '\\'

/-- `*` is any text, `?` any one character and every other character itself. -/
def Glob : (pattern text : List Char) → Prop
  | [], text => text = []
  | char :: pattern, text =>
    if char = '*' then ∃ rest, rest <:+ text ∧ Glob pattern rest
    else ∃ first rest, text = first :: rest ∧ (char = '?' ∨ char = first) ∧ Glob pattern rest

variable {stem text : List Char} {wilds : List Wild} {char : Char} {number : Nat}

open List

theorem compile_cons {escape : Char} (plain : char ≠ escape) (rest : List Char) :
    compile escape (char :: rest) = wild char :: compile escape rest := by
  rw [compile.eq_def]
  exact if_neg plain

theorem compile_append {escape : Char} (plain : escape ∉ stem) (rest : List Char) :
    compile escape (stem ++ rest) = stem.map wild ++ compile escape rest := by
  induction stem with
  | nil => rfl
  | cons char stem ih =>
    rw [mem_cons, not_or] at plain
    rw [cons_append, compile_cons (Ne.symm plain.1), ih plain.2, map_cons, cons_append]

open Wild

theorem Wild.accepts_any :
    accepts (.any :: wilds) text = true ↔ ∃ tail, tail <:+ text ∧ accepts wilds tail = true := by
  rw [accepts, any_eq_true]
  simp

theorem Wild.accepts_stem (matched : accepts wilds text = true) (stem : List Char) :
    accepts (stem.map wild ++ wilds) (stem ++ text) = true := by
  induction stem with
  | nil => exact matched
  | cons char stem ih =>
    rw [map_cons, cons_append, cons_append, wild]
    split
    · exact accepts_any.mpr ⟨stem ++ text, suffix_cons _ _, ih⟩
    · split
      · exact ih
      · rw [accepts, beq_self_eq_true, Bool.true_and]
        exact ih

theorem like_stem (plain : '\\' ∉ stem) {pattern : List Char} (matched : like pattern text = true) :
    like (stem ++ pattern) (stem ++ text) = true := by
  rw [like, likeEscape, compile_append plain]
  exact accepts_stem matched stem

theorem wild_eq_letter {other : Char} (plain : other ≠ '%') (single : other ≠ '_') : wild char =
    .letter other ↔ char = other := by
  unfold wild
  split
  · rename_i percent
    simp [percent, plain.symm]
  · split
    · rename_i underscore
      simp [underscore, single.symm]
    · simp

theorem count_compile {escape : Char} (plain : char ≠ '%') (single : char ≠ '_')
    (literal : char ≠ escape) (pattern : List Char) :
    (compile escape pattern).count (.letter char) = pattern.count char := by
  fun_induction compile escape pattern with
  | case1 => rfl
  | case2 => simp [literal.symm]
  | case3 next others ih => simp [count_cons, ih, literal.symm]
  | case4 other rest _ ih =>
    have same : (wild other == letter char) = (other == char) := by
      rw [Bool.eq_iff_iff, beq_iff_eq, beq_iff_eq]
      exact wild_eq_letter plain single
    rw [count_cons, count_cons, ih, same]

theorem Wild.count_le (matched : accepts wilds text = true) :
    wilds.count (.letter char) ≤ text.count char := by
  induction wilds generalizing text with
  | nil => exact Nat.zero_le _
  | cons head rest ih =>
    cases head with
    | any =>
      obtain ⟨tail, suffix, matched⟩ := accepts_any.mp matched
      have fewer : tail.count char ≤ text.count char := suffix.sublist.count_le char
      simpa using Nat.le_trans (ih matched) fewer
    | one =>
      cases text with
      | nil => exact absurd matched Bool.false_ne_true
      | cons first text =>
        have fewer : text.count char ≤ (first :: text).count char := count_le_count_cons
        simpa using Nat.le_trans (ih matched) fewer
    | letter named =>
      cases text with
      | nil => exact absurd matched Bool.false_ne_true
      | cons first text =>
        rw [accepts, Bool.and_eq_true, beq_iff_eq] at matched
        have fewer := ih matched.2
        simp only [count_cons, matched.1, beq_iff_eq, letter.injEq]
        omega

theorem count_le_of_like (plain : char ≠ '%') (single : char ≠ '_') (literal : char ≠ '\\') {pattern : List Char}
    (matched : like pattern text = true) : pattern.count char ≤ text.count char :=
  count_compile plain single literal pattern ▸ count_le matched

def decimal? (digits : List Char) : Option Nat :=
  if digits ≠ [] ∧ digits.all Char.isDigit then some (Nat.ofDigitChars 10 digits 0) else none

def int64? (text : List Char) : Option Int :=
  let number := match text with
    | '-' :: digits => (decimal? digits).map fun value => -Int.ofNat value
    | '+' :: digits => (decimal? digits).map Int.ofNat
    | digits => (decimal? digits).map Int.ofNat
  number.filter fun value => decide (-2 ^ 63 ≤ value ∧ value < 2 ^ 63)

/-- The number at the start of a text, after blanks; what follows it is not read. -/
def scanInt64? (text : List Char) : Option Int :=
  match text.dropWhile (· == ' ') with
  | '-' :: rest => int64? ('-' :: rest.takeWhile Char.isDigit)
  | '+' :: rest => int64? ('+' :: rest.takeWhile Char.isDigit)
  | rest => int64? (rest.takeWhile Char.isDigit)

theorem isDigit_of_mem_toDigits (member : char ∈ Nat.toDigits 10 number) : char.isDigit = true :=
  Nat.isDigit_of_mem_toDigits (by decide) (by decide) member

theorem not_mem_toDigits (other : char.isDigit = false) : char ∉ Nat.toDigits 10 number := by
  intro member
  exact Bool.false_ne_true (other.symm.trans (isDigit_of_mem_toDigits member))

theorem toDigits_injective {one other : Nat} (same : Nat.toDigits 10 one = Nat.toDigits 10 other) : one = other := by
  have parsed := congrArg (fun digits => Nat.ofDigitChars 10 digits 0) same
  simpa [Nat.ofDigitChars_toDigits] using parsed

theorem ofDigitChars_zeros (count : Nat) (digits : List Char) :
    Nat.ofDigitChars 10 (replicate count '0' ++ digits) 0 = Nat.ofDigitChars 10 digits 0 := by
  induction count with
  | zero => rfl
  | succ count ih => rw [replicate_succ, cons_append, Nat.ofDigitChars_cons]; exact ih

/-- Texts of as many digits spell the same number only if they are the same. -/
theorem eq_of_ofDigitChars {one other : List Char} {start begin' : Nat} (oneDigits : ∀ char ∈ one, char.isDigit = true)
    (otherDigits : ∀ char ∈ other, char.isDigit = true) (length : one.length = other.length)
    (same : Nat.ofDigitChars 10 one start = Nat.ofDigitChars 10 other begin') : start = begin' ∧ one = other := by
  induction one generalizing other start begin' with
  | nil =>
    cases length_eq_zero_iff.mp length.symm
    exact ⟨by simpa using same, rfl⟩
  | cons char one ih =>
    cases other with
    | nil => cases length
    | cons first other =>
      rw [forall_mem_cons] at oneDigits otherDigits
      rw [Nat.ofDigitChars_cons, Nat.ofDigitChars_cons] at same
      obtain ⟨shifted, rfl⟩ := ih oneDigits.2 otherDigits.2 (Nat.succ.inj length) same
      have low := oneDigits.1
      have high := otherDigits.1
      simp only [Char.isDigit, Bool.and_eq_true, decide_eq_true_eq, ge_iff_le, UInt32.le_iff_toNat_le] at low high
      change 48 ≤ char.toNat ∧ char.toNat ≤ 57 at low
      change 48 ≤ first.toNat ∧ first.toNat ≤ 57 at high
      change 10 * start + (char.toNat - 48) = 10 * begin' + (first.toNat - 48) at shifted
      have chars : char.toNat = first.toNat := by omega
      exact ⟨by omega, by rw [Char.toNat_inj.mp chars]⟩

/-- The digits of a number, behind zeros up to a width. -/
def padded (width number : Nat) : List Char :=
  replicate (width - (Nat.toDigits 10 number).length) '0' ++ Nat.toDigits 10 number

theorem padded_injective {width one other : Nat} (same : padded width one = padded width other) : one = other := by
  have parsed := congrArg (fun digits => Nat.ofDigitChars 10 digits 0) same
  simpa [padded, ofDigitChars_zeros, Nat.ofDigitChars_toDigits] using parsed

theorem length_padded {width : Nat} (positive : 0 < width) (small : number < 10 ^ width) :
    (padded width number).length = width := by
  have fits := (Nat.length_toDigits_le_iff (by decide) positive).mpr small
  rw [padded, length_append, length_replicate]
  omega

theorem append_padded_inj {one other : List Char} {mark : Char} {width first second : Nat}
    (same : one ++ mark :: padded width first = other ++ mark :: padded width second)
    (positive : 0 < width) (small : first < 10 ^ width) (fits : second < 10 ^ width) :
    one = other ∧ first = second := by
  have lengths : (mark :: padded width first).length = (mark :: padded width second).length := by
    rw [length_cons, length_cons, length_padded positive small, length_padded positive fits]
  obtain ⟨front, field⟩ := append_inj' same lengths
  exact ⟨front, padded_injective (cons.inj field).2⟩

@[simp] theorem decimal?_toDigits (number : Nat) : decimal? (Nat.toDigits 10 number) = some number := by
  have digits : (Nat.toDigits 10 number).all Char.isDigit = true :=
    all_eq_true.mpr fun char member => isDigit_of_mem_toDigits member
  rw [decimal?, if_pos ⟨Nat.toDigits_ne_nil, digits⟩, Nat.ofDigitChars_toDigits (by decide) (by decide)]

theorem exists_toDigits (number : Nat) :
    ∃ first rest, Nat.toDigits 10 number = first :: rest ∧ ∀ other : Char, other.isDigit = false → first ≠ other := by
  cases digits : Nat.toDigits 10 number with
  | nil => exact absurd digits Nat.toDigits_ne_nil
  | cons first rest =>
    refine ⟨first, rest, rfl, fun other apart same => not_mem_toDigits apart (?_ : other ∈ Nat.toDigits 10 number)⟩
    rw [digits, same]
    exact mem_cons_self

theorem int64?_toDigits (small : number < 2 ^ 63) : int64? (Nat.toDigits 10 number) = some (number : Int) := by
  obtain ⟨first, rest, digits, differs⟩ := exists_toDigits number
  have parsed : decimal? (first :: rest) = some number := digits ▸ decimal?_toDigits number
  have minus : first ≠ '-' := differs _ rfl
  have plus : first ≠ '+' := differs _ rfl
  have range : -2 ^ 63 ≤ (number : Int) ∧ (number : Int) < 2 ^ 63 := by omega
  rw [digits]
  unfold int64?
  split
  · rename_i same
    exact absurd (List.cons.inj same).1 minus
  · rename_i same
    exact absurd (List.cons.inj same).1 plus
  · rw [parsed, Option.map_some, Option.filter_some]
    exact if_pos (decide_eq_true range)

theorem scanInt64?_toDigits (small : number < 2 ^ 63) :
    scanInt64? (Nat.toDigits 10 number) = some (number : Int) := by
  have whole : (Nat.toDigits 10 number).takeWhile Char.isDigit = Nat.toDigits 10 number :=
    takeWhile_eq_self_iff.mpr fun char member => isDigit_of_mem_toDigits member
  obtain ⟨first, rest, digits, differs⟩ := exists_toDigits number
  have minus : first ≠ '-' := differs _ rfl
  have plus : first ≠ '+' := differs _ rfl
  have blank : (first == ' ') = false := beq_eq_false_iff_ne.mpr (differs _ rfl)
  have read := int64?_toDigits small
  rw [digits] at whole read ⊢
  rw [scanInt64?, dropWhile_cons, blank]
  simp [minus, plus, whole, read]

/-- The largest of the scanned numbers, at least `start`. -/
def highest (start : Nat) (numbers : List Int) : Nat :=
  numbers.foldl (fun highest number => max highest number.toNat) start

theorem start_le_highest (start : Nat) (numbers : List Int) : start ≤ highest start numbers := by
  induction numbers generalizing start with
  | nil => exact Nat.le_refl _
  | cons first rest ih => exact Nat.le_trans (Nat.le_max_left _ _) (ih (max start first.toNat))

theorem le_highest {start : Nat} {numbers : List Int} {number : Int} (member : number ∈ numbers) :
    number.toNat ≤ highest start numbers := by
  induction numbers generalizing start with
  | nil => cases member
  | cons first rest ih =>
    obtain rfl | member := mem_cons.mp member
    · exact Nat.le_trans (Nat.le_max_right _ _) (start_le_highest _ rest)
    · exact ih member

def splitLast (separator : Char) (text : List Char) : Option (List Char × List Char) :=
  if separator ∈ text then
    some (((text.reverse.dropWhile (· != separator)).drop 1).reverse, (text.reverse.takeWhile (· != separator)).reverse)
  else none

theorem splitLast_append {separator : Char} {rest : List Char} (apart : separator ∉ rest) :
    splitLast separator (stem ++ separator :: rest) = some (stem, rest) := by
  have others : ∀ char ∈ rest.reverse, (char != separator) = true := by
    intro char member
    refine bne_iff_ne.mpr ?_
    rintro rfl
    exact apart (mem_reverse.mp member)
  have reversed : (stem ++ separator :: rest).reverse = rest.reverse ++ separator :: stem.reverse := by simp
  rw [splitLast, if_pos (mem_append_right _ (.head _)), reversed,
    dropWhile_append_of_pos others, takeWhile_append_of_pos others]
  simp

theorem suffix_of_splitLast {separator : Char} {before after : List Char}
    (split : splitLast separator text = some (before, after)) : after <:+ text := by
  rw [splitLast] at split
  split_ifs at split
  obtain ⟨_, rfl⟩ := Prod.mk.inj (Option.some.inj split)
  rw [← reverse_prefix, reverse_reverse]
  exact takeWhile_prefix _

def trimPrefix (start text : List Char) : List Char :=
  if start.isPrefixOf text then text.drop start.length else text

def trimSuffix (ending text : List Char) : List Char :=
  if ending.isSuffixOf text then text.take (text.length - ending.length) else text

theorem trimPrefix_suffix (start text : List Char) : trimPrefix start text <:+ text := by
  rw [trimPrefix]
  split
  · exact drop_suffix _ _
  · exact suffix_rfl

/-- The occurrences of a pattern found from the left, none overlapping another, each replaced. The
first `skip` characters belong to the last one. -/
def replaceFrom (pattern replacement : List Char) (skip : Nat) : List Char → List Char
  | [] => []
  | char :: rest =>
    if 0 < skip then replaceFrom pattern replacement (skip - 1) rest
    else if pattern.isPrefixOf (char :: rest) then replacement ++ replaceFrom pattern replacement (pattern.length - 1) rest
    else char :: replaceFrom pattern replacement 0 rest

def replaceAll (pattern replacement text : List Char) : List Char :=
  replaceFrom pattern replacement 0 text

end Text
