import Beads.Data.Text

namespace Beads.NaturalOrder

open Text List

def splitIdSegments (id : List Char) : List (List Char) :=
  (id.splitOnP fun char => char == '.' || char == '-').filter (· ≠ [])

/-- The difference of two numbers does not overflow, as no segment holds a `-`. -/
def compareSegments : List (List Char) → List (List Char) → Int
  | a :: as, b :: bs =>
    if a = b then compareSegments as bs
    else
      match int64? a, int64? b with
      | some m, some n => if m ≠ n then m - n else compareSegments as bs
      | _, _ => if a < b then -1 else 1
  | as, bs => as.length - bs.length

def naturalCompareIds (a b : List Char) : Int :=
  compareSegments (splitIdSegments a) (splitIdSegments b)

/-- A number by its value and any other segment by itself, the numbers first. -/
def key (segment : List Char) : ℤ ⊕ₗ List Char :=
  match int64? segment with
  | some number => toLex (.inl number)
  | none => toLex (.inr segment)

def keys (id : List Char) : List (ℤ ⊕ₗ List Char) := (splitIdSegments id).map key

def difference (a b : List Char) : Int :=
  match int64? a, int64? b with
  | some m, some n => m - n
  | _, _ => if a < b then -1 else 1

variable {a b : List Char} {as bs : List (List Char)}

theorem compareSegments_cons :
    compareSegments (a :: as) (b :: bs) = if key a = key b then compareSegments as bs else difference a b := by
  rw [compareSegments, difference, key, key]
  by_cases same : a = b
  · simp [same]
  · rw [if_neg same]
    cases int64? a <;> cases int64? b <;> simp [same]

theorem difference_swap (differ : key a ≠ key b) : difference b a = -difference a b ∧ difference a b ≠ 0 := by
  have apart : a ≠ b := fun same => differ (congrArg key same)
  rw [key, key] at differ
  rw [difference, difference]
  cases first : int64? a <;> cases second : int64? b
  case some.some m n =>
    have numbers : m ≠ n := fun same => differ (by rw [first, second, same])
    dsimp only
    omega
  all_goals
    obtain below | above := lt_or_gt_of_ne apart
    · simp [below, lt_asymm below]
    · simp [above, lt_asymm above]

theorem compareSegments_swap (as bs : List (List Char)) : compareSegments bs as = -compareSegments as bs := by
  induction as generalizing bs with
  | nil => cases bs <;> simp [compareSegments]
  | cons a as ih =>
    cases bs with
    | nil => simp [compareSegments]
    | cons b bs =>
      rw [compareSegments_cons, compareSegments_cons, ih, apply_ite Neg.neg]
      by_cases same : key a = key b
      · rw [if_pos same, if_pos same.symm]
      · rw [if_neg same, if_neg (Ne.symm same), (difference_swap same).1]

theorem compareSegments_eq_zero : compareSegments as bs = 0 ↔ as.map key = bs.map key := by
  induction as generalizing bs with
  | nil => cases bs <;> simp [compareSegments]; omega
  | cons a as ih =>
    cases bs with
    | nil => simp [compareSegments]; omega
    | cons b bs =>
      rw [compareSegments_cons, map_cons, map_cons, cons.injEq, ← ih]
      split
      · rename_i same
        exact (and_iff_right same).symm
      · rename_i differ
        exact iff_of_false (difference_swap differ).2 fun both => differ both.1

/-- Two segments with different keys: by value if both are numbers, else as texts. -/
def Less (a b : List Char) : Prop :=
  match int64? a, int64? b with
  | some m, some n => m < n
  | _, _ => a < b

theorem difference_neg : difference a b < 0 ↔ Less a b := by
  rw [difference, Less]
  cases int64? a <;> cases int64? b
  case some.some m n => exact sub_neg
  all_goals by_cases below : a < b <;> simp [below]

variable {c : List Char} {cs : List (List Char)} {m n : Int}

theorem key_number (read : int64? a = some m) : key a = key b ↔ int64? b = some m := by
  rw [key, key, read]
  cases int64? b <;> simp [eq_comm]

theorem key_text (unread : int64? a = none) : key a = key b ↔ a = b := by
  refine ⟨fun same => ?_, congrArg key⟩
  rw [key, key, unread] at same
  cases read : int64? b <;> simp_all

theorem less_numbers (first : int64? a = some m) (second : int64? b = some n) : Less a b ↔ m < n := by
  simp [Less, first, second]

theorem less_texts (text : int64? a = none ∨ int64? b = none) : Less a b ↔ a < b := by
  rw [Less]
  cases first : int64? a <;> cases second : int64? b <;> simp_all

theorem Less.key_ne (less : Less a b) : key a ≠ key b := by
  cases first : int64? a with
  | none =>
    rw [less_texts (.inl first)] at less
    exact fun same => less.ne ((key_text first).mp same)
  | some m =>
    intro same
    rw [less_numbers first ((key_number first).mp same)] at less
    exact less.ne rfl

/-- The rule for ids: the first two segments with different keys decide, or the
number of segments. -/
inductive NotAfter : List (List Char) → List (List Char) → Prop where
  | nil (bs : List (List Char)) : NotAfter [] bs
  | same {a b : List Char} {as bs : List (List Char)} (keys : key a = key b) (rest : NotAfter as bs) :
      NotAfter (a :: as) (b :: bs)
  | less {a b : List Char} {as bs : List (List Char)} (less : Less a b) : NotAfter (a :: as) (b :: bs)

theorem compareSegments_le : compareSegments as bs ≤ 0 ↔ NotAfter as bs := by
  induction as generalizing bs with
  | nil => exact iff_of_true (by cases bs <;> simp [compareSegments]) (.nil bs)
  | cons a as ih =>
    cases bs with
    | nil => exact iff_of_false (by simp only [compareSegments, length_nil, length_cons]; omega) nofun
    | cons b bs =>
      rw [compareSegments_cons]
      split
      · rename_i keys
        refine ih.trans ⟨.same keys, fun after => ?_⟩
        cases after with
        | same _ rest => exact rest
        | less less => exact absurd keys less.key_ne
      · rename_i differ
        rw [← Int.lt_iff_le_and_ne.trans (and_iff_left (difference_swap differ).2), difference_neg]
        refine ⟨.less, fun after => ?_⟩
        cases after with
        | same keys _ => exact absurd keys differ
        | less less => exact less

/-- Three ids agree up to a place where two have numbers and the third a text that stands between
the texts of the numbers, while the numbers, or what follows equal numbers, stand the other way. -/
inductive Circle : List (List Char) → List (List Char) → List (List Char) → Prop where
  | here {a b c : List Char} {as bs cs : List (List Char)} {m n : Int} (first : int64? a = some m)
      (second : int64? b = some n) (text : int64? c = none) (above : b < c) (below : c < a)
      (values : m < n ∨ m = n ∧ NotAfter as bs) : Circle (a :: as) (b :: bs) (c :: cs)
  | later {a b c : List Char} {as bs cs : List (List Char)} (first : key a = key b) (second : key b = key c)
      (rest : Circle as bs cs) : Circle (a :: as) (b :: bs) (c :: cs)

theorem notAfter_numbers (first : int64? a = some m) (second : int64? b = some n) :
    NotAfter (a :: as) (b :: bs) ↔ m < n ∨ m = n ∧ NotAfter as bs := by
  constructor
  · intro after
    cases after with
    | same keys rest =>
      have same := second.symm.trans ((key_number first).mp keys)
      exact .inr ⟨(Option.some.inj same).symm, rest⟩
    | less less => exact .inl ((less_numbers first second).mp less)
  · rintro (less | ⟨rfl, rest⟩)
    · exact .less ((less_numbers first second).mpr less)
    · exact .same ((key_number first).mpr second) rest

theorem notAfter_texts (text : int64? a = none ∨ int64? b = none) :
    NotAfter (a :: as) (b :: bs) ↔ a < b ∨ a = b ∧ NotAfter as bs := by
  constructor
  · intro after
    cases after with
    | same keys rest =>
      refine .inr ⟨?_, rest⟩
      obtain first | second := text
      · exact (key_text first).mp keys
      · exact ((key_text second).mp keys.symm).symm
    | less less => exact .inl ((less_texts text).mp less)
  · rintro (less | ⟨rfl, rest⟩)
    · exact .less ((less_texts text).mpr less)
    · exact .same rfl rest

/-- A number and a text are different texts. -/
theorem notAfter_mixed (mixed : (int64? a).isSome ≠ (int64? b).isSome) : NotAfter (a :: as) (b :: bs) ↔ a < b := by
  rw [notAfter_texts (by cases first : int64? a <;> cases second : int64? b <;> simp_all), or_iff_left]
  rintro ⟨rfl, _⟩
  exact mixed rfl

theorem Circle.not_after (circle : Circle as bs cs) : NotAfter as bs ∧ NotAfter bs cs ∧ ¬ NotAfter as cs := by
  induction circle with
  | here first second text above below values =>
    rw [notAfter_numbers first second, notAfter_mixed (by simp [second, text]), notAfter_mixed (by simp [first, text])]
    exact ⟨values, above, lt_asymm below⟩
  | later first second rest ih =>
    obtain ⟨one, two, apart⟩ := ih
    refine ⟨.same first one, .same second two, fun after => ?_⟩
    cases after with
    | same _ rest => exact apart rest
    | less less => exact less.key_ne (first.trans second)

theorem notAfter_total (as bs : List (List Char)) : NotAfter as bs ∨ NotAfter bs as := by
  rw [← compareSegments_le, ← compareSegments_le, compareSegments_swap]
  omega

/-- The comparison of three ids is transitive, or they form a circle. -/
theorem notAfter_trans_or (first : NotAfter as bs) (second : NotAfter bs cs) :
    NotAfter as cs ∨ Circle as bs cs ∨ Circle bs cs as ∨ Circle cs as bs := by
  induction as generalizing bs cs with
  | nil => exact .inl (.nil cs)
  | cons a as ih =>
    obtain _ | ⟨b, bs⟩ := bs
    · cases first
    obtain _ | ⟨c, cs⟩ := cs
    · cases second
    -- Where all keys agree, what follows decides.
    have tied (one : key a = key b) (two : key b = key c) (rest : NotAfter as bs) (later : NotAfter bs cs) :
        NotAfter (a :: as) (c :: cs) ∨ Circle (a :: as) (b :: bs) (c :: cs) ∨
          Circle (b :: bs) (c :: cs) (a :: as) ∨ Circle (c :: cs) (a :: as) (b :: bs) :=
      (ih rest later).imp (.same (one.trans two)) (Or.imp (.later one two)
        (Or.imp (.later two (one.trans two).symm) (.later (one.trans two).symm one)))
    cases one : int64? a <;> cases two : int64? b <;> cases three : int64? c
    case some.some.some m n k =>
      rw [notAfter_numbers one two] at first
      rw [notAfter_numbers two three] at second
      obtain less | ⟨rfl, rest⟩ := first
      · exact .inl ((notAfter_numbers one three).mpr (.inl (less.trans_le (second.elim le_of_lt fun tie => tie.1.le))))
      · obtain less | ⟨rfl, later⟩ := second
        · exact .inl ((notAfter_numbers one three).mpr (.inl less))
        · exact tied ((key_number one).mpr two) ((key_number two).mpr three) rest later
    -- With two numbers the third may stand between them as a text.
    case some.some.none m n =>
      rw [notAfter_mixed (by simp [two, three])] at second
      obtain after | above := notAfter_total (a :: as) (c :: cs)
      · exact .inl after
      · rw [notAfter_mixed (by simp [one, three])] at above
        exact .inr (.inl (.here one two three second above ((notAfter_numbers one two).mp first)))
    case none.some.some n k =>
      rw [notAfter_mixed (by simp [one, two])] at first
      obtain after | above := notAfter_total (a :: as) (c :: cs)
      · exact .inl after
      · rw [notAfter_mixed (by simp [one, three])] at above
        exact .inr (.inr (.inl (.here two three one above first ((notAfter_numbers two three).mp second))))
    case some.none.some m k =>
      rw [notAfter_mixed (by simp [one, two])] at first
      rw [notAfter_mixed (by simp [two, three])] at second
      obtain after | after := notAfter_total (a :: as) (c :: cs)
      · exact .inl after
      · exact .inr (.inr (.inr (.here three one two first second ((notAfter_numbers three one).mp after))))
    all_goals
      rw [notAfter_texts (by simp [one, two])] at first
      rw [notAfter_texts (by simp [two, three])] at second
      obtain less | ⟨rfl, rest⟩ := first
      · refine .inl ((notAfter_texts (by simp [one, three])).mpr (.inl ?_))
        obtain more | ⟨rfl, _⟩ := second
        · exact less.trans more
        · exact less
      · obtain more | ⟨rfl, later⟩ := second
        · exact .inl ((notAfter_texts (by simp [one, three])).mpr (.inl more))
        · exact tied rfl rfl rest later

/-- Two texts are one, or both are digits and one is the other behind zeros. -/
def SameNumeral (a b : List Char) : Prop :=
  a = b ∨ ∃ count, a.all Char.isDigit = true ∧ b.all Char.isDigit = true ∧
    (a = replicate count '0' ++ b ∨ b = replicate count '0' ++ a)

def Signed (segment : List Char) : Prop := segment.head? = some '+'

theorem digits_of_unsigned (read : int64? a = some m) (minus : '-' ∉ a) (plus : ¬ Signed a) :
    (∀ char ∈ a, char.isDigit = true) ∧ (Nat.ofDigitChars 10 a 0 : Int) = m := by
  unfold int64? at read
  split at read
  · exact absurd (.head _) minus
  · exact absurd rfl plus
  · obtain ⟨value, parsed, same⟩ := Option.map_eq_some_iff.mp (Option.filter_eq_some_iff.mp read).1
    rw [decimal?, Option.ite_none_right_eq_some] at parsed
    exact ⟨all_eq_true.mp parsed.1.2, by rw [Option.some.inj parsed.2]; exact same⟩

theorem sameNumeral_of_length (first : ∀ char ∈ a, char.isDigit = true) (second : ∀ char ∈ b, char.isDigit = true)
    (value : Nat.ofDigitChars 10 a 0 = Nat.ofDigitChars 10 b 0) (shorter : a.length ≤ b.length) :
    b = replicate (b.length - a.length) '0' ++ a := by
  refine (eq_of_ofDigitChars second (fun char member => ?_) ?_ (value.symm.trans (ofDigitChars_zeros _ a).symm)).2
  · obtain zero | inside := mem_append.mp member
    · rw [eq_of_mem_replicate zero]
      rfl
    · exact first char inside
  · rw [length_append, length_replicate]
    omega

theorem sameNumeral_iff (keys : key a = key b) (first : '-' ∉ a) (second : '-' ∉ b) :
    SameNumeral a b ↔ (Signed a ∨ Signed b → a = b) := by
  constructor
  · rintro (same | ⟨_, digits, also, _⟩) signed
    · exact same
    · have plus : ∀ {segment : List Char}, segment.all Char.isDigit = true → ¬ Signed segment := by
        intro segment digits signed
        exact absurd (all_eq_true.mp digits '+' (mem_of_head? signed)) (by decide)
      exact absurd signed (not_or.mpr ⟨plus digits, plus also⟩)
  · intro agree
    by_cases signed : Signed a ∨ Signed b
    · exact .inl (agree signed)
    · cases read : int64? a with
      | none => exact .inl ((key_text read).mp keys)
      | some m =>
        obtain ⟨unsigned, nor⟩ := not_or.mp signed
        obtain ⟨digits, value⟩ := digits_of_unsigned read first unsigned
        obtain ⟨also, same⟩ := digits_of_unsigned ((key_number read).mp keys) second nor
        have equal : Nat.ofDigitChars 10 a 0 = Nat.ofDigitChars 10 b 0 := by omega
        refine .inr ?_
        obtain shorter | longer := le_total a.length b.length
        · exact ⟨_, all_eq_true.mpr digits, all_eq_true.mpr also, .inr (sameNumeral_of_length digits also equal shorter)⟩
        · exact ⟨_, all_eq_true.mpr digits, all_eq_true.mpr also, .inl (sameNumeral_of_length also digits equal.symm longer)⟩

theorem minus_notMem_segment {id segment : List Char} (member : segment ∈ splitIdSegments id) : '-' ∉ segment := by
  have clean : ∀ part ∈ id.splitOnP fun char => char == '.' || char == '-', '-' ∉ part := by
    clear member
    induction id with
    | nil => simp
    | cons char id ih =>
      rw [splitOnP_cons_eq_if_modifyHead]
      split
      · exact forall_mem_cons.mpr ⟨not_mem_nil, ih⟩
      · rename_i inner
        cases parts : id.splitOnP fun char => char == '.' || char == '-' with
        | nil => exact nofun
        | cons first rest =>
          rw [parts] at ih
          have other : char ≠ '-' := fun same => inner (by simp [same])
          obtain ⟨here, later⟩ := forall_mem_cons.mp ih
          exact forall_mem_cons.mpr ⟨by simp [other.symm, here], later⟩
  exact clean segment (mem_of_mem_filter member)

theorem forall₂_sameNumeral_iff (same : as.map key = bs.map key)
    (first : ∀ segment ∈ as, '-' ∉ segment) (second : ∀ segment ∈ bs, '-' ∉ segment) :
    Forall₂ SameNumeral as bs ↔ Forall₂ (fun x y => Signed x ∨ Signed y → x = y) as bs := by
  induction as generalizing bs with
  | nil => cases bs <;> simp_all
  | cons a as ih =>
    cases bs with
    | nil => cases same
    | cons b bs =>
      obtain ⟨keys, rest⟩ := cons.inj same
      rw [forall_mem_cons] at first second
      rw [forall₂_cons, forall₂_cons, sameNumeral_iff keys first.1 second.1, ih rest first.2 second.2]

/-- No three of the ids form a circle. -/
def Straight (ids : Set (List Char)) : Prop :=
  ∀ a ∈ ids, ∀ b ∈ ids, ∀ c ∈ ids, ¬ Circle (splitIdSegments a) (splitIdSegments b) (splitIdSegments c)

theorem straight_iff {ids : Set (List Char)} : (∀ a ∈ ids, ∀ b ∈ ids, ∀ c ∈ ids, naturalCompareIds a b ≤ 0 →
    naturalCompareIds b c ≤ 0 → naturalCompareIds a c ≤ 0) ↔ Straight ids := by
  simp only [naturalCompareIds, compareSegments_le]
  constructor
  · intro transitive a one b two c three circle
    obtain ⟨first, second, apart⟩ := circle.not_after
    exact apart (transitive a one b two c three first second)
  · intro straight a one b two c three first second
    obtain after | circle | circle | circle := notAfter_trans_or first second
    · exact after
    · exact absurd circle (straight a one b two c three)
    · exact absurd circle (straight b two c three a one)
    · exact absurd circle (straight c three a one b two)

theorem sorted_unique {ids : Set (List Char)} (transitive : ∀ a ∈ ids, ∀ b ∈ ids, ∀ c ∈ ids, naturalCompareIds a b ≤ 0 →
      naturalCompareIds b c ≤ 0 → naturalCompareIds a c ≤ 0) {one other : List (List Char)} (same : one.Perm other)
    (listed : ∀ id ∈ one, id ∈ ids) (sorted : one.Pairwise (naturalCompareIds · · ≤ 0))
    (resorted : other.Pairwise (naturalCompareIds · · ≤ 0)) : one.map keys = other.map keys := by
  -- Of two lists of keys the one stands before the other if it does so in all ids.
  let before (x y : List (ℤ ⊕ₗ List Char)) : Prop := ∀ a ∈ ids, ∀ b ∈ ids, keys a = x → keys b = y → naturalCompareIds a b ≤ 0
  have tie {a b : List Char} (same : keys a = keys b) : naturalCompareIds a b ≤ 0 := (compareSegments_eq_zero.mpr same).le
  have sort : ∀ list : List (List Char), (∀ id ∈ list, id ∈ ids) →
      list.Pairwise (naturalCompareIds · · ≤ 0) → (list.map keys).Pairwise before := by
    intro list listed sorted
    refine pairwise_map.mpr (sorted.imp_of_mem fun {x y} first second ordered a one b two low high => ?_)
    have up := transitive a one x (listed x first) y (listed y second) (tie low) ordered
    exact transitive a one y (listed y second) b two up (tie high.symm)
  have relisted : ∀ id ∈ other, id ∈ ids := fun id member => listed id (same.mem_iff.mpr member)
  refine (same.map keys).eq_of_pairwise (fun x y here there low high => ?_) (sort one listed sorted)
    (sort other relisted resorted)
  obtain ⟨a, first, rfl⟩ := mem_map.mp here
  obtain ⟨b, second, rfl⟩ := mem_map.mp there
  have below := low a (listed a first) b (relisted b second) rfl rfl
  have above := high b (relisted b second) a (listed a first) rfl rfl
  rw [naturalCompareIds, compareSegments_swap, Int.neg_nonpos_iff] at above
  exact compareSegments_eq_zero.mp (le_antisymm below above)

/-- The comparison flips with its operands and is zero exactly if the segments have the same keys.
On a set of ids it is transitive if and only if no three of them form a circle, and then it sorts
them in one order up to ties. Ties have the same segments up to leading zeros if and only if no two
ids with the same keys differ where one of them has a sign. -/
theorem naturalCompareIds_order (ids : Set (List Char)) :
    (∀ a b, naturalCompareIds b a = -naturalCompareIds a b) ∧ (∀ a b, naturalCompareIds a b = 0 ↔ keys a = keys b) ∧
    ((∀ a ∈ ids, ∀ b ∈ ids, ∀ c ∈ ids, naturalCompareIds a b ≤ 0 → naturalCompareIds b c ≤ 0 →
      naturalCompareIds a c ≤ 0) ↔ Straight ids) ∧
    ((∀ a ∈ ids, ∀ b ∈ ids, naturalCompareIds a b = 0 → Forall₂ SameNumeral (splitIdSegments a) (splitIdSegments b)) ↔
      ∀ a ∈ ids, ∀ b ∈ ids, keys a = keys b →
        Forall₂ (fun x y => Signed x ∨ Signed y → x = y) (splitIdSegments a) (splitIdSegments b)) ∧
    (Straight ids → ∀ one other : List (List Char), one.Perm other → (∀ id ∈ one, id ∈ ids) →
      one.Pairwise (naturalCompareIds · · ≤ 0) → other.Pairwise (naturalCompareIds · · ≤ 0) → one.map keys = other.map keys) := by
  refine ⟨fun _ _ => compareSegments_swap _ _, fun _ _ => compareSegments_eq_zero, straight_iff, ?_, ?_⟩
  · refine forall₂_congr fun a _ => forall₂_congr fun b _ => ?_
    rw [naturalCompareIds, compareSegments_eq_zero]
    refine imp_congr_right fun same => forall₂_sameNumeral_iff same ?_ ?_
    · exact fun _ => minus_notMem_segment
    · exact fun _ => minus_notMem_segment
  · exact fun straight one other => sorted_unique (straight_iff.mpr straight)

/-- Four ids whose last segments start with digits and are no numbers. -/
def hashIds : List (List Char) :=
  ["bd-4f2".toList, "bd-9zz".toList, "bd-1a".toList, "bd-0k3".toList]

theorem Circle.exists_number (circle : Circle as bs cs) : ∃ segment ∈ as, (int64? segment).isSome = true := by
  induction circle with
  | here first => exact ⟨_, .head _, by simp [first]⟩
  | later _ _ _ ih =>
    obtain ⟨segment, member, number⟩ := ih
    exact ⟨segment, .tail _ member, number⟩

theorem hashIds_ordered : (∀ a ∈ hashIds, ∀ b ∈ hashIds, ∀ c ∈ hashIds,
      naturalCompareIds a b ≤ 0 → naturalCompareIds b c ≤ 0 → naturalCompareIds a c ≤ 0) ∧
    naturalCompareIds "bd-1a".toList "bd-4f2".toList < 0 := by
  refine ⟨(naturalCompareIds_order {id | id ∈ hashIds}).2.2.1.mpr fun a member _ _ _ _ circle => ?_, by decide +kernel⟩
  have texts : ∀ id ∈ hashIds, ∀ segment ∈ splitIdSegments id, (int64? segment).isSome = false := by decide +kernel
  obtain ⟨segment, inside, number⟩ := circle.exists_number
  exact Bool.false_ne_true ((texts a member segment inside).symm.trans number)

/-- `bd-2` is before `bd-10`, `bd-10` before `bd-1a` and that before `bd-2`; `+5` ties with `5`. -/
theorem naturalCompareIds_circle :
    naturalCompareIds "bd-2".toList "bd-10".toList < 0 ∧ naturalCompareIds "bd-10".toList "bd-1a".toList < 0 ∧
      naturalCompareIds "bd-1a".toList "bd-2".toList < 0 ∧ naturalCompareIds "bd-+5".toList "bd-5".toList = 0 := by
  decide +kernel

end Beads.NaturalOrder
