import Beads.Json.Scanner

namespace Beads.Json

theorem toNat_scalar (char : Char) : char.toNat < 0xd800 ∨ 0xdfff < char.toNat ∧ char.toNat < 0x110000 := char.valid

theorem codeUnitKey_injective {one other : Char} (same : codeUnitKey one = codeUnitKey other) : one = other := by
  refine Char.toNat_inj.mp ?_
  unfold codeUnitKey at same
  split_ifs at same <;> omega

theorem compare_cons {α : Type} [Ord α] (a b : α) (as bs : List α) : compare (a :: as) (b :: bs) =
    (compare a b).then (compare as bs) :=
  List.compareLex_cons_cons

open List

theorem compareCodeUnits_eq_compare (one other : List Char) :
    compareCodeUnits one other = compare (one.map codeUnitKey) (other.map codeUnitKey) := by
  fun_induction compareCodeUnits one other with
  | case1 | case2 | case3 => rfl
  | case4 a as b bs differ below =>
    rw [map_cons, map_cons, compare_cons, Nat.compare_eq_lt.mpr below]
    rfl
  | case5 a as b bs differ above =>
    have apart : codeUnitKey a ≠ codeUnitKey b := fun same => differ (codeUnitKey_injective same)
    rw [map_cons, map_cons, compare_cons, Nat.compare_eq_gt.mpr (by omega)]
    rfl
  | case6 a as b bs same ih =>
    rw [ih, not_not.mp same, map_cons, map_cons, compare_cons, Nat.compare_eq_eq.mpr rfl]
    rfl

theorem compareCodeUnits_swap (one other : List Char) : compareCodeUnits other one = (compareCodeUnits one other).swap := by
  rw [compareCodeUnits_eq_compare, compareCodeUnits_eq_compare]
  exact Std.OrientedOrd.eq_swap

theorem compareCodeUnits_eq_iff {one other : List Char} : compareCodeUnits one other = .eq ↔ one = other := by
  rw [compareCodeUnits_eq_compare, Std.compare_eq_iff_eq]
  exact (map_injective_iff.mpr fun _ _ => codeUnitKey_injective).eq_iff

theorem compareCodeUnits_lt_trans {one middle other : List Char} (first : compareCodeUnits one middle = .lt)
    (second : compareCodeUnits middle other = .lt) : compareCodeUnits one other = .lt := by
  rw [compareCodeUnits_eq_compare] at first second ⊢
  exact Std.TransCmp.lt_trans first second

/-- The key of the first comes before the key of the second. -/
abbrev Below {α : Type} (key : α → List Char) (one other : α) : Prop :=
  compareCodeUnits (key one) (key other) = .lt

instance {α : Type} (key : α → List Char) : IsStrictOrder α (Below key) where
  irrefl one below := by
    rw [Below, compareCodeUnits_eq_iff.mpr rfl] at below
    cases below
  trans _ _ _ := compareCodeUnits_lt_trans

/-- The UTF-16 code units of a character. -/
def codeUnits (char : Char) : List Nat :=
  if char.toNat < 0x10000 then [char.toNat]
  else [0xd800 + (char.toNat - 0x10000) / 0x400, 0xdc00 + (char.toNat - 0x10000) % 0x400]

theorem compare_codeUnits {a b : Char} (below : codeUnitKey a < codeUnitKey b) (as bs : List Nat) :
    compare (codeUnits a ++ as) (codeUnits b ++ bs) = .lt := by
  have scalar := toNat_scalar a
  have otherScalar := toNat_scalar b
  unfold codeUnitKey at below
  unfold codeUnits
  split_ifs at below ⊢ <;> simp only [cons_append, compare_cons, Ordering.then_eq_lt,
    Nat.compare_eq_lt, Nat.compare_eq_eq] <;> omega

theorem compare_append_left (shared as bs : List Nat) : compare (shared ++ as) (shared ++ bs) = compare as bs := by
  induction shared with
  | nil => rfl
  | cons unit shared ih =>
    rw [cons_append, cons_append, compare_cons, Nat.compare_eq_eq.mpr rfl, ih]
    rfl

theorem compareCodeUnits_eq_units (one other : List Char) :
    compareCodeUnits one other = compare (one.flatMap codeUnits) (other.flatMap codeUnits) := by
  fun_induction compareCodeUnits one other with
  | case1 => rfl
  | case2 b bs | case3 a as =>
    rw [flatMap_cons, codeUnits]
    split_ifs <;> rfl
  | case4 a as b bs differ below => exact (compare_codeUnits below _ _).symm
  | case5 a as b bs differ above =>
    have apart : codeUnitKey a ≠ codeUnitKey b := fun same => differ (codeUnitKey_injective same)
    rw [Std.OrientedOrd.eq_swap, flatMap_cons, flatMap_cons, compare_codeUnits (by omega)]
    rfl
  | case6 a as b bs same ih => rw [ih, not_not.mp same, flatMap_cons, flatMap_cons, compare_append_left]

theorem compare_map_congr {α β γ : Type} [Ord β] [Ord γ] {f : α → β} {g : α → γ} {one other : List α}
    (agree : ∀ a ∈ one, ∀ b ∈ other, compare (f a) (f b) = compare (g a) (g b)) :
    compare (one.map f) (other.map f) = compare (one.map g) (other.map g) := by
  induction one generalizing other with
  | nil => cases other <;> rfl
  | cons a as ih =>
    cases other with
    | nil => rfl
    | cons b bs =>
      have rest := ih fun a inside b member => agree a (.tail _ inside) b (.tail _ member)
      simp only [map_cons, compare_cons, agree a (.head _) b (.head _), rest]

theorem encode_ascii {text : List Char} (ascii : ∀ char ∈ text, char.toNat < 0x80) :
    Utf8.encode text = text.map fun char => UInt8.ofNat char.toNat := by
  induction text with
  | nil => rfl
  | cons char text ih =>
    have value : char.val.toNat ≤ 0x7f := Nat.lt_succ_iff.mp (ascii char (.head _))
    rw [Utf8.encode_cons, ih fun char member => ascii char (.tail _ member), String.utf8EncodeChar]
    simp only [if_pos value]
    rfl

theorem compareCodeUnits_ascii {one other : List Char} (ascii : ∀ char ∈ one ++ other, char.toNat < 0x80) :
    compareCodeUnits one other = compare (Utf8.encode one) (Utf8.encode other) := by
  obtain ⟨left, right⟩ := forall_mem_append.mp ascii
  rw [encode_ascii left, encode_ascii right, compareCodeUnits_eq_compare]
  refine compare_map_congr fun a inside b member => ?_
  have small := left a inside
  have otherSmall := right b member
  simp only [codeUnitKey, compare, compareOfLessAndEq, UInt8.lt_iff_toNat_lt, ← UInt8.toNat_inj, UInt8.toNat_ofNat']
  grind

/-- The comparison is that of the UTF-16 code units, a strict total order, and among ASCII texts
that of the bytes. -/
theorem compareCodeUnits_orders :
    (∀ one other, compareCodeUnits one other = compare (one.flatMap codeUnits) (other.flatMap codeUnits)) ∧
    IsStrictTotalOrder (List Char) (fun one other => compareCodeUnits one other = .lt) ∧
    (∀ one other, compareCodeUnits one other = .eq ↔ one = other) ∧
    ∀ one other, (∀ char ∈ one ++ other, char.toNat < 0x80) →
      compareCodeUnits one other = compare (Utf8.encode one) (Utf8.encode other) := by
  refine ⟨compareCodeUnits_eq_units, ?_, fun _ _ => compareCodeUnits_eq_iff, fun _ _ => compareCodeUnits_ascii⟩
  exact
    { trichotomous := fun one other notBelow notAbove => by
        rw [compareCodeUnits_swap] at notAbove
        rw [← compareCodeUnits_eq_iff]
        cases order : compareCodeUnits one other <;> simp_all
      irrefl := irrefl_of (Below id)
      trans := fun _ _ _ => compareCodeUnits_lt_trans }

section Keys

variable {α : Type} {key : α → List Char}

abbrev Before (key : α → List Char) (one other : α) : Prop :=
  compareCodeUnits (key one) (key other) ≠ .gt

theorem before_iff {one other : α} : Before key one other ↔ Below key one other ∨ key one = key other := by
  rw [← compareCodeUnits_eq_iff, Before, Below]
  cases compareCodeUnits (key one) (key other) <;> simp

instance : Std.Total (Before key) where
  total one other := by
    rw [Before, Before, compareCodeUnits_swap (key one) (key other)]
    cases compareCodeUnits (key one) (key other) <;> simp

instance : IsTrans α (Before key) where
  trans one middle other first second := by
    rw [before_iff] at first second ⊢
    rcases first with first | first
    · rcases second with second | second
      · exact .inl (compareCodeUnits_lt_trans first second)
      · exact .inl (by rwa [Below, ← second])
    · rwa [Below, first]

theorem insertionSort_below {items : List α} (distinct : (items.map key).Nodup) :
    (items.insertionSort (Before key)).Pairwise (Below key) := by
  have ordered := pairwise_insertionSort (Before key) items
  have apart := pairwise_map.mp (((perm_insertionSort (Before key) items).map key).nodup_iff.mpr distinct)
  exact (ordered.and apart).imp fun both => (before_iff.mp both.1).resolve_right both.2

theorem nodup_keys {items : List α} (ascending : items.Pairwise (Below key)) : (items.map key).Nodup := by
  rw [List.Nodup, pairwise_map]
  refine ascending.imp fun below same => ?_
  rw [Below, compareCodeUnits_eq_iff.mpr same] at below
  cases below

end Keys

def Sorted (members : List Member) : Prop := members.Pairwise fun one other => compareCodeUnits one.key other.key = .lt

variable {members : List Member}

theorem Sorted.distinct (sorted : Sorted members) : (members.map Member.key).Nodup :=
  nodup_keys sorted

theorem sortMembers_perm (members : List Member) : (sortMembers members).Perm members :=
  perm_insertionSort _ members

theorem sorted_sortMembers (distinct : (members.map Member.key).Nodup) :
    Sorted (sortMembers members) := insertionSort_below distinct

theorem Sorted.sortMembers_eq (sorted : Sorted members) : sortMembers members = members :=
  List.Pairwise.insertionSort_eq (sorted.imp fun below => before_iff.mpr (.inl below))

end Beads.Json
