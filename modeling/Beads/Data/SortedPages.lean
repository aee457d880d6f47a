import Mathlib

namespace SortedPages

variable {α : Type} {r : α → α → Prop}

def page (r : α → α → Prop) [DecidableRel r] (n : Nat) (list : List α) : List α :=
  if n = 0 then list.insertionSort r else (list.insertionSort r).take n

/-- Two elements of the list that the order does not tell apart are one. -/
def Separated (r : α → α → Prop) (list : List α) : Prop := ∀ a ∈ list, ∀ b ∈ list, r a b → r b a → a = b

variable {list other : List α} {bound : α} {n : Nat}

theorem Separated.subset {part : List α} (separated : Separated r list) (subset : part ⊆ list) : Separated r part :=
  fun a here b there => separated a (subset here) b (subset there)

open List

theorem take_take_append (n : Nat) (list others : List α) : (list.take n ++ others).take n = (list ++ others).take n := by
  have rest : n - min n list.length = n - list.length := by omega
  rw [take_append, take_append, take_take, Nat.min_self, length_take, rest]

variable [DecidableRel r]

def before (r : α → α → Prop) [DecidableRel r] (bound : α) (list : List α) : Nat :=
  list.countP fun other => !decide (r bound other)

theorem before_append {left right : List α} : before r bound (left ++ right) = before r bound left + before r bound right :=
  countP_append

theorem before_perm (same : list.Perm other) : before r bound list = before r bound other :=
  same.countP_eq _

theorem before_eq_zero (after : ∀ other ∈ list, r bound other) : before r bound list = 0 :=
  countP_eq_zero.mpr fun other member => by simp [after other member]

theorem before_eq_length (earlier : ∀ other ∈ list, ¬ r bound other) : before r bound list = list.length :=
  countP_eq_length.mpr fun other member => by simp [earlier other member]

theorem mem_of_mem_page {a : α} (member : a ∈ page r n list) : a ∈ list := by
  rw [page] at member
  split at member
  · exact (mem_insertionSort r).mp member
  · exact (mem_insertionSort r).mp (mem_of_mem_take member)

section Inserting

variable [IsTrans α r]

theorem before_mono {low high : α} (below : r low high) (list : List α) : before r low list ≤ before r high list := by
  refine countP_mono_left fun other _ earlier => ?_
  simp only [Bool.not_eq_true', decide_eq_false_iff_not] at earlier ⊢
  exact fun reaches => earlier (IsTrans.trans _ _ _ below reaches)

theorem take_orderedInsert (sorted : list.Pairwise r) (many : n ≤ before r bound list) :
    (list.orderedInsert r bound).take n = list.take n := by
  induction list generalizing n with
  | nil =>
    obtain rfl : n = 0 := Nat.le_zero.mp many
    rfl
  | cons first rest ih =>
    obtain ⟨least, sorted⟩ := pairwise_cons.mp sorted
    cases n with
    | zero => rfl
    | succ n =>
      have earlier : ¬ r bound first := by
        intro reaches
        have none : before r bound (first :: rest) = 0 := before_eq_zero <|
          forall_mem_cons.mpr ⟨reaches, fun other member => IsTrans.trans _ _ _ reaches (least other member)⟩
        omega
      have fewer : n ≤ before r bound rest := by
        rw [before, countP_cons, if_pos (by simp [earlier])] at many
        exact Nat.le_of_succ_le_succ many
      rw [orderedInsert_cons, if_neg earlier, take_succ_cons, take_succ_cons, ih sorted fewer]

end Inserting

theorem sort_congr {q : α → α → Prop} [DecidableRel q] (agree : ∀ a ∈ list, ∀ b ∈ list, r a b ↔ q a b) :
    list.insertionSort r = list.insertionSort q := by
  simpa using map_insertionSort r q id list agree

variable [Std.Total r] [IsTrans α r]

theorem take_sort_append {late : List α} (many : ∀ bound ∈ late, n ≤ before r bound list) :
    ((late ++ list).insertionSort r).take n = (list.insertionSort r).take n := by
  induction late with
  | nil => rfl
  | cons bound late ih =>
    have enough : n ≤ before r bound ((late ++ list).insertionSort r) := by
      rw [before_perm (perm_insertionSort r _), before_append]
      exact (many bound (.head _)).trans (Nat.le_add_left _ _)
    rw [cons_append, insertionSort_cons, take_orderedInsert (pairwise_insertionSort r _) enough]
    exact ih fun other member => many other (.tail _ member)

section

variable (separated : Separated r list)
include separated

theorem sort_eq_of_perm (same : list.Perm other) : list.insertionSort r = other.insertionSort r := by
  refine List.Perm.eq_of_pairwise (fun a b here there => ?_) (pairwise_insertionSort r list) (pairwise_insertionSort r other) ?_
  · exact separated a ((mem_insertionSort r).mp here) b (same.mem_iff.mpr ((mem_insertionSort r).mp there))
  · exact ((perm_insertionSort r list).trans same).trans (perm_insertionSort r other).symm

theorem filter_sort (p : α → Bool) : (list.insertionSort r).filter p = (list.filter p).insertionSort r := by
  have whole := (perm_insertionSort r list).filter p
  refine List.Perm.eq_of_pairwise (fun a b here there => ?_) ((pairwise_insertionSort r list).sublist filter_sublist)
    (pairwise_insertionSort r _) (whole.trans (perm_insertionSort r _).symm)
  exact separated a (mem_of_mem_filter (whole.mem_iff.mp here)) b
    (mem_of_mem_filter ((mem_insertionSort r).mp there))

theorem page_eq_of_perm (same : list.Perm other) : page r n list = page r n other := by
  rw [page, page, sort_eq_of_perm separated same]

theorem le_before_take (member : bound ∈ list)
    (late : bound ∉ (list.insertionSort r).take n) : n ≤ before r bound ((list.insertionSort r).take n) := by
  have sorted := pairwise_insertionSort r list
  have dropped : bound ∈ (list.insertionSort r).drop n := by
    have listed := (mem_insertionSort r).mpr member
    rw [← take_append_drop n (list.insertionSort r)] at listed
    exact (mem_append.mp listed).resolve_left late
  have long : ((list.insertionSort r).take n).length = n := by
    rw [length_take]
    have := length_pos_of_mem dropped
    rw [length_drop] at this
    omega
  rw [before_eq_length, long]
  intro other here reaches
  rw [← take_append_drop n (list.insertionSort r)] at sorted
  have ahead := (pairwise_append.mp sorted).2.2 other here bound dropped
  have same := separated bound member other ((mem_insertionSort r).mp (mem_of_mem_take here)) reaches ahead
  exact late (same ▸ here)

theorem le_before_of_mem_drop (distinct : list.Nodup)
    (dropped : bound ∈ (list.insertionSort r).drop n) : n ≤ before r bound ((list.insertionSort r).take n) := by
  have nodup := (perm_insertionSort r list).nodup_iff.mpr distinct
  rw [← take_append_drop n (list.insertionSort r)] at nodup
  refine le_before_take separated ((mem_insertionSort r).mp (mem_of_mem_drop dropped)) fun taken => ?_
  exact disjoint_of_nodup_append nodup taken dropped

theorem mem_take_sort_iff {a : α} : a ∈ (list.insertionSort r).take n ↔ a ∈ list ∧ before r a list < n := by
  have counted : before r a list = before r a ((list.insertionSort r).take n) + before r a ((list.insertionSort r).drop n) := by
    rw [← before_append, take_append_drop, before_perm (perm_insertionSort r list)]
  constructor
  · intro taken
    have sorted := pairwise_insertionSort r list
    rw [← take_append_drop n (list.insertionSort r)] at sorted
    have behind :=
      before_eq_zero fun other dropped => (pairwise_append.mp sorted).2.2 a taken other dropped
    have fewer : before r a ((list.insertionSort r).take n) < ((list.insertionSort r).take n).length :=
      countP_lt_length_iff.mpr ⟨a, taken, by simp [Std.Refl.refl (r := r) a]⟩
    have short : ((list.insertionSort r).take n).length ≤ n := length_take_le _ _
    exact ⟨(mem_insertionSort r).mp (mem_of_mem_take taken), by omega⟩
  · intro ⟨member, few⟩
    by_contra late
    have many := le_before_take separated member late
    omega

end

theorem page_page (n : Nat) (list : List α) : page r n (page r n list) = page r n list := by
  have sorted := pairwise_insertionSort r list
  by_cases all : n = 0
  · simp only [page, if_pos all, sorted.insertionSort_eq]
  · simp only [page, if_neg all, (sorted.sublist (take_sublist n _)).insertionSort_eq, take_take, Nat.min_self]

theorem page_pages {left right : List α} (separated : Separated r (left ++ right)) (distinct : (left ++ right).Nodup) :
    page r n (page r n left ++ page r n right) = page r n (left ++ right) := by
  by_cases all : n = 0
  · have same : (page r n left ++ page r n right).Perm (left ++ right) := by
      simp only [page, if_pos all]
      exact (perm_insertionSort r left).append (perm_insertionSort r right)
    exact page_eq_of_perm (separated.subset same.subset) same
  · simp only [page, if_neg all]
    -- What the two pages leave out comes behind `n` elements of one of them.
    have halves : ((left.insertionSort r).drop n ++ (right.insertionSort r).drop n ++
        ((left.insertionSort r).take n ++ (right.insertionSort r).take n)).Perm (left ++ right) := by
      refine perm_append_comm.trans ?_
      rw [append_assoc]
      refine ((perm_append_comm_assoc _ _ _).append_left _).trans ?_
      rw [← append_assoc, take_append_drop, take_append_drop]
      exact (perm_insertionSort r left).append (perm_insertionSort r right)
    rw [← sort_eq_of_perm (separated.subset halves.subset) halves]
    refine (take_sort_append fun bound member => ?_).symm
    rw [before_append]
    obtain dropped | dropped := mem_append.mp member
    · have many := le_before_of_mem_drop (separated.subset (subset_append_left _ _)) distinct.of_append_left dropped
      omega
    · have many := le_before_of_mem_drop (separated.subset (subset_append_right _ _)) distinct.of_append_right dropped
      omega

section Predicates

variable {list : List α} {p q : α → Bool} {n : Nat}

def agreed (p q : α → Bool) (list : List α) : List α := list.filter fun a => p a && q a

theorem agreed_comm (p q : α → Bool) (list : List α) : agreed p q list = agreed q p list := by
  simp only [agreed, Bool.and_comm]

theorem filter_perm_agreed (p q : α → Bool) (list : List α) :
    (list.filter p).Perm ((list.filter fun a => p a && !q a) ++ agreed p q list) := by
  have parts := filter_append_perm q (list.filter p)
  rw [filter_filter, filter_filter] at parts
  refine parts.symm.trans (perm_append_comm.trans ?_)
  simp only [agreed, Bool.and_comm]
  exact List.Perm.refl _

theorem exists_least (some : list ≠ []) : ∃ a ∈ list, ∀ b ∈ list, r a b := by
  have whole := perm_insertionSort r list
  have sorted := pairwise_insertionSort r list
  cases first : list.insertionSort r with
  | nil => exact absurd (nil_perm.mp (first ▸ whole)) some
  | cons a rest =>
    rw [first] at whole sorted
    refine ⟨a, whole.mem_iff.mp (.head _), fun b member => ?_⟩
    obtain rfl | later := mem_cons.mp (whole.mem_iff.mpr member)
    · exact refl_of r b
    · exact (pairwise_cons.mp sorted).1 b later

theorem le_before_agreed (many : ∀ a ∈ list, p a ≠ q a → n ≤ before r a (list.filter q)) (member : bound ∈ list)
    (disputed : p bound ≠ q bound) : n ≤ before r bound (agreed q p list) := by
  have parts : ∀ a, before r a (list.filter q) = before r a (list.filter fun a => q a && !p a) + before r a (agreed q p list) :=
    fun a => (before_perm (filter_perm_agreed q p list)).trans before_append
  by_cases none : (list.filter fun a => q a && !p a) = []
  · have enough := many bound member disputed
    rw [parts, none] at enough
    simpa [before] using enough
  · -- The least element that only `q` accepts has no such element before it.
    obtain ⟨least, extra, below⟩ := exists_least (r := r) none
    have own := mem_filter.mp extra
    have differs : p least ≠ q least := by
      intro same
      simp [same] at own
    have enough := many least own.1 differs
    rw [parts, before_eq_zero below, Nat.zero_add] at enough
    obtain later | earlier := Std.Total.total (r := r) least bound
    · exact enough.trans (before_mono later _)
    · have ahead := many bound member disputed
      rw [parts, before_eq_zero fun other here => IsTrans.trans _ _ _ earlier (below other here), Nat.zero_add] at ahead
      exact ahead

section

variable (separated : Separated r list)
include separated

theorem page_filter_eq_agreed (positive : n ≠ 0)
    (many : ∀ a ∈ list, p a = true → q a = false → n ≤ before r a (agreed p q list)) :
    page r n (list.filter p) = page r n (agreed p q list) := by
  rw [page_eq_of_perm (separated.subset (filter_subset_self _)) (filter_perm_agreed p q list)]
  simp only [page, if_neg positive]
  refine take_sort_append fun a member => ?_
  obtain ⟨listed, both⟩ := mem_filter.mp member
  rw [Bool.and_eq_true, Bool.not_eq_true'] at both
  exact many a listed both.1 both.2

theorem le_before_of_page_eq (positive : n ≠ 0) (same : page r n (list.filter p) = page r n (list.filter q))
    {a : α} (member : a ∈ list) (accepted : p a = true)
    (refused : q a = false) : n ≤ before r a (page r n (list.filter q)) := by
  rw [← same]
  simp only [page, if_neg positive] at same ⊢
  refine le_before_take (separated.subset (filter_subset_self _)) (mem_filter.mpr ⟨member, accepted⟩) fun taken => ?_
  rw [same] at taken
  have listed := (mem_insertionSort r).mp (mem_of_mem_take taken)
  exact Bool.false_ne_true (refused.symm.trans (mem_filter.mp listed).2)

theorem page_eq_iff_mem (distinct : list.Nodup) :
    page r n (list.filter p) = page r n (list.filter q) ↔
      ∀ a, a ∈ page r n (list.filter p) ↔ a ∈ page r n (list.filter q) := by
  refine ⟨fun same a => by rw [same], fun members => ?_⟩
  have sorted (p : α → Bool) :
      (page r n (list.filter p)).Pairwise r ∧ (page r n (list.filter p)).Nodup := by
    have whole := pairwise_insertionSort r (list.filter p)
    have nodup := (perm_insertionSort r (list.filter p)).nodup_iff.mpr (distinct.filter p)
    rw [page]
    split
    · exact ⟨whole, nodup⟩
    · exact ⟨whole.sublist (take_sublist _ _), nodup.sublist (take_sublist _ _)⟩
  have listed {p : α → Bool} {a : α} (member : a ∈ page r n (list.filter p)) : a ∈ list :=
    mem_of_mem_filter (mem_of_mem_page member)
  refine List.Perm.eq_of_pairwise (fun a b here there => separated a (listed here) b (listed there))
    (sorted p).1 (sorted q).1 ?_
  exact (perm_ext_iff_of_nodup (sorted p).2 (sorted q).2).mpr members

theorem page_filter_eq_iff :
    page r n (list.filter p) = page r n (list.filter q) ↔ ∀ a ∈ list, p a ≠ q a → n ≠ 0 ∧ n ≤ before r a (list.filter q) := by
  refine ⟨fun same a member disputed => ?_, fun many => ?_⟩
  · have positive : n ≠ 0 := by
      rintro rfl
      simp only [page, if_true] at same
      have members : a ∈ list.filter p ↔ a ∈ list.filter q := by
        rw [← mem_insertionSort r, same, mem_insertionSort]
      rw [mem_filter, mem_filter, and_iff_right member, and_iff_right member] at members
      exact disputed (Bool.eq_iff_iff.mpr members)
    refine ⟨positive, ?_⟩
    have prefix' : before r a (page r n (list.filter q)) ≤ before r a (list.filter q) := by
      rw [page, if_neg positive, ← before_perm (perm_insertionSort r (list.filter q))]
      exact (take_sublist _ _).countP_le
    refine Nat.le_trans ?_ prefix'
    cases accepted : p a with
    | true =>
      have refused : q a = false := by simpa [accepted] using disputed
      exact le_before_of_page_eq separated positive same member accepted refused
    | false =>
      have intended : q a = true := by simpa [accepted] using disputed
      rw [← same]
      exact le_before_of_page_eq separated positive same.symm member intended accepted
  · by_cases positive : n = 0
    · have agree : list.filter p = list.filter q := by
        refine filter_congr fun a member => ?_
        by_contra differs
        exact (many a member differs).1 positive
      rw [agree]
    · have enough : ∀ a ∈ list, p a ≠ q a → n ≤ before r a (agreed q p list) := fun a member disputed =>
        le_before_agreed (fun b listed differs => (many b listed differs).2) member disputed
      rw [page_filter_eq_agreed separated positive, page_filter_eq_agreed separated positive, agreed_comm]
      · intro a member intended refused
        exact enough a member (by simp [intended, refused])
      · intro a member accepted refused
        rw [agreed_comm]
        exact enough a member (by simp [accepted, refused])

end

end Predicates

section Walking

/-- Fetching after the last element of each fetch until a fetch is empty. -/
def walk (fetch : Option α → List α) : Nat → Option α → Option (List α)
  | 0, _ => none
  | fuel + 1, last =>
    match (fetch last).getLast? with
    | none => some []
    | some next => (walk fetch fuel (some next)).map (fetch last ++ ·)

theorem walk_rest {fetch : Option α → List α} {sorted : List α} (positive : n ≠ 0)
    (resumes : ∀ earlier last rest, sorted = earlier ++ last :: rest →
      fetch (some last) = rest.take n) {fuel : Nat} {last : Option α}
    {earlier rest : List α} (split : sorted = earlier ++ rest) (fetched : fetch last = rest.take n)
    (enough : rest.length < fuel) : walk fetch fuel last = some rest := by
  induction fuel generalizing last earlier rest with
  | zero => omega
  | succ fuel ih =>
    rw [walk, fetched]
    rcases eq_nil_or_concat (rest.take n) with empty | ⟨init, next, ends⟩
    · have done : rest = [] := by simpa [positive] using empty
      simp [done]
    · have parts : rest = init ++ next :: rest.drop n := by
        rw [append_cons, ← concat_eq_append, ← ends, take_append_drop]
      have left : sorted = (earlier ++ init) ++ next :: rest.drop n := by rw [append_assoc, ← parts, split]
      have shorter : (rest.drop n).length < fuel := by
        have := congrArg length parts
        simp at this ⊢
        omega
      rw [ends, concat_eq_append, getLast?_concat]
      simp only [ih (left.trans (append_cons ..)) (resumes _ _ _ left) shorter, Option.map_some]
      rw [← append_cons, ← parts]

/-- Pages of what the order puts behind the last element return the sorted list. -/
theorem walk_pages (separated : Separated r list) (distinct : list.Nodup) (positive : n ≠ 0)
    {accepts : Option α → α → Bool} (start : ∀ row, accepts none row = true)
    (after : ∀ last row, accepts (some last) row = true ↔ ¬ r row last) :
    walk (fun last => page r n (list.filter (accepts last))) (list.length + 1) none = some (list.insertionSort r) := by
  have same := perm_insertionSort r list
  have fetched (last : Option α) : page r n (list.filter (accepts last)) =
    ((list.insertionSort r).filter (accepts last)).take n := by
    rw [page, if_neg positive, filter_sort separated]
  refine walk_rest positive (fun earlier last rest split => ?_) (nil_append _).symm ?_ ?_
  · have sorted := pairwise_insertionSort r list
    have once := same.nodup_iff.mpr distinct
    rw [fetched]
    rw [split] at sorted once ⊢
    have before : earlier.filter (accepts (some last)) = [] := by
      refine filter_eq_nil_iff.mpr fun row member => ?_
      simp [after, (pairwise_append.mp sorted).2.2 row member last (.head _)]
    have behind : rest.filter (accepts (some last)) = rest := by
      refine filter_eq_self.mpr fun row member => (after last row).mpr fun back => ?_
      have forth := rel_of_pairwise_cons (pairwise_append.mp sorted).2.1 member
      have here (a : α) (inside : a ∈ last :: rest) : a ∈ list := same.mem_iff.mp (split ▸ mem_append_right _ inside)
      have one := separated last (here _ (.head _)) row (here _ (.tail _ member)) forth back
      exact (nodup_cons.mp (nodup_append.mp once).2.1).1 (one ▸ member)
    have itself : accepts (some last) last ≠ true := by simp [after, refl_of r last]
    rw [filter_append, before, filter_cons_of_neg itself, behind, nil_append]
  · rw [fetched, filter_eq_self.mpr fun row _ => start row]
  · simp [same.length_eq]

end Walking

end SortedPages
