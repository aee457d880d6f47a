import Mathlib

namespace Support

variable {α : Type*} [DecidableEq α]

def allKept (needs : List (α × α)) (kept : List α) (element : α) : Bool :=
  needs.all fun need => need.1 != element || kept.contains need.2

def dropOne (needs : List (α × α)) (kept : List α) (element : α) : List α :=
  if kept.contains element && !allKept needs kept element then kept.filter (· != element) else kept

def dropPass (needs : List (α × α)) (kept : List α) : List α :=
  kept.foldl (dropOne needs) kept

def dropLoop (needs : List (α × α)) : Nat → List α → List α
  | 0, kept => kept
  | fuel + 1, kept =>
    let next := dropPass needs kept
    if next.length = kept.length then next else dropLoop needs fuel next

/-- The loop when pass `n` over `kept` meets the elements in the order `order n kept`. -/
def dropLoopIn (needs : List (α × α)) (order : Nat → List α → List α) : Nat → Nat → List α → List α
  | 0, _, kept => kept
  | fuel + 1, pass, kept =>
    let next := (order pass kept).foldl (dropOne needs) kept
    if next.length = kept.length then next else dropLoopIn needs order fuel (pass + 1) next

def drop (needs : List (α × α)) (kept : List α) : List α :=
  dropLoop needs (kept.length + 1) kept

def Closed (needs : List (α × α)) (part : Set α) : Prop :=
  ∀ need ∈ needs, need.1 ∈ part → need.2 ∈ part

variable {needs : List (α × α)} {kept order : List α} {element : α} {part : Set α}

open List

theorem allKept_iff : allKept needs kept element = true ↔
    ∀ need ∈ needs, need.1 = element → need.2 ∈ kept := by
  simp only [allKept, all_eq_true, Bool.or_eq_true, bne_iff_ne, contains_iff_mem]
  exact forall₂_congr fun need _ => by tauto

theorem dropOne_sublist : (dropOne needs kept element).Sublist kept := by
  unfold dropOne
  split
  · exact filter_sublist
  · exact List.Sublist.refl kept

theorem dropFold_sublist : (order.foldl (dropOne needs) kept).Sublist kept :=
  foldlRecOn order _ (motive := (List.Sublist · kept)) (.refl kept) fun _ within _ _ => dropOne_sublist.trans within

theorem dropOne_keeps (closed : Closed needs part) (within : ∀ x ∈ part, x ∈ kept) :
    ∀ x ∈ part, x ∈ dropOne needs kept element := by
  intro x member
  unfold dropOne
  split
  · rename_i dropped
    simp only [Bool.and_eq_true, Bool.not_eq_true'] at dropped
    refine mem_filter.mpr ⟨within x member, ?_⟩
    rw [bne_iff_ne]
    rintro rfl
    have supported : allKept needs kept x = true := by
      refine allKept_iff.mpr fun need listed same => within _ (closed need listed ?_)
      rw [same]
      exact member
    rw [supported] at dropped
    exact absurd dropped.2 (by decide)
  · exact within x member

theorem dropFold_keeps (closed : Closed needs part) (within : ∀ x ∈ part, x ∈ kept) :
    ∀ x ∈ part, x ∈ order.foldl (dropOne needs) kept :=
  foldlRecOn order _ (motive := fun kept => ∀ x ∈ part, x ∈ kept) within fun _ within _ _ => dropOne_keeps closed within

theorem dropOne_supported (same : dropOne needs kept element = kept) (member : element ∈ kept) :
    allKept needs kept element = true := by
  by_contra unsupported
  have dropped : dropOne needs kept element = kept.filter (· != element) := by
    simp [dropOne, member, unsupported]
  rw [dropped] at same
  have still := mem_filter.mp (same.symm ▸ member : element ∈ kept.filter (· != element))
  simp at still

theorem dropFold_supported (same : (order.foldl (dropOne needs) kept).length = kept.length) :
    ∀ x ∈ order, x ∈ kept → allKept needs kept x = true := by
  induction order generalizing kept with
  | nil => simp
  | cons element rest ih =>
    rw [foldl_cons] at same
    have first : dropOne needs kept element = kept := by
      have shorter : (dropOne needs kept element).Sublist kept := dropOne_sublist
      have tail : (rest.foldl (dropOne needs) (dropOne needs kept element)).Sublist
          (dropOne needs kept element) := dropFold_sublist
      exact shorter.eq_of_length (Nat.le_antisymm shorter.length_le (same ▸ tail.length_le))
    rw [first] at same
    exact forall_mem_cons.mpr ⟨fun present => dropOne_supported first present, ih same⟩

section Loop

variable {order : Nat → List α → List α} {fuel pass : Nat}

theorem dropLoopIn_keeps (closed : Closed needs part) (within : ∀ x ∈ part, x ∈ kept) :
    ∀ x ∈ part, x ∈ dropLoopIn needs order fuel pass kept := by
  induction fuel generalizing kept pass with
  | zero => exact within
  | succ fuel ih =>
    rw [dropLoopIn]
    split
    · exact dropFold_keeps closed within
    · exact ih (dropFold_keeps closed within)

theorem dropLoopIn_closed (covers : ∀ pass kept, kept ⊆ order pass kept) (enough : kept.length < fuel) :
    Closed needs {x | x ∈ dropLoopIn needs order fuel pass kept} := by
  induction fuel generalizing kept pass with
  | zero => exact absurd enough (Nat.not_lt_zero _)
  | succ fuel ih =>
    rw [dropLoopIn]
    split
    · rename_i same
      rw [dropFold_sublist.eq_of_length same]
      intro need listed member
      exact allKept_iff.mp (dropFold_supported same need.1 (covers pass kept member) member) need listed rfl
    · rename_i changed
      have shrinks : ((order pass kept).foldl (dropOne needs) kept).length ≤ kept.length := dropFold_sublist.length_le
      exact ih (by omega)

theorem dropLoopIn_subset : dropLoopIn needs order fuel pass kept ⊆ kept := by
  induction fuel generalizing kept pass with
  | zero => exact List.Subset.refl kept
  | succ fuel ih =>
    rw [dropLoopIn]
    split
    · exact dropFold_sublist.subset
    · exact fun x member => dropFold_sublist.subset (ih member)

/-- Whatever the order, the loop ends with the largest part that keeps what its elements need. -/
theorem mem_dropLoopIn (covers : ∀ pass kept, kept ⊆ order pass kept)
    (enough : kept.length < fuel) : element ∈ dropLoopIn needs order fuel pass kept ↔
      ∃ part : Set α, (∀ x ∈ part, x ∈ kept) ∧ Closed needs part ∧ element ∈ part := by
  constructor
  · intro member
    exact ⟨{x | x ∈ dropLoopIn needs order fuel pass kept}, fun x inside =>
      dropLoopIn_subset inside, dropLoopIn_closed covers enough, member⟩
  · intro ⟨part, within, closed, member⟩
    exact dropLoopIn_keeps closed within element member

theorem dropLoop_eq : dropLoop needs fuel kept = dropLoopIn needs (fun _ kept => kept) fuel pass kept := by
  induction fuel generalizing kept pass with
  | zero => rfl
  | succ fuel ih =>
    rw [dropLoop, dropLoopIn, @ih _ (pass + 1)]
    rfl

end Loop

theorem mem_drop : element ∈ drop needs kept ↔
    ∃ part : Set α, (∀ x ∈ part, x ∈ kept) ∧ Closed needs part ∧ element ∈ part := by
  rw [drop, @dropLoop_eq _ _ _ _ _ 0]
  exact mem_dropLoopIn (fun _ _ => List.Subset.refl _) (Nat.lt_succ_self _)

end Support
