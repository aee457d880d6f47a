import Beads.Data.SortedPages

namespace Beads

open SortedPages

variable {Time : Type} [LinearOrder Time]

structure KeysetRow (Time : Type) where
  id : String
  createdAt : Time
  priority : Int

/-- The position members of `IssueFilter`. -/
structure KeysetFilter (Time : Type) where
  afterCreatedAt : Option Time := none
  afterPriority : Option Int := none
  afterId : String := ""

def keysetCreatedAtIdPredicate (createdAt : Time) (id : String) (row : KeysetRow Time) : Bool :=
  row.createdAt ≤ createdAt && (row.createdAt < createdAt || id < row.id)

def keysetPriorityCreatedAtIdPredicate (priority : Int) (createdAt : Time) (id : String) (row : KeysetRow Time) : Bool :=
  priority ≤ row.priority && (priority < row.priority || keysetCreatedAtIdPredicate createdAt id row)

/-- The position clause of `BuildIssueFilterClauses`. -/
def KeysetFilter.clause (filter : KeysetFilter Time) (row : KeysetRow Time) : Bool :=
  match filter.afterCreatedAt with
  | none => true
  | some createdAt =>
    match filter.afterPriority with
    | some priority => keysetPriorityCreatedAtIdPredicate priority createdAt filter.afterId row
    | none => keysetCreatedAtIdPredicate createdAt filter.afterId row

/-- The columns of `ORDER BY created_at DESC, id ASC`, after `priority ASC` in a priority walk. -/
def orderKey (byPriority : Bool) (row : KeysetRow Time) : Int ×ₗ Timeᵒᵈ ×ₗ String :=
  toLex (if byPriority then row.priority else 0, toLex (OrderDual.toDual row.createdAt, row.id))

def KeysetOrder (byPriority : Bool) (a b : KeysetRow Time) : Prop :=
  orderKey byPriority a ≤ orderKey byPriority b

instance (byPriority : Bool) : DecidableRel (KeysetOrder byPriority : KeysetRow Time → KeysetRow Time → Prop) :=
  fun a b => inferInstanceAs (Decidable (orderKey byPriority a ≤ orderKey byPriority b))

/-- The filter of the page after a row, or of the first page. -/
def keysetAfter (byPriority : Bool) : Option (KeysetRow Time) → KeysetFilter Time
  | none => {}
  | some row => ⟨some row.createdAt, if byPriority then some row.priority else none, row.id⟩

def keysetPage (byPriority : Bool) (n : Nat) (table : List (KeysetRow Time))
    (last : Option (KeysetRow Time)) : List (KeysetRow Time) :=
  page (KeysetOrder byPriority) n (table.filter (keysetAfter byPriority last).clause)

/-- The leading bound of the predicates is redundant. -/
theorem le_and_lt_or {β : Type} [LinearOrder β] {a b : β} {rest : Prop} : a ≤ b ∧ (a < b ∨ rest) ↔ a < b ∨ a = b ∧ rest := by
  rcases lt_trichotomy a b with less | same | greater
  · simp [less, less.le]
  · simp [same]
  · simp [greater.not_ge, greater.not_gt, greater.ne']

theorem clause_keysetAfter {byPriority : Bool} (last row : KeysetRow Time) :
    (keysetAfter byPriority (some last)).clause row = true ↔ orderKey byPriority last < orderKey byPriority row := by
  have created : keysetCreatedAtIdPredicate last.createdAt last.id row = true ↔
      row.createdAt < last.createdAt ∨ last.createdAt = row.createdAt ∧ last.id < row.id := by
    simp [keysetCreatedAtIdPredicate, le_and_lt_or, eq_comm (a := row.createdAt)]
  cases byPriority
  · simp [keysetAfter, KeysetFilter.clause, created, orderKey, Prod.Lex.toLex_lt_toLex]
  · simp [keysetAfter, KeysetFilter.clause, keysetPriorityCreatedAtIdPredicate, le_and_lt_or,
      created, orderKey, Prod.Lex.toLex_lt_toLex]

instance (byPriority : Bool) : Std.Total (KeysetOrder byPriority : KeysetRow Time → KeysetRow Time → Prop) :=
  ⟨fun a b => le_total (orderKey byPriority a) (orderKey byPriority b)⟩

instance (byPriority : Bool) : IsTrans (KeysetRow Time) (KeysetOrder byPriority) :=
  ⟨fun _ _ _ => le_trans⟩

/-- Following the last row of each page returns the table in order and stops. -/
theorem keyset_walk (byPriority : Bool) {n : Nat} (positive : 1 ≤ n) {table : List (KeysetRow Time)}
    (distinct : (table.map KeysetRow.id).Nodup) :
    walk (keysetPage byPriority n table) (table.length + 1) none = some (table.insertionSort (KeysetOrder byPriority)) := by
  have separated : Separated (KeysetOrder byPriority) table := by
    intro a here b there first second
    have same : a.id = b.id := congrArg (fun key => (ofLex (ofLex key).2).2) (le_antisymm first second)
    exact List.inj_on_of_nodup_map distinct here there same
  exact walk_pages separated (List.Nodup.of_map _ distinct) (by omega) (fun _ => rfl)
    fun last row => (clause_keysetAfter last row).trans not_le.symm

theorem keyset_walk_ties : walk (keysetPage true 1 [⟨"a", (5 : Int), 1⟩, ⟨"b", 5, 1⟩, ⟨"c", 5, 0⟩]) 4 none =
    some ([⟨"a", 5, 1⟩, ⟨"b", 5, 1⟩, ⟨"c", 5, 0⟩].insertionSort (KeysetOrder true)) :=
  keyset_walk true (by decide) (by decide)

end Beads
