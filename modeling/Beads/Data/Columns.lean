import Mathlib

namespace Columns

variable {κ : Type} [DecidableEq κ] {ν : κ → Type}

def overlay (columns : List κ) (incoming stored : (column : κ) → ν column) (column : κ) : ν column :=
  if column ∈ columns then incoming column else stored column

/-- Each column is assigned in turn, if the row of that moment passes the guard. -/
def assign (guard : ((column : κ) → ν column) → Bool) (incoming : (column : κ) → ν column) :
    List κ → ((column : κ) → ν column) → (column : κ) → ν column
  | [], row => row
  | column :: rest, row => assign guard incoming rest (if guard row then Function.update row column (incoming column) else row)

variable {guard : ((column : κ) → ν column) → Bool} {incoming stored : (column : κ) → ν column} {columns : List κ} {column : κ}

theorem overlay_of_mem (listed : column ∈ columns) : overlay columns incoming stored column = incoming column :=
  if_pos listed

theorem overlay_of_not_mem (unlisted : column ∉ columns) : overlay columns incoming stored column = stored column :=
  if_neg unlisted

theorem overlay_cons :
    overlay columns incoming (Function.update stored column (incoming column)) = overlay (column :: columns) incoming stored := by
  funext other
  unfold overlay
  by_cases same : other = column
  · subst same
    simp
  · simp [same]

theorem assign_of_not (refused : guard stored = false) : assign guard incoming columns stored = stored := by
  induction columns with
  | nil => rfl
  | cons column rest ih =>
    rw [assign, refused]
    exact ih

theorem assign_of_guard (passed : guard stored = true)
    (kept : ∀ row, ∀ column ∈ columns.dropLast, guard (Function.update row column (incoming column)) = guard row) :
    assign guard incoming columns stored = overlay columns incoming stored := by
  induction columns generalizing stored with
  | nil =>
    funext other
    exact (overlay_of_not_mem List.not_mem_nil).symm
  | cons column rest ih =>
    rw [assign, if_pos passed, ← overlay_cons]
    cases rest with
    | nil =>
      funext other
      exact (overlay_of_not_mem List.not_mem_nil).symm
    | cons next others =>
      have unchanged := kept stored column (.head _)
      refine ih (unchanged.trans passed) fun row later listed => kept row later ?_
      exact List.mem_cons_of_mem _ listed

end Columns
