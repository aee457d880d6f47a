import Mathlib

/-! `mergeIssuesConflictRow` settles a row that both sides of a merge have changed, one column at a
time against the merge base, and `resolveIssuesFieldMerge` writes the outcome over our row. What it
prints, and the checks that the row has not gone meanwhile, are left out. -/

namespace Beads

/-- A scanned cell. The cells of one column have one type, so their renderings
agree exactly when they do. -/
inductive ConflictCell where
  | null
  | text (value : String)
  | number (value : Int)
  | time (seconds : Int)
  deriving DecidableEq, Repr

abbrev Column := String

inductive ConflictSide where
  | base
  | our
  | their
  deriving DecidableEq, Repr

def issuesKeyColumn : Column := "id"

/-- A row of `dolt_conflicts_issues` without its metadata columns. The conflict table is built from
the merged schema, so the three sides share their columns; a side without the row is NULL in all of
them. -/
structure ConflictRow where
  columns : List Column
  base : Column → ConflictCell
  our : Column → ConflictCell
  their : Column → ConflictCell
  distinct : columns.Nodup := by decide
  hasUpdatedAt : "updated_at" ∈ columns := by decide
  sameKey : our issuesKeyColumn ≠ .null → their issuesKeyColumn ≠ .null →
    our issuesKeyColumn = their issuesKeyColumn := by decide
  ourDated : our "updated_at" = .null ∨ ∃ seconds, our "updated_at" = .time seconds
  theirDated : their "updated_at" = .null ∨ ∃ seconds, their "updated_at" = .time seconds

namespace ConflictRow

variable (row : ConflictRow)

def side : ConflictSide → Column → ConflictCell
  | .base => row.base
  | .our => row.our
  | .their => row.their

variable (side : ConflictSide)

def value (col : Column) : Option ConflictCell := if col ∈ row.columns then some (row.side side col) else none

def mustValue (col : Column) : ConflictCell := (row.value side col).getD .null

def dataColumns (exclude : List Column) : List Column := row.columns.filter fun col => !exclude.contains col

def sidePresent : Bool := (row.value side issuesKeyColumn).any (· != .null)

def sidesPresent : Bool := row.sidePresent .base && row.sidePresent .our && row.sidePresent .their

end ConflictRow

/-- The text form is only met on connections that do not parse times; `parseText` stands for the
layouts it is read by. -/
def parseConflictTimestamp (parseText : String → Option Int) : ConflictCell → Option Int
  | .null => none
  | .text value => parseText value
  | .number value => parseText (toString value)
  | .time seconds => some seconds

def issuesCloseGroup : List Column := ["status", "closed_at", "close_reason", "closed_by_session"]

def issuesNonScalarColumns : List Column := ["notes", "metadata"]

inductive CellVerdict where
  | agree
  | oursOnly
  | theirsOnly
  | contested
  deriving DecidableEq, Repr

namespace ConflictRow

variable (row : ConflictRow)

def classifyCell (col : Column) : Option (CellVerdict × ConflictCell) := do
  let ourVal ← row.value .our col
  let theirVal ← row.value .their col
  if ourVal = theirVal then return (.agree, theirVal)
  let baseVal ← row.value .base col
  return (if theirVal = baseVal then .oursOnly else if ourVal = baseVal then .theirsOnly else .contested, theirVal)

def verdict (col : Column) : CellVerdict := ((row.classifyCell col).map Prod.fst).getD .agree

def mergedColumns : List Column := row.dataColumns [issuesKeyColumn, "row_lock"]

def closeGroupContested : Bool := issuesCloseGroup.any fun col => row.verdict col == .contested

variable (parseText : String → Option Int)

def updated (side : ConflictSide) : Option Int :=
  parseConflictTimestamp parseText (row.mustValue side "updated_at")

def lwwUsable : Bool :=
  match row.updated parseText .our, row.updated parseText .their with
  | some our, some their => our != their
  | _, _ => false

def theirsWinLWW : Bool :=
  match row.updated parseText .our, row.updated parseText .their with
  | some our, some their => our < their
  | _, _ => false

end ConflictRow

/-- The columns to write over our row, and those settled by timestamp. -/
structure IssuesRowMerge where
  ourKey : ConflictCell
  columns : List (Column × ConflictCell) := []
  lww : List Column := []
  deriving DecidableEq, Repr

namespace IssuesRowMerge

variable (merge : IssuesRowMerge)

def takeTheirs (col : Column) (theirVal : ConflictCell) : IssuesRowMerge :=
  { merge with columns := merge.columns ++ [(col, theirVal)] }

def setColumn (col : Column) (val : ConflictCell) : IssuesRowMerge :=
  { merge with columns :=
      if merge.columns.any (·.1 == col) then merge.columns.replaceF fun entry => if entry.1 == col then some (col, val) else none
      else merge.columns ++ [(col, val)] }

end IssuesRowMerge

namespace ConflictRow

variable (row : ConflictRow) (parseText : String → Option Int)

variable (merge : IssuesRowMerge)

/-- A cell that is settled by timestamp; without two different times the whole row is left to the
operator. -/
def settleByTimestamp (col : Column) : Option IssuesRowMerge :=
  if !row.lwwUsable parseText then none
  else
    let settled := { merge with lww := merge.lww ++ [col] }
    some (if row.theirsWinLWW parseText then settled.takeTheirs col (row.their col) else settled)

def mergeColumn (col : Column) : Option IssuesRowMerge :=
  match row.verdict col with
  | .agree => some merge
  | verdict =>
    if row.closeGroupContested && issuesCloseGroup.contains col then row.settleByTimestamp parseText merge col
    else match verdict with
      | .theirsOnly => some (merge.takeTheirs col (row.their col))
      | .contested => row.settleByTimestamp parseText merge col
      | _ => some merge

def mergedUpdatedAt : ConflictCell :=
  match row.updated parseText .our, row.updated parseText .their with
  | some our, some their => if our < their then row.mustValue .their "updated_at" else row.mustValue .our "updated_at"
  | none, some _ => row.mustValue .their "updated_at"
  | _, none => row.mustValue .our "updated_at"

/-- `updated_at` is written along with anything else, and the row gets a token of its own. -/
def stamp (token : ConflictCell) (merge : IssuesRowMerge) : IssuesRowMerge :=
  if merge.columns.isEmpty then merge
  else
    let stamped := merge.setColumn "updated_at" (row.mergedUpdatedAt parseText)
    if (row.value .our "row_lock").isSome then stamped.setColumn "row_lock" token else stamped

/-- `mergeIssuesConflictRow` with the fresh token it would draw; `none` leaves the row to the
operator. -/
def mergeIssuesConflictRow (token : ConflictCell) : Option IssuesRowMerge :=
  if !row.sidesPresent then none
  else if row.mergedColumns.any fun col => (row.classifyCell col).isNone then none
  else if row.mergedColumns.any fun col => row.verdict col == .contested && issuesNonScalarColumns.contains col then none
  else (row.mergedColumns.foldlM (row.mergeColumn parseText) { ourKey := row.mustValue .our issuesKeyColumn }).map
    (row.stamp parseText token)

def settled (col : Column) : ConflictCell := (merge.columns.lookup col).getD (row.our col)

end ConflictRow

end Beads
