import Beads.Data.Interruption
import Beads.Merge.Fields
import Beads.Store.Types

/-! Two drivers run a Dolt merge on a session that lets conflicts and constraint violations land in
the working set. `MergeAndSettleWithStrategy` resolves the conflicts of the tables it knows, or all
of them with the operator's strategy; `MergeWithStrategy` always applies the strategy. Both repair
the foreign keys to `issues`, conclude the merge with a commit, and abort it when something is left
to the operator. Every statement may fail; what was done before it stays. -/

namespace Beads

open Interruption

abbrev TableName := String

/-- A row of a conflict table other than `dolt_conflicts_issues`. A side without the row is NULL in
all columns. -/
structure RawConflictRow where
  columns : List Column
  our : Column → ConflictCell
  their : Column → ConflictCell

inductive ConflictRecord where
  | issue (row : ConflictRow)
  | raw (row : RawConflictRow)

namespace ConflictRecord

def columns : ConflictRecord → List Column
  | issue row => row.columns
  | raw row => row.columns

def our : ConflictRecord → Column → ConflictCell
  | issue row, col => row.mustValue .our col
  | raw row, col => if col ∈ row.columns then row.our col else .null

def their : ConflictRecord → Column → ConflictCell
  | issue row, col => row.mustValue .their col
  | raw row, col => if col ∈ row.columns then row.their col else .null

def ourKey (record : ConflictRecord) (keyCols : List Column) : List ConflictCell :=
  keyCols.map record.our

end ConflictRecord

structure TableConflicts where
  table : TableName
  rows : List ConflictRecord
  live : rows ≠ []

/-- A row of `dolt_constraint_violations_<table>`; a descriptor of another shape names no table. -/
structure Violation where
  type : String
  referencedTable : Option TableName
  deriving DecidableEq, Repr

structure TableViolations where
  table : TableName
  violations : List Violation

/-- A row of a table with foreign keys to `issues`, with the issues it names. -/
structure ChildRow where
  key : String
  references : List Id
  deriving DecidableEq, Repr

/-- The tables of a commit or a working set; `content` stands for the columns and tables that no
foreign key is about. -/
structure DoltRoot (γ : Type) where
  issues : List Id
  children : TableName → List ChildRow
  content : γ

/-- While a merge is open, `merging` is what its abort restores. -/
structure WorkingSet (γ : Type) where
  root : DoltRoot γ
  conflicts : List TableConflicts
  violations : List TableViolations
  merging : Option (DoltRoot γ)

structure DoltState (γ : Type) where
  head : DoltRoot γ
  working : WorkingSet γ

/-- The statements that a driver issues next to the merge, the abort and the reset, by the place
they are issued at. -/
inductive DoltStatement where
  | status
  | allowConflicts
  | forceCommit
  | conflicts
  | conflictRows (table : TableName)
  | vintageRows
  | backfill (version : ConflictCell)
  | writeMerged (key : ConflictCell)
  | clearRow (table : TableName) (key : List ConflictCell)
  | resolve (table : TableName)
  | stage (table : TableName)
  | listConflicts
  | resolveWith (table : TableName)
  | stageResolved (table : TableName)
  | violations
  | violationRows (table : TableName)
  | cascade (table : TableName)
  | clearViolations (table : TableName)
  | stageRepaired (table : TableName)
  | remaining
  | pending
  | stageDirty (table : TableName)
  | staged
  | commit
  deriving DecidableEq, Repr

inductive SettleError where
  | statement (failed : DoltStatement)
  | merge (err : String)
  | conflicts (tables : List TableName) (mergeErr : Option String)
  | invalidStrategy (strategy : String)
  | invalidTable (table : TableName)
  | notCleared (table : TableName) (key : List ConflictCell)
  | unrepairable
  deriving DecidableEq, Repr

abbrev DoltM (γ : Type) := EStateM SettleError (DoltState γ)

/-- What Dolt does to the rows, and what it draws and reads on the side. -/
structure DoltEngine (γ : Type) where
  /-- `DOLT_CONFLICTS_RESOLVE`, with theirs or ours. -/
  resolve : (theirs : Bool) → (table : TableName) → List TableConflicts → DoltRoot γ → DoltRoot γ
  /-- `UPDATE schema_migrations SET content_hash = ? WHERE version = ?`. -/
  backfill : (version hash : ConflictCell) → DoltRoot γ → DoltRoot γ
  /-- `UPDATE issues SET … WHERE id = ?`. -/
  writeMerged : IssuesRowMerge → DoltRoot γ → DoltRoot γ
  parseText : String → Option Int
  freshRowLock : ConflictRow → ConflictCell
  hasPendingChanges : DoltState γ → Bool
  hasStagedChanges : DoltState γ → Bool

section

variable {γ : Type} (fails : DoltStatement → Bool)

def ask {α : Type} (statement : DoltStatement) (answer : DoltState γ → α) : DoltM γ α := fun s =>
  if fails statement then .error (.statement statement) s else .ok (answer s) s

def exec (statement : DoltStatement) (effect : WorkingSet γ → WorkingSet γ) : DoltM γ Unit := fun s =>
  if fails statement then .error (.statement statement) s else .ok () { s with working := effect s.working }

def commit : DoltM γ Unit := fun s =>
  if fails .commit || !s.working.violations.isEmpty then .error (.statement .commit) s
  else .ok () ⟨s.working.root, { s.working with merging := none }⟩

/-- `DOLT_MERGE('--abort')`, and on its failure the hard reset if the working set is known to have
been clean. -/
def abortMerge (preMergeClean : Bool) : DoltM γ Unit := fun s =>
  match s.working.merging with
  | some root => .ok () { s with working := ⟨root, [], [], none⟩ }
  | none => .ok () (if preMergeClean then { s with working := ⟨s.head, [], [], none⟩ } else s)

def workingSetClean : Bool := !fails .status

end

def TableConflicts.without (entry : TableConflicts) (settled : ConflictRecord → Bool) : Option TableConflicts :=
  if live : entry.rows.filter (fun row => !settled row) ≠ [] then some ⟨entry.table, _, live⟩ else none

def clearConflicts (table : TableName) (settled : ConflictRecord → Bool)
    (conflicts : List TableConflicts) : List TableConflicts :=
  conflicts.filterMap fun entry => if entry.table = table then entry.without settled else some entry

def ConflictCell.string : ConflictCell → String
  | text value => value
  | _ => ""

/-- `COALESCE(depends_on_issue_id, depends_on_wisp_id, depends_on_external)`. -/
def resolveConflictDepTarget (side : Column → ConflictCell) : Option ConflictCell :=
  ([side "depends_on_issue_id", side "depends_on_wisp_id", side "depends_on_external"].filter (· != .null)).head?

def dependencyConflictsAreAuditOnly (rows : List ConflictRecord) : Bool :=
  rows.all fun row =>
    row.our "id" != .null && row.their "id" != .null && row.our "issue_id" == row.their "issue_id" &&
    resolveConflictDepTarget row.our == resolveConflictDepTarget row.their && row.our "type" == row.their "type"

def schemaMigrationsConflictsAreVintageOnly (rows : List ConflictRecord) : Bool :=
  rows.all fun row =>
    row.our "version" != .null && row.our "version" == row.their "version" &&
    ((row.our "content_hash").string == "" || (row.their "content_hash").string == "" ||
      (row.our "content_hash").string == (row.their "content_hash").string)

def memoryConfigKeyPrefix : String := "kv.memory."

def configConflictsAreMemoryConvergent (rows : List ConflictRecord) : Bool :=
  rows.all fun row => [row.our "key", row.their "key"].all fun key =>
    key == .null || memoryConfigKeyPrefix.toList.isPrefixOf key.string.toList

/-- Rows without a complete key on our side are skipped. -/
def duplicateConflictKey (keyCols : List Column) (rows : List ConflictRecord) : Bool :=
  !decide ((rows.map fun row => row.ourKey keyCols).filter fun key => !key.contains .null).Nodup

def unionConflictKeyColumns (table : TableName) : List Column :=
  if table = "labels" then ["issue_id", "label"] else ["id"]

def unionRowIsSafe (keyCols : List Column) (row : ConflictRecord) : Bool :=
  keyCols.all (fun key => row.our key != .null && row.their key != .null) &&
    row.columns.all fun col => row.our col == row.their col

def unionConflictsAreSafe (table : TableName) (rows : List ConflictRecord) : Option (List (List ConflictCell)) :=
  let keyCols := unionConflictKeyColumns table
  if duplicateConflictKey keyCols rows then none
  else if rows.all (unionRowIsSafe keyCols) then some (rows.map fun row => row.ourKey keyCols) else none

variable {γ : Type} (engine : DoltEngine γ)

def mergeRecord : ConflictRecord → Option IssuesRowMerge
  | .issue row => row.mergeIssuesConflictRow engine.parseText (engine.freshRowLock row)
  | .raw _ => none

def issuesConflictsAreFieldMergeable (rows : List ConflictRecord) : Option (List IssuesRowMerge) :=
  if duplicateConflictKey [issuesKeyColumn] rows then none else rows.mapM (mergeRecord engine)

inductive Resolution where
  | theirs (table : TableName)
  | vintage (rows : List ConflictRecord)
  | fields (plan : List IssuesRowMerge)
  | union (table : TableName) (keys : List (List ConflictCell))

def Resolution.table : Resolution → TableName
  | theirs table => table
  | vintage _ => "schema_migrations"
  | fields _ => "issues"
  | union table _ => table

def screenTable (entry : TableConflicts) : Option Resolution :=
  if entry.table = "metadata" then some (.theirs "metadata")
  else if entry.table = "dependencies" then
    if dependencyConflictsAreAuditOnly entry.rows then some (.theirs "dependencies") else none
  else if entry.table = "schema_migrations" then
    if schemaMigrationsConflictsAreVintageOnly entry.rows then some (.vintage entry.rows) else none
  else if entry.table = "config" then
    if configConflictsAreMemoryConvergent entry.rows then some (.theirs "config") else none
  else if entry.table = "issues" then (issuesConflictsAreFieldMergeable engine entry.rows).map .fields
  else if entry.table = "labels" ∨ entry.table = "comments" ∨ entry.table = "events" then
    (unionConflictsAreSafe entry.table entry.rows).map (.union entry.table)
  else none

def screenedTables : List TableName :=
  ["dependencies", "schema_migrations", "config", "issues", "labels", "comments", "events"]

section

variable (fails : DoltStatement → Bool)

def screenTables : List TableConflicts → DoltM γ (Option (List Resolution))
  | [] => pure (some [])
  | entry :: rest => do
      (if screenedTables.contains entry.table then ask fails (.conflictRows entry.table) fun _ => () else pure ())
      match screenTable engine entry with
      | none => pure none
      | some resolution => do
          let more ← screenTables rest
          pure (more.map (resolution :: ·))

/-- `DELETE FROM dolt_conflicts_<table> WHERE …` on the key, which has to delete a row. -/
def clearRow (table : TableName) (keyCols : List Column) (key : List ConflictCell) : DoltM γ Unit := fun s =>
  let settled := fun row : ConflictRecord => row.ourKey keyCols == key
  if fails (.clearRow table key) then .error (.statement (.clearRow table key)) s
  else if s.working.conflicts.any fun entry => entry.table == table && entry.rows.any settled then
    .ok () { s with working := { s.working with conflicts := clearConflicts table settled s.working.conflicts } }
  else .error (.notCleared table key) s

def resolveWhole (statement : DoltStatement) (theirs : Bool) (table : TableName) : DoltM γ Unit :=
  exec fails statement fun working =>
    { working with
      root := engine.resolve theirs table working.conflicts working.root
      conflicts := clearConflicts table (fun _ => true) working.conflicts }

/-- Our row takes over a hash that only theirs recorded. -/
def backfillHash (row : ConflictRecord) : DoltM γ Unit :=
  if (row.our "content_hash").string = "" ∧ (row.their "content_hash").string ≠ "" then
    exec fails (.backfill (row.our "version")) fun working =>
      { working with root := engine.backfill (row.our "version") (row.their "content_hash") working.root }
  else pure ()

def writeMergedRow (merge : IssuesRowMerge) : DoltM γ Unit := do
  (if merge.columns.isEmpty then pure ()
    else exec fails (.writeMerged merge.ourKey) fun working => { working with root := engine.writeMerged merge working.root })
  clearRow fails "issues" [issuesKeyColumn] [merge.ourKey]

def settleTable : Resolution → DoltM γ Unit
  | .theirs table => resolveWhole engine fails (.resolve table) true table
  | .vintage rows => do
      ask fails .vintageRows fun _ => ()
      rows.forM (backfillHash engine fails)
      resolveWhole engine fails (.resolve "schema_migrations") false "schema_migrations"
  | .fields plan => plan.forM (writeMergedRow engine fails)
  | .union table keys => keys.forM (clearRow fails table (unionConflictKeyColumns table))

def resolveTable (resolution : Resolution) : DoltM γ Unit := do
  settleTable engine fails resolution
  exec fails (.stage resolution.table) id

def tryAutoResolveMergeConflicts : DoltM γ Bool := do
  let conflicts ← ask fails .conflicts (·.working.conflicts)
  if conflicts.isEmpty then pure false
  else do
    match ← screenTables engine fails conflicts with
    | none => pure false
    | some resolutions => do
        resolutions.forM (resolveTable engine fails)
        pure true

def validTableName (table : TableName) : Bool :=
  table != "" && table.utf8ByteSize ≤ 64 && table.toList.all (fun c => c.isAlphanum || c == '_') &&
    !(table.toList.head?.any Char.isDigit)

def resolveConflicts (table : TableName) (strategy : String) : DoltM γ Unit :=
  if !validTableName table then throw (.invalidTable table)
  else if strategy = "ours" then resolveWhole engine fails (.resolveWith table) false table
  else if strategy = "theirs" then resolveWhole engine fails (.resolveWith table) true table
  else throw (.invalidStrategy strategy)

/-- A conflict without a table name is one of `issues`. -/
def conflictTable (entry : TableConflicts) : TableName := if entry.table = "" then "issues" else entry.table

/-- The tables of `fkCascadeRepairDeletes`. -/
def fkCascadeTables : List TableName :=
  ["dependencies", "labels", "comments", "events", "issue_snapshots", "compaction_snapshots", "child_counters"]

def DoltRoot.dangling (root : DoltRoot γ) (row : ChildRow) : Bool := row.references.any fun id => !root.issues.contains id

def DoltRoot.cascade (root : DoltRoot γ) (table : TableName) : DoltRoot γ :=
  { root with children := fun other =>
      if other = table then (root.children other).filter (!root.dangling ·) else root.children other }

def violationsAreIssueFKOnly (violations : List Violation) : Bool :=
  violations.all fun violation => violation.type == "foreign key" && violation.referencedTable == some "issues"

def repairable (entry : TableViolations) : Bool := fkCascadeTables.contains entry.table &&
    violationsAreIssueFKOnly entry.violations

def validateViolations : List TableViolations → DoltM γ Bool
  | [] => pure true
  | entry :: rest => do
      if !fkCascadeTables.contains entry.table then pure false
      else do
        ask fails (.violationRows entry.table) fun _ => ()
        if !violationsAreIssueFKOnly entry.violations then pure false else validateViolations rest

def repairTable (entry : TableViolations) : DoltM γ Unit := do
  exec fails (.cascade entry.table) fun working => { working with root := working.root.cascade entry.table }
  exec fails (.clearViolations entry.table) fun working =>
    { working with violations := working.violations.filter fun other => other.table != entry.table }
  exec fails (.stageRepaired entry.table) id

def tryRepairFKCascadeViolations : DoltM γ (Bool × Bool) := do
  let tables ← ask fails .violations (·.working.violations)
  if tables.isEmpty then pure (false, false)
  else do
    let understood ← validateViolations fails tables
    if !understood then pure (false, true)
    else do
      tables.forM (repairTable fails)
      let remaining ← ask fails .remaining (·.working.violations)
      pure (remaining.isEmpty, true)

def refuse (preMergeClean : Bool) (error : SettleError) {α : Type} : DoltM γ α := do
  abortMerge preMergeClean
  throw error

def surfaced (mergeErr : Option String) (error : SettleError) : SettleError :=
  (mergeErr.map .merge).getD error

/-- The operator's strategy for the conflicts that the resolver left; whether there were any. A
failed listing reads as none. -/
def resolveDeclined (mergeErr : Option String) (preMergeClean : Bool) (strategy : String) : DoltM γ Bool := do
  match ← attempt (ask fails .listConflicts (·.working.conflicts)) with
  | .error _ => pure false
  | .ok conflicts =>
    if conflicts.isEmpty then pure false
    else if strategy = "" then refuse preMergeClean (.conflicts (conflicts.map TableConflicts.table) mergeErr)
    else do
      match ← attempt (conflicts.forM fun entry => do
          resolveConflicts engine fails (conflictTable entry) strategy
          exec fails (.stageResolved (conflictTable entry)) id) with
      | .error error => refuse preMergeClean error
      | .ok _ => pure true

def concludeMerge (mergeErr : Option String) (preMergeClean resolved strategyResolved : Bool) : DoltM γ Unit := do
  match ← attempt (tryRepairFKCascadeViolations fails) with
  | .error error => refuse preMergeClean (surfaced mergeErr error)
  | .ok (repaired, had) =>
    if had && !repaired then refuse preMergeClean (surfaced mergeErr .unrepairable)
    else if mergeErr.isSome && !resolved && !strategyResolved && !repaired then
      refuse preMergeClean (surfaced mergeErr .unrepairable)
    else if resolved || strategyResolved then do
      match ← attempt (commit fails) with
      | .error error => refuse preMergeClean (surfaced mergeErr error)
      | .ok _ => pure ()
    else pure ()

def settleMerge (mergeErr : Option String) (preMergeClean : Bool) (strategy : String) : DoltM γ Unit := do
  match ← attempt (tryAutoResolveMergeConflicts engine fails) with
  | .error error => refuse preMergeClean (surfaced mergeErr error)
  | .ok true => concludeMerge fails mergeErr preMergeClean true false
  | .ok false => do
      let strategyResolved ← resolveDeclined engine fails mergeErr preMergeClean strategy
      concludeMerge fails mergeErr preMergeClean false strategyResolved

structure MergeEffect (γ : Type) where
  after : DoltState γ
  err : Option String

variable (merge : MergeEffect γ)

/-- `Already up to date` is no error. -/
def MergeEffect.mergeErr : Option String :=
  merge.err.filter fun err => !decide ("up to date".toList <:+: err.toList)

def callMerge : DoltM γ Unit := fun _ => .ok () merge.after

def mergeAndSettleWithStrategy (strategy : String) : DoltM γ Unit := do
  exec fails .allowConflicts id
  exec fails .forceCommit id
  callMerge merge
  settleMerge engine fails merge.mergeErr (workingSetClean fails) strategy

def stageAndCommit (tables : List TableName) : DoltM γ Unit := do
  let pending ← ask fails .pending engine.hasPendingChanges
  if !pending then pure ()
  else do
    tables.forM fun table => exec fails (.stageDirty table) id
    let staged ← ask fails .staged engine.hasStagedChanges
    if !staged then pure () else commit fails

def settleWithStrategy (conflicts : List TableConflicts) (strategy : String) : DoltM γ Unit := do
  conflicts.forM fun entry => resolveConflicts engine fails (conflictTable entry) strategy
  let (repaired, had) ← tryRepairFKCascadeViolations fails
  if had && !repaired then throw .unrepairable
  else stageAndCommit engine fails (conflicts.map conflictTable).eraseDups

def mergeWithStrategy (strategy : String) : DoltM γ (List TableConflicts) :=
  if strategy ≠ "ours" ∧ strategy ≠ "theirs" then throw (.invalidStrategy strategy)
  else do
    exec fails .allowConflicts id
    exec fails .forceCommit id
    callMerge merge
    match ← attempt (ask fails .listConflicts (·.working.conflicts)) with
    | .error error => refuse (workingSetClean fails) (surfaced merge.mergeErr error)
    | .ok conflicts =>
      if conflicts.isEmpty then
        match merge.mergeErr with
        | some err => refuse (workingSetClean fails) (.merge err)
        | none => pure []
      else do
        match ← attempt (settleWithStrategy engine fails conflicts strategy) with
        | .error error => refuse (workingSetClean fails) error
        | .ok _ => pure conflicts

end

end Beads
