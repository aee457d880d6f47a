import Beads.Blocked.Explained
import Beads.Data.Batches

/-! The mark and unmark statements, each evaluated on the column as it stood before it, and the
loops that repeat them until a pass changes no row: the full repair over both tables, the scoped
recompute over batches of ids, and the mark-only loop. Loops take fuel and return `none` when it
runs out. -/

namespace Beads

open Batches

def queryBatchSize : Nat := 200

def recomputeSplitMinChunk : Nat := 32

namespace Tables

variable (tables : Tables)

def openTargetLeg (plane targetPlane : Plane) (scope : Scope) : List Id :=
  ((tables.dependencies plane).filter fun row => scope row.issueId && row.type.blocking &&
    (row.target.column targetPlane).any fun id => tables.active ⟨targetPlane, id⟩).map Dependency.issueId

def blockedParentLeg (plane parentPlane : Plane) (scope : Scope) (explained : ParentsByPlane) (bits : Bits) : List Id :=
  ((tables.dependencies plane).filter fun row => scope row.issueId && row.type == .parentChild &&
    (row.target.column parentPlane).any fun id => tables.stored ⟨parentPlane, id⟩ &&
      bits ⟨parentPlane, id⟩ && !(explained parentPlane).contains id).map Dependency.issueId

section

variable (plane : Plane)

variable (scope : Scope)

def waitsForLeg : List Id :=
  ((tables.dependencies plane).filter fun row => scope row.issueId && row.type == .waitsFor &&
    tables.waitsForGateBlocked row).map Dependency.issueId

variable (explained : ParentsByPlane)

variable (bits : Bits)

def shouldBeBlockedIds : List Id :=
  tables.openTargetLeg plane .issue scope ++ tables.openTargetLeg plane .wisp scope ++
    tables.blockedParentLeg plane .issue scope explained bits ++
    tables.blockedParentLeg plane .wisp scope explained bits ++ tables.waitsForLeg plane scope

/-- `UPDATE table SET is_blocked = value WHERE guard`: the new column and the rows affected. -/
def setBlocked (value : Bool) (guard : Row → Bool) (bits : Bits) : Bits × Nat :=
  let matched := (tables.items plane).filter guard
  (fun ref => if ref.plane == plane && matched.any fun row => row.id == ref.id then value
    else bits ref, matched.length)

def markBlocked : Bits × Nat :=
  let due := tables.shouldBeBlockedIds plane scope explained bits
  tables.setBlocked plane true
    (fun row => scope row.id && !bits ⟨plane, row.id⟩ && row.status.active && due.contains row.id) bits

def unmarkBlocked : Bits × Nat :=
  let due := tables.shouldBeBlockedIds plane scope explained bits
  tables.setBlocked plane false
    (fun row => scope row.id && bits ⟨plane, row.id⟩ && (!row.status.active || !due.contains row.id)) bits

def markUnmark : Bits × Nat :=
  let marked := tables.markBlocked plane scope explained bits
  let unmarked := tables.unmarkBlocked plane scope explained marked.1
  (unmarked.1, marked.2 + unmarked.2)

end

def recomputeAllPass (bits : Bits) : Bits × Nat :=
  let explained := tables.subtreeExplainedParents bits
  let issues := if (tables.items .issue).isEmpty then (bits, 0) else tables.markUnmark .issue wholeTable explained bits
  let wisps := if (tables.items .wisp).isEmpty then (issues.1, 0)
    else tables.markUnmark .wisp wholeTable explained issues.1
  (wisps.1, issues.2 + wisps.2)

def recomputeIsBlockedCounting : Nat → Bits → Option (Bits × Nat)
  | 0, _ => none
  | fuel + 1, bits =>
    let pass := tables.recomputeAllPass bits
    if pass.2 = 0 then some (pass.1, 0)
    else (recomputeIsBlockedCounting fuel pass.1).map fun rest => (rest.1, pass.2 + rest.2)

/-- `RecomputeAllIsBlockedInTx`: the repaired column and the number of corrections. -/
def recomputeAllIsBlocked (fuel : Nat) (bits : Bits) : Option (Bits × Nat) :=
  if (tables.items .issue).isEmpty && (tables.items .wisp).isEmpty then some (bits, 0)
  else tables.recomputeIsBlockedCounting fuel bits

/-- `CountIsBlockedInconsistenciesInTx`: the rows one pass would mark or unmark. -/
def countIsBlockedInconsistencies (bits : Bits) : Nat :=
  let explained := tables.subtreeExplainedParents bits
  (planes.map fun plane =>
    let due := tables.shouldBeBlockedIds plane wholeTable explained bits
    ((tables.items plane).filter fun row =>
      !bits ⟨plane, row.id⟩ && row.status.active && due.contains row.id ||
        bits ⟨plane, row.id⟩ && (!row.status.active || !due.contains row.id)).length).sum

def markUnmarkBatch (plane : Plane) (bits : Bits) (ids : List Id) : Bits × Nat :=
  tables.markUnmark plane (batchScope ids) (tables.scopedExplainedParents bits plane (batchScope ids)) bits

end Tables

def idsOf (issueIds wispIds : List Id) : Plane → List Id
  | .issue => issueIds
  | .wisp => wispIds

def runStatements {α : Type} (statement : Bits → α → Bits × Nat) (bits : Bits) (inputs : List α) : Bits × Nat :=
  inputs.foldl (fun state input => let after := statement state.1 input; (after.1, state.2 + after.2)) (bits, 0)

structure RecomputeChunk where
  withEdges : List Id
  edgeless : List Id

structure SplitMode where
  splitEdgeless : Bool := false
  createFastPathsDisabled : Bool := false

structure RecomputeResult where
  bits : Bits
  issueRowsChanged : Bool
  wispRowsChanged : Bool

namespace Tables

variable (tables : Tables)

variable (plane : Plane)

def runMarkUnmarkBatched (ids : List Id) (bits : Bits) : Bits × Nat :=
  runStatements (tables.markUnmarkBatch plane) bits (batches queryBatchSize ids)

def hasOwnDependencyRow (id : Id) : Bool :=
  (tables.dependencies plane).any fun row => row.issueId == id

def planRecompute (mode : SplitMode) (ids : List Id) : List RecomputeChunk :=
  (batches queryBatchSize ids).map fun chunk =>
    if !mode.createFastPathsDisabled && (mode.splitEdgeless || chunk.length ≥ recomputeSplitMinChunk)
    then ⟨chunk.filter (tables.hasOwnDependencyRow plane), chunk.filter fun id => !tables.hasOwnDependencyRow plane id⟩
    else ⟨chunk, []⟩

def clearEdgeless (ids : List Id) (bits : Bits) : Bits × Nat :=
  tables.setBlocked plane false (fun row => ids.contains row.id && bits ⟨plane, row.id⟩) bits

def runRecomputeChunk (firstPass : Bool) (bits : Bits) (chunk : RecomputeChunk) : Bits × Nat :=
  let swept := if chunk.withEdges.isEmpty then (bits, 0) else tables.runMarkUnmarkBatched plane chunk.withEdges bits
  let cleared := if !firstPass || chunk.edgeless.isEmpty then (swept.1, 0)
    else tables.clearEdgeless plane chunk.edgeless swept.1
  (cleared.1, swept.2 + cleared.2)

def runRecomputePass (plan : List RecomputeChunk) (firstPass : Bool) (bits : Bits) : Bits × Nat :=
  runStatements (tables.runRecomputeChunk plane firstPass) bits plan

def recomputeFixpoint (issuePlan wispPlan : List RecomputeChunk) : Nat → Bool → Bits → Option RecomputeResult
  | 0, _, _ => none
  | fuel + 1, firstPass, bits =>
    let issues := tables.runRecomputePass .issue issuePlan firstPass bits
    let wisps := tables.runRecomputePass .wisp wispPlan firstPass issues.1
    if issues.2 + wisps.2 = 0 then some ⟨wisps.1, issues.2 > 0, wisps.2 > 0⟩
    else (recomputeFixpoint issuePlan wispPlan fuel false wisps.1).map fun rest =>
      ⟨rest.bits, issues.2 > 0 || rest.issueRowsChanged, wisps.2 > 0 || rest.wispRowsChanged⟩

def recomputeIsBlocked (mode : SplitMode) (issueIds wispIds : List Id) (fuel : Nat) (bits : Bits) :
    Option RecomputeResult :=
  if issueIds.isEmpty && wispIds.isEmpty then some ⟨bits, false, false⟩
  else tables.recomputeFixpoint (tables.planRecompute .issue mode issueIds)
    (tables.planRecompute .wisp mode wispIds) fuel true bits

def markBatch (bits : Bits) (ids : List Id) : Bits × Nat :=
  tables.markBlocked plane (batchScope ids) (tables.scopedExplainedParents bits plane (batchScope ids)) bits

def markIsBlockedPass (ids : List Id) (bits : Bits) : Bits × Nat :=
  if ids.isEmpty then (bits, 0) else runStatements (tables.markBatch plane) bits (batches queryBatchSize ids)

def markIsBlockedLoop (issueIds wispIds : List Id) : Nat → Bits → Option Bits
  | 0, _ => none
  | fuel + 1, bits =>
    let issues := tables.markIsBlockedPass .issue issueIds bits
    let wisps := tables.markIsBlockedPass .wisp wispIds issues.1
    if issues.2 + wisps.2 = 0 then some wisps.1 else markIsBlockedLoop issueIds wispIds fuel wisps.1

def markIsBlocked (issueIds wispIds : List Id) (fuel : Nat) (bits : Bits) : Option Bits :=
  if issueIds.isEmpty && wispIds.isEmpty then some bits else tables.markIsBlockedLoop issueIds wispIds fuel bits

end Tables

end Beads
