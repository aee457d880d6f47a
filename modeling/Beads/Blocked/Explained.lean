import Beads.Blocked.Reasons
import Beads.Data.Support

/-! A blocked parent whose blocking reasons all lie in its own subtree does not darken its children,
unless something above it that is not explained does. `pruneExplainedByAncestry` decides the latter
by climbing from the parents a read returned through their blocked parents. Reads are made in
batches of ids by the source; a batched read returns the concatenation of its batches, so the model
makes one. -/

namespace Beads

/-- The batch predicate spliced into a statement: `AND d.issue_id IN (...)`, or nothing. -/
abbrev Scope := Id → Bool

def wholeTable : Scope := fun _ => true

def batchScope (ids : List Id) : Scope := fun id => ids.contains id

/-- Parents by kind: `issueParents` at the issue plane, `wispParents` at the wisp plane. -/
abbrev ParentsByPlane := Plane → List Id

def parentRefs (read : ParentsByPlane) : List ItemRef :=
  planes.flatMap fun plane => (read plane).map fun id => ⟨plane, id⟩

def idsIn (plane : Plane) (refs : List ItemRef) : List Id :=
  (refs.filter fun ref => ref.plane == plane).map ItemRef.id

namespace Tables

variable (tables : Tables) (bits : Bits)

def candidateParents (parentPlane : Plane) (sources : List (Plane × Scope)) : List Id :=
  sources.flatMap fun source => (tables.dependencies source.1).filterMap fun row =>
    if source.2 row.issueId && row.type == .parentChild then row.target.column parentPlane else none

/-- The `rsn` rows: blocking reason rows of blocked candidates. -/
def reasonRows (plane : Plane) (candidates : List Id) : List Dependency :=
  (tables.dependencies plane).filter fun row =>
    tables.stored ⟨plane, row.issueId⟩ && candidates.contains row.issueId &&
      bits ⟨plane, row.issueId⟩ && tables.blockingReason row

def parentsExplainedBySubtreeCore (plane : Plane) (candidates : List Id) : List Id :=
  let reasons := tables.reasonRows bits plane candidates
  (reasons.map Dependency.issueId).dedup.filter fun parent =>
    reasons.all fun row => row.issueId != parent || tables.insideSubtree parent row

def parentsExplainedBySubtree (sources : List (Plane × Scope)) : ParentsByPlane := fun plane =>
  tables.parentsExplainedBySubtreeCore bits plane (tables.candidateParents plane sources)

def blockedParentEdges (children : List ItemRef) : List (ItemRef × ItemRef) :=
  planes.flatMap fun plane => (tables.dependencies plane).filterMap fun row =>
    match row.target with
    | .external _ => none
    | .item parent =>
      if children.contains ⟨plane, row.issueId⟩ && row.type == .parentChild && tables.stored parent && bits parent
      then some (⟨plane, row.issueId⟩, parent) else none

def explainedAmong (parents : List ItemRef) : List ItemRef :=
  parentRefs fun plane => tables.parentsExplainedBySubtreeCore bits plane
    ((idsIn plane parents).filter fun id => tables.stored ⟨plane, id⟩)

def withoutReasonAmong (parents : List ItemRef) : List ItemRef :=
  parents.filter fun parent => !(tables.dependencies parent.plane).any fun row =>
    row.issueId == parent.id && tables.blockingReason row

end Tables

/-- The walk's `explained` map and `above` edges: `met` are the keys of the map and `entered` those
that map to true. -/
structure Climb where
  met : List ItemRef
  entered : List ItemRef
  above : List (ItemRef × ItemRef) := []

namespace Tables

variable (tables : Tables) (bits : Bits)

def climbLevel (complete : Bool) (frontier : List ItemRef) (climb : Climb) : List ItemRef × Climb :=
  let edges := tables.blockedParentEdges bits frontier
  let unknown := (edges.map Prod.snd).dedup.filter fun parent => !climb.met.contains parent
  let found := if complete then [] else tables.explainedAmong bits unknown
  let undecided := unknown.filter fun parent => !found.contains parent
  let next := found ++ tables.withoutReasonAmong undecided
  (next, ⟨climb.met ++ unknown, climb.entered ++ next, climb.above ++ edges⟩)

def climbBlockedParents (complete : Bool) : Nat → List ItemRef → Climb → Climb
  | 0, _, climb => climb
  | fuel + 1, frontier, climb =>
    if frontier.isEmpty then climb
    else
      let level := tables.climbLevel bits complete frontier climb
      climbBlockedParents complete fuel level.1 level.2

/-- Every level but the last enters a stored item the walk had not met. -/
def climbFuel : Nat := (tables.items .issue).length + (tables.items .wisp).length + 1

def dropBlockedFromAbove (climb : Climb) : List ItemRef := Support.drop climb.above climb.entered

def pruneExplainedByAncestry (complete : Bool) (read : ParentsByPlane) : ParentsByPlane :=
  let refs := parentRefs read
  if refs.isEmpty then read
  else
    let climb := tables.climbBlockedParents bits complete tables.climbFuel refs ⟨refs, refs, []⟩
    let kept := dropBlockedFromAbove climb
    fun plane => (read plane).filter fun id => kept.contains ⟨plane, id⟩

def subtreeExplainedParents : ParentsByPlane :=
  tables.pruneExplainedByAncestry bits true
    (tables.parentsExplainedBySubtree bits [(.issue, wholeTable), (.wisp, wholeTable)])

def batchParentKinds (plane : Plane) (scope : Scope) (parentPlane : Plane) : Bool :=
  (tables.dependencies plane).any fun row =>
    scope row.issueId && row.type == .parentChild && (row.target.column parentPlane).isSome

/-- The set of one batch: only its own parents are candidates, the rest is read by id while
climbing. -/
def scopedExplainedParents (plane : Plane) (scope : Scope) : ParentsByPlane :=
  tables.pruneExplainedByAncestry bits false fun parentPlane =>
    if tables.batchParentKinds plane scope parentPlane
    then tables.parentsExplainedBySubtree bits [(plane, scope)] parentPlane else []

end Tables

end Beads
