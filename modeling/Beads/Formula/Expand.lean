import Beads.Data.Fallible
import Beads.Data.Forest
import Beads.Data.Text

/-! `ApplyExpansions` replaces steps by instances of a template: the targets of the expand rules one
by one, then, for each map rule, every step whose id matches a pattern. The matching steps are
collected by ranging over a Go map, so that their order is not given; it is an argument here. -/

namespace Beads.Formula

abbrev Text := List Char

abbrev StepId := Text

structure Step where
  id : StepId
  title : Text := []
  description : Text := []
  type : Text := []
  priority : Option Int := none
  labels : List Text := []
  dependsOn : List StepId := []
  needs : List StepId := []
  assignee : Text := []
  sourceFormula : Text := []
  sourceLocation : Text := []
  deriving DecidableEq, Repr

abbrev Steps := Forest Step

def Step.entries (step : Step) : List StepId := step.needs ++ step.dependsOn

def names (steps : Steps) : List StepId := steps.flatten.map Step.id

def wordChar (char : Char) : Bool := char.isAlphanum || char == '_'

/-- The placeholder pattern `\{(\w+)\}` from the left; the first `skip` characters belong to the
last placeholder. -/
def substituteFrom (vars : Text → Option Text) (skip : Nat) : Text → Text
  | [] => []
  | char :: rest =>
    if 0 < skip then substituteFrom vars (skip - 1) rest
    else
      let name := rest.takeWhile wordChar
      if char = '{' ∧ name ≠ [] ∧ (rest.drop name.length).head? = some '}' then
        (vars name).getD ('{' :: name ++ ['}']) ++ substituteFrom vars (name.length + 1) rest
      else char :: substituteFrom vars 0 rest

def substituteVars (text : Text) (vars : Text → Option Text) : Text := substituteFrom vars 0 text

def substituteTargetPlaceholders (text : Text) (target : Step) : Text :=
  let text := Text.replaceAll "{target}".toList target.id text
  let text := Text.replaceAll "{target.id}".toList target.id text
  let text := Text.replaceAll "{target.title}".toList target.title text
  Text.replaceAll "{target.description}".toList target.description text

inductive FormulaType where
  | workflow
  | expansion
  | aspect
  | convoy
  deriving DecidableEq, Repr

/-- What an expansion reads of a formula. A variable without a default has none to give. -/
structure LoadedFormula where
  type : FormulaType
  vars : List (Text × Option Text) := []
  template : Steps

structure ExpandRule where
  target : StepId
  uses : Text
  vars : List (Text × Text) := []

structure MapRule where
  select : Text
  uses : Text
  vars : List (Text × Text) := []

structure ComposeRules where
  expand : List ExpandRule := []
  map : List MapRule := []

/-- `LoadByName`, and the match of `path/filepath`, false for a malformed pattern. -/
structure Parser where
  loadByName : Text → Except Text LoadedFormula
  filepathMatch : (pattern name : Text) → Bool

inductive RuleKind where
  | expand
  | map
  deriving DecidableEq, Repr

inductive ExpandError where
  | targetNotFound (target : StepId)
  | loading (rule : RuleKind) (name cause : Text)
  | notExpansion (rule : RuleKind) (name : Text) (type : FormulaType)
  | noTemplate (rule : RuleKind) (name : Text)
  | depthLimit (rule : RuleKind) (target : StepId) (depth : Nat)
  | duplicateIds (ids : List StepId)
  deriving DecidableEq, Repr

def defaultMaxExpansionDepth : Nat := 5

def mergeVars (formula : LoadedFormula) (overrides : List (Text × Text)) (name : Text) : Option Text :=
  (overrides.lookup name).or ((formula.vars.lookup name).getD none)

def matchGlob (filepathMatch : Text → Text → Bool) (pattern stepId : Text) : Bool :=
  if filepathMatch pattern stepId then true
  else if pattern = ['*'] then true
  else if ['*', '.'].isPrefixOf pattern then (pattern.drop 1).isSuffixOf stepId
  else if ['.', '*'].isSuffixOf pattern then pattern.dropLast.isPrefixOf stepId
  else pattern == stepId

/-- A template step for a target. The other fields of the template step are not taken over. -/
def instantiate (target : Step) (subst : Text → Text) (tmpl : Step) : Step where
  id := subst (substituteTargetPlaceholders tmpl.id target)
  title := subst (substituteTargetPlaceholders tmpl.title target)
  description := subst (substituteTargetPlaceholders tmpl.description target)
  type := tmpl.type
  priority := tmpl.priority
  assignee := subst tmpl.assignee
  sourceFormula := tmpl.sourceFormula
  sourceLocation := tmpl.sourceLocation
  labels := tmpl.labels.map fun label => subst (substituteTargetPlaceholders label target)
  dependsOn := tmpl.dependsOn.map fun dep => subst (substituteTargetPlaceholders dep target)
  needs := tmpl.needs.map fun need => subst (substituteTargetPlaceholders need target)

/-- Only the level of nesting can fail; the error carries it. -/
def expandStepWith (target : Step) (subst : Text → Text) (depth : Nat) : Steps → Except Nat Steps
  | .nil => .ok .nil
  | .node tmpl children rest =>
    if defaultMaxExpansionDepth < depth then .error depth
    else do
      let children ← expandStepWith target subst (depth + 1) children
      let rest ← expandStepWith target subst depth rest
      return .node (instantiate target subst tmpl) children rest

def expandStep (target : Step) (template : Steps) (vars : Text → Option Text) : Except Nat Steps :=
  expandStepWith target (substituteVars · vars) 0 template

def isRoot (expandedIds : List StepId) (step : Step) : Bool :=
  !step.needs.any (expandedIds.contains ·) && !step.dependsOn.any (expandedIds.contains ·)

def inherit (target : Step) (step : Step) : Step :=
  { step with needs := target.needs ++ step.needs, dependsOn := target.dependsOn ++ step.dependsOn }

def propagateTargetDeps (target : Step) (expandedSteps : Steps) : Steps :=
  if target.needs = [] ∧ target.dependsOn = [] then expandedSteps
  else
    let expandedIds := expandedSteps.roots.map Step.id
    expandedSteps.mapRoots fun step => if isRoot expandedIds step then inherit target step else step

def replaceStep (steps : Steps) (targetId : StepId) (replacement : Steps) : Steps :=
  steps.graft (decide <| ·.id = targetId) replacement

def redirectId (expandedId lastExpandedStepId entry : StepId) : StepId :=
  if entry = expandedId then lastExpandedStepId else entry

def redirect (expandedId lastExpandedStepId : StepId) (step : Step) : Step :=
  { step with
    dependsOn := step.dependsOn.map (redirectId expandedId lastExpandedStepId)
    needs := step.needs.map (redirectId expandedId lastExpandedStepId) }

def updateDependenciesForExpansion (steps : Steps) (expandedId lastExpandedStepId : StepId) : Steps :=
  steps.map (redirect expandedId lastExpandedStepId)

/-- One target replaced in the list: the instance with what it inherits, and then the references to
the target. -/
def expandTarget (template : Steps) (vars : Text → Option Text) (target : Step) (result : Steps) : Except Nat Steps := do
  let expandedSteps ← expandStep target template vars
  let expandedSteps := propagateTargetDeps target expandedSteps
  let result := replaceStep result target.id expandedSteps
  match expandedSteps.roots.getLast? with
  | some last => return updateDependenciesForExpansion result target.id last.id
  | none => return result

/-- The steps of a map from ids to steps: of two steps with one id the later one in preorder. -/
def lastOfEach : List Step → List Step
  | [] => []
  | step :: rest => if rest.any (·.id == step.id) then lastOfEach rest else step :: lastOfEach rest

def buildStepMap (steps : Steps) : List Step := lastOfEach steps.flatten

structure ExpansionState where
  result : Steps
  expanded : List StepId := []
  deriving DecidableEq, Repr

variable (parser : Parser)

def loadExpansion (rule : RuleKind) (name : Text) : Except ExpandError LoadedFormula :=
  match parser.loadByName name with
  | .error cause => .error (.loading rule name cause)
  | .ok formula =>
    if formula.type ≠ .expansion then .error (.notExpansion rule name formula.type)
    else if formula.template = .nil then .error (.noTemplate rule name)
    else .ok formula

def replaceTarget (rule : RuleKind) (formula : LoadedFormula) (overrides : List (Text × Text))
    (state : ExpansionState) (target : Step) : Except ExpandError ExpansionState := do
  let result ← (expandTarget formula.template
    (mergeVars formula overrides) target state.result).mapError (.depthLimit rule target.id)
  return { result, expanded := target.id :: state.expanded }

def applyExpandRule (state : ExpansionState) (rule : ExpandRule) : Except ExpandError ExpansionState :=
  match (buildStepMap state.result).find? (·.id == rule.target) with
  | none => .error (.targetNotFound rule.target)
  | some target =>
    if rule.target ∈ state.expanded then .ok state
    else do
      let formula ← loadExpansion parser .expand rule.uses
      replaceTarget .expand formula rule.vars state target

/-- The steps a map rule expands, in the order in which the step map is enumerated. -/
def toExpand (enumerate : List Step → List Step) (state : ExpansionState) (rule : MapRule) : List Step :=
  (enumerate (buildStepMap state.result)).filter fun step =>
    matchGlob parser.filepathMatch rule.select step.id && !state.expanded.contains step.id

/-- The targets are those of the list the rule started with, as they were then. -/
def applyMapRule (enumerate : List Step → List Step) (state : ExpansionState) (rule : MapRule) :
    Except ExpandError ExpansionState := do
  let formula ← loadExpansion parser .map rule.uses
  (toExpand parser enumerate state rule).foldlM (replaceTarget .map formula rule.vars) state

def findDuplicateStepIds (steps : Steps) : List StepId :=
  (names steps).dedup.filter fun id => 1 < (names steps).count id

/-- An order for each time the step map is enumerated. -/
structure Enumeration where
  order : Nat → List Step → List Step
  perm : ∀ round steps, (order round steps).Perm steps

def applyRules (enumeration : Enumeration) (compose : ComposeRules) (steps : Steps) :
    Except ExpandError ExpansionState := do
  let state ← compose.expand.foldlM (applyExpandRule parser) { result := steps }
  compose.map.zipIdx.foldlM (fun state (rule, round) => applyMapRule parser (enumeration.order round) state rule) state

def applyExpansions (enumeration : Enumeration) (steps : Steps) (compose : Option ComposeRules)
    (parser : Option Parser) : Except ExpandError Steps :=
  match compose, parser with
  | some compose, some parser =>
    if compose.expand = [] ∧ compose.map = [] then .ok steps
    else do
      let state ← applyRules parser enumeration compose steps
      if findDuplicateStepIds state.result ≠ [] then throw (.duplicateIds (findDuplicateStepIds state.result))
      return state.result
  | _, _ => .ok steps

end Beads.Formula
