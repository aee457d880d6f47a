import Beads.Formula.Expand

namespace Beads.Formula

open List

/-- The names of the placeholders, found as `substituteFrom` finds them. -/
def placeholders (skip : Nat) : Text → List Text
  | [] => []
  | char :: rest =>
    if 0 < skip then placeholders (skip - 1) rest
    else
      let name := rest.takeWhile wordChar
      if char = '{' ∧ name ≠ [] ∧ (rest.drop name.length).head? = some '}' then name :: placeholders (name.length + 1) rest
      else placeholders 0 rest

structure ExpansionFormula where
  formula : Text
  description : Text := []
  type : FormulaType
  template : Steps
  steps : Steps := .nil

def materializeTarget (formula : ExpansionFormula) (targetId : StepId) : Step where
  id := targetId
  title := formula.formula
  description := formula.description

/-- The steps of the formula afterwards. -/
def materializeExpansion (formula : ExpansionFormula) (targetId : StepId) (vars : Text → Option Text) : Except Nat Steps :=
  if formula.type ≠ .expansion ∨ formula.template = .nil ∨ formula.steps ≠ .nil then .ok formula.steps
  else expandStep (materializeTarget formula targetId) formula.template vars

/-- The texts of a step that went through the substitution. -/
def Step.substituted (step : Step) : List Text :=
  [step.id, step.title, step.description, step.assignee] ++ step.labels ++ step.dependsOn ++ step.needs

/-- The substitution that records names gives back its texts, which so are those
of the steps it makes. -/
def expansionVarRefs (formula : ExpansionFormula) (targetId : StepId) : List Text :=
  if formula.type ≠ .expansion ∨ formula.template = .nil then []
  else
    match expandStepWith (materializeTarget formula targetId) id 0 formula.template with
    | .error _ => []
    | .ok steps => (steps.flatten.flatMap fun step => step.substituted.flatMap (placeholders 0)).eraseDups.mergeSort (· ≤ ·)

variable {target tmpl : Step} {one other : Text → Text} {vars vars' : Text → Option Text}

theorem substituteFrom_congr {skip : Nat} {text : Text} (agree : ∀ name ∈ placeholders skip text, vars name = vars' name) :
    substituteFrom vars skip text = substituteFrom vars' skip text := by
  induction text generalizing skip with
  | nil => rfl
  | cons char rest ih =>
    unfold placeholders at agree
    unfold substituteFrom
    dsimp only at agree ⊢
    split_ifs at agree ⊢
    · exact ih agree
    · rw [agree _ (.head _), ih fun name listed => agree name (.tail _ listed)]
    · rw [ih agree]

theorem instantiate_congr (agree : ∀ text ∈ (instantiate target id tmpl).substituted, one text = other text) :
    instantiate target one tmpl = instantiate target other tmpl := by
  simp only [Step.substituted, instantiate, id, forall_mem_append, forall_mem_cons, forall_mem_map] at agree
  obtain ⟨⟨⟨⟨named, titled, described, assigned, _⟩, labelled⟩, depending⟩, needing⟩ := agree
  rw [instantiate, instantiate, named, titled, described, assigned, map_congr_left labelled,
    map_congr_left depending, map_congr_left needing]

theorem expandStepWith_eq (subst : Text → Text) (depth : Nat) (template : Steps) : expandStepWith target subst depth template =
    (expandStepWith target id depth template).map fun _ => template.map (instantiate target subst) := by
  induction template generalizing depth with
  | nil => rfl
  | node tmpl children rest below after =>
    rw [expandStepWith, expandStepWith, below, after]
    split
    · rfl
    · cases expandStepWith target id (depth + 1) children with
      | error level => rfl
      | ok made => cases expandStepWith target id depth rest <;> rfl

/-- Two assignments that agree on the reported names make the same steps. -/
theorem materializeExpansion_congr (formula : ExpansionFormula) (targetId : StepId)
    (agree : ∀ name ∈ expansionVarRefs formula targetId, vars name = vars' name) :
    materializeExpansion formula targetId vars = materializeExpansion formula targetId vars' := by
  unfold materializeExpansion
  split
  · rfl
  · rename_i runs
    rw [expandStep, expandStep, expandStepWith_eq, expandStepWith_eq (substituteVars · vars')]
    cases made : expandStepWith (materializeTarget formula targetId) id 0 formula.template with
    | error level => rfl
    | ok steps =>
      have shape : expandStepWith (materializeTarget formula targetId) id 0 formula.template = _ := expandStepWith_eq _ _ _
      rw [made] at shape
      refine congrArg Except.ok (Forest.map_congr fun tmpl listed => instantiate_congr fun text held =>
        substituteFrom_congr fun name found => agree name ?_)
      rw [expansionVarRefs, if_neg fun skipped => runs (skipped.imp_right .inl), made, Except.ok.inj shape]
      simp only [mem_mergeSort, mem_eraseDups, mem_flatMap, Forest.flatten_map, mem_map]
      exact ⟨_, ⟨tmpl, listed, rfl⟩, text, held, found⟩

/-- A step that names its variable in the title of a nested step. -/
def greeting : ExpansionFormula where
  formula := "greet".toList
  type := .expansion
  template := .node { id := "{target}".toList }
    (.node { id := "{target}.1".toList, title := "Hello {name}".toList } .nil .nil) .nil

theorem greeting_congr : expansionVarRefs greeting "bd-1".toList = ["name".toList] ∧
    materializeExpansion greeting "bd-1".toList (fun name => if name = "name".toList then some "you".toList else none) =
      materializeExpansion greeting "bd-1".toList (fun _ => some "you".toList) :=
  ⟨by decide +kernel, materializeExpansion_congr greeting "bd-1".toList (by decide +kernel)⟩

end Beads.Formula
