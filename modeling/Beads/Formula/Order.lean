import Beads.Data.Regrafting
import Beads.Formula.Expand

namespace Beads.Formula

structure Expanded where
  target : Step
  fresh : Steps
  deriving DecidableEq, Repr

namespace Expanded

variable (expanded : Expanded)

def steps : Steps := propagateTargetDeps expanded.target expanded.fresh

def last : StepId := (expanded.steps.roots.getLast?.map Step.id).getD expanded.target.id

def regraft : Regraft StepId Step where
  key := expanded.target.id
  scion := expanded.steps
  relabel := redirect expanded.target.id expanded.last

end Expanded

def instanceOf (formula : LoadedFormula) (overrides : List (Text × Text)) (target : Step) : Expanded where
  target := target
  fresh := (expandStep target formula.template (mergeVars formula overrides)).toOption.getD .nil

def replaceAllOf (instances : List Expanded) (steps : Steps) : Steps :=
  (instances.map Expanded.regraft).foldl (Regraft.apply Step.id) steps

theorem entries_redirect (expandedId lastId : StepId) (step : Step) :
    (redirect expandedId lastId step).entries = step.entries.map (redirectId expandedId lastId) := by
  simp [redirect, Step.entries]

@[simp] theorem redirectId_self (id entry : StepId) : redirectId id id entry = entry := by
  rw [redirectId]
  split
  case isTrue same => exact same.symm
  case isFalse => rfl

theorem redirect_self (id : StepId) (step : Step) : redirect id id step = step := by
  simp [redirect, funext (redirectId_self id)]

variable {step : Step} {enumerate : List Step → List Step} {other : ExpansionState}
  {enumeration : Enumeration} {compose : ComposeRules}

open List

theorem redirect_of_absent {expandedId lastId : StepId} (absent : expandedId ∉ step.entries) :
    redirect expandedId lastId step = step := by
  have same : ∀ entry ∈ step.entries, redirectId expandedId lastId entry = entry := by
    intro entry member
    have other : entry ≠ expandedId := fun here => absent (here ▸ member)
    exact if_neg other
  have depends :=
    (map_congr_left fun entry member => same entry (mem_append_right _ member)).trans (map_id' _)
  have needs :=
    (map_congr_left fun entry member => same entry (mem_append_left _ member)).trans (map_id' _)
  rw [redirect, depends, needs]

open Expanded

theorem expandTarget_ok {formula : LoadedFormula} {overrides : List (Text × Text)} {target : Step} {fresh : Steps}
    (made : expandStep target formula.template (mergeVars formula overrides) = .ok fresh)
    (result : Steps) : expandTarget formula.template (mergeVars formula overrides) target result =
      .ok (Regraft.apply Step.id result (instanceOf formula overrides target).regraft) := by
  have whole : (instanceOf formula overrides target).fresh = fresh := by rw [instanceOf, made]; rfl
  have scion : (instanceOf formula overrides target).steps = propagateTargetDeps target fresh := by rw [steps, whole]; rfl
  rw [expandTarget, made, Fallible.ok_bind, Regraft.apply, regraft, last, scion]
  dsimp only
  cases (propagateTargetDeps target fresh).roots.getLast? with
  | some last => rfl
  | none =>
    refine congrArg Except.ok (Forest.map_eq_self fun step _ => ?_).symm
    exact redirect_self _ step

/-- The template is not nested too deep for an instance. -/
def expandable (formula : LoadedFormula) (overrides : List (Text × Text)) (target : Step) : Bool :=
  (expandStep target formula.template (mergeVars formula overrides)).isOk

variable {parser : Parser} {rule : RuleKind} {formula : LoadedFormula}
    {overrides : List (Text × Text)} {state next : ExpansionState}
  {target : Step} {targets others : List Step}

theorem replaceTarget_eq_ok : replaceTarget rule formula overrides state target = .ok next ↔
    expandable formula overrides target = true ∧
    next = { result := Regraft.apply Step.id state.result (instanceOf formula overrides target).regraft,
             expanded := target.id :: state.expanded } := by
  rw [replaceTarget, expandable]
  cases made : expandStep target formula.template (mergeVars formula overrides) with
  | error depth =>
    rw [expandTarget, made]
    simp [bind, Except.bind, Except.mapError, Except.isOk, Except.toBool]
  | ok fresh =>
    rw [expandTarget_ok made]
    exact ⟨fun done => ⟨rfl, (Except.ok.inj done).symm⟩, fun both => congrArg Except.ok both.2.symm⟩

theorem foldlM_replaceTarget : targets.foldlM (replaceTarget rule formula overrides) state = .ok next ↔
    (∀ target ∈ targets, expandable formula overrides target = true) ∧
      next = { result := replaceAllOf (targets.map (instanceOf formula overrides)) state.result
               expanded := (targets.map Step.id).reverse ++ state.expanded } := by
  induction targets generalizing state with
  | nil => exact ⟨fun done => ⟨nofun, (Except.ok.inj done).symm⟩, fun ⟨_, done⟩ => congrArg Except.ok done.symm⟩
  | cons target targets ih =>
    rw [foldlM_cons, forall_mem_cons]
    constructor
    · intro done
      obtain ⟨middle, first, later⟩ := Fallible.bind_eq_ok done
      obtain ⟨here, rfl⟩ := replaceTarget_eq_ok.mp first
      obtain ⟨rest, rfl⟩ := ih.mp later
      exact ⟨⟨here, rest⟩, by simp [replaceAllOf]⟩
    · rintro ⟨⟨here, rest⟩, rfl⟩
      rw [replaceTarget_eq_ok.mpr ⟨here, rfl⟩]
      exact ih.mpr ⟨rest, by simp [replaceAllOf]⟩

section

variable (instances : List Expanded) (steps : Steps)

def Outermost (id : StepId) : Prop :=
  Regraft.Exposed Step.id (instances.map Expanded.regraft) steps id

instance (id : StepId) : Decidable (Outermost instances steps id) :=
  inferInstanceAs (Decidable (∃ step ∈ _, _))

/-- No instance put in place has a step with the id of another target, nor ends in one that is
replaced itself. -/
def Separate : Prop :=
  (∀ one ∈ instances, ∀ other ∈ instances, one.target.id ≠ other.target.id →
    one.last = other.target.id → other.last = other.target.id) ∧
    ∀ one ∈ instances, Outermost instances steps one.target.id → ∀ other ∈ instances,
      one.target.id ≠ other.target.id → other.target.id ∉ names one.steps

/-- No step of an instance put in place needs another target, unless that target's id stays. -/
def Untangled : Prop :=
  ∀ one ∈ instances, Outermost instances steps one.target.id → ∀ other ∈ instances, one.target.id ≠ other.target.id →
    ∀ step ∈ one.steps.flatten, other.target.id ∈ step.entries → other.last = other.target.id

instance : Decidable (Separate instances steps) :=
  inferInstanceAs (Decidable ((∀ one ∈ instances, ∀ other ∈ instances, _) ∧ ∀ one ∈ instances, _ → ∀ other ∈ instances, _))

instance : Decidable (Untangled instances steps) :=
  inferInstanceAs (Decidable (∀ one ∈ instances, _ → ∀ other ∈ instances, _ → ∀ step ∈ one.steps.flatten, _))

def Settled : Prop := Separate instances steps ∧ Untangled instances steps

end

variable {instances : List Expanded} {steps : Steps}

theorem redirectId_comm {one other oneLast otherLast : StepId} (apart : one ≠ other)
    (oneEnds : oneLast = other → otherLast = other)
    (otherEnds : otherLast = one → oneLast = one) (entry : StepId) :
    redirectId other otherLast (redirectId one oneLast entry) = redirectId one oneLast (redirectId other otherLast entry) := by
  simp only [redirectId]
  split_ifs <;> grind

section

variable (separate : Separate instances steps) (once : (instances.map fun one => one.target.id).Nodup)
include separate once

theorem Separate.round : Regraft.Round Step.id (instances.map regraft) steps where
  once := by
    rw [map_map]
    exact once
  kept regraft member value := by
    obtain ⟨one, _, rfl⟩ := mem_map.mp member
    rfl
  apart regraft member exposed third listed different value fresh same := by
    obtain ⟨one, mine, rfl⟩ := mem_map.mp member
    obtain ⟨other, its, rfl⟩ := mem_map.mp listed
    exact separate.2 one mine exposed other its (Ne.symm different) (mem_map.mpr ⟨value, fresh, same⟩)

theorem Separate.commuting (untangled : Untangled instances steps) :
    Regraft.Commuting Step.id (instances.map regraft) steps where
  toRound := separate.round once
  still regraft member exposed third listed different := by
    obtain ⟨one, mine, rfl⟩ := mem_map.mp member
    obtain ⟨other, its, rfl⟩ := mem_map.mp listed
    refine Forest.map_eq_self fun step fresh => ?_
    by_cases named : other.target.id ∈ step.entries
    · have stays := untangled one mine exposed other its (Ne.symm different) step fresh named
      show redirect other.target.id other.last step = step
      rw [stays, redirect_self]
    · exact redirect_of_absent named
  commute regraft member third listed different step := by
    obtain ⟨one, mine, rfl⟩ := mem_map.mp member
    obtain ⟨other, its, rfl⟩ := mem_map.mp listed
    have swap : ∀ entry, redirectId other.target.id other.last (redirectId one.target.id one.last entry) =
        redirectId one.target.id one.last (redirectId other.target.id other.last entry) :=
      redirectId_comm different (separate.1 one mine other its different) (separate.1 other its one mine (Ne.symm different))
    simp [regraft, redirect, swap]

theorem replaceAllOf_perm {others : List Expanded} (untangled : Untangled instances steps)
    (perm : others.Perm instances) : replaceAllOf others steps = replaceAllOf instances steps :=
  (separate.commuting once untangled).foldl_perm (perm.map regraft)

theorem exists_entries_last {one : Expanded} {before : List Expanded} (perm : (before ++ [one]).Perm instances)
    (exposed : Outermost instances steps one.target.id) (member : step ∈ one.steps.flatten)
    {id : StepId} (named : id ∈ step.entries)
    (apart : one.target.id ≠ id) : ∃ step ∈ (replaceAllOf (before ++ [one]) steps).flatten, id ∈ step.entries := by
  have round := (separate.round once).perm (perm.map regraft)
  refine ⟨redirect one.target.id one.last step, (Regraft.mem_round round).mpr (.inr ?_), ?_⟩
  · exact ⟨before.map regraft, one.regraft, [], by simp, (Regraft.Exposed.perm (perm.map _)).mpr exposed, step, member, rfl⟩
  · rw [entries_redirect]
    exact mem_map.mpr ⟨id, named, if_neg (Ne.symm apart)⟩

end

def roundOf (parser : Parser) (formula : LoadedFormula) (enumerate : List Step → List Step)
    (state : ExpansionState) (rule : MapRule) : List Expanded :=
  (toExpand parser enumerate state rule).map (instanceOf formula rule.vars)

section

variable (holds : List Expanded → Steps → Prop) (parser : Parser)

def EachMap (enumeration : Enumeration) : List (MapRule × Nat) → ExpansionState → Prop
  | [], _ => True
  | (rule, round) :: rest, state =>
    (∀ formula, loadExpansion parser .map rule.uses = .ok formula → holds (roundOf parser formula id state rule) state.result) ∧
      ∀ next, applyMapRule parser (enumeration.order round) state rule = .ok next → EachMap enumeration rest next

def EachMapRound (enumeration : Enumeration) (compose : ComposeRules) (steps : Steps) : Prop :=
  ∀ state, compose.expand.foldlM (applyExpandRule parser) { result := steps } = .ok state →
    EachMap holds parser enumeration compose.map.zipIdx state

end

def Alike (one other : ExpansionState) : Prop := one.result = other.result ∧ ∀ id, id ∈ one.expanded ↔ id ∈ other.expanded

theorem lastOfEach_sublist (steps : List Step) : (lastOfEach steps).Sublist steps := by
  induction steps with
  | nil => exact .slnil
  | cons first rest ih =>
    rw [lastOfEach]
    split
    · exact ih.cons _
    · exact ih.cons_cons _

theorem nodup_lastOfEach (steps : List Step) : ((lastOfEach steps).map Step.id).Nodup := by
  induction steps with
  | nil => exact nodup_nil
  | cons first rest ih =>
    rw [lastOfEach]
    split
    · exact ih
    case isFalse alone =>
      refine nodup_cons.mpr ⟨fun again => alone ?_, ih⟩
      obtain ⟨step, member, same⟩ := mem_map.mp again
      exact any_eq_true.mpr ⟨step, (lastOfEach_sublist _).mem member, by simpa using same⟩

theorem toExpand_perm (perm : ∀ steps, (enumerate steps).Perm steps) {one : ExpansionState}
    (alike : Alike one other) (rule : MapRule) : (toExpand parser enumerate one rule).Perm (toExpand parser id other rule) := by
  have same : ∀ id, one.expanded.contains id = other.expanded.contains id := by
    intro id
    rw [Bool.eq_iff_iff, contains_iff_mem, contains_iff_mem, alike.2]
  simp only [toExpand, same, alike.1]
  exact (perm _).filter _

theorem toExpand_own (parser : Parser) (state : ExpansionState)
    (perm : ∀ steps, (enumerate steps).Perm steps) (rule : MapRule) :
    (toExpand parser enumerate state rule).Perm (toExpand parser id state rule) :=
  toExpand_perm perm ⟨rfl, fun _ => .rfl⟩ rule

theorem once_toExpand (parser : Parser) (formula : LoadedFormula) (state : ExpansionState) (rule : MapRule) :
    ((roundOf parser formula id state rule).map fun one => one.target.id).Nodup := by
  rw [roundOf, map_map]
  exact (filter_sublist.map Step.id).nodup (nodup_lastOfEach _)

variable {rule : MapRule} {one : Expanded}

theorem applyMapRule_eq_ok : applyMapRule parser enumerate state rule = .ok next ↔
    ∃ formula, loadExpansion parser .map rule.uses = .ok formula ∧
      (∀ target ∈ toExpand parser enumerate state rule, expandable formula rule.vars target = true) ∧
      next = { result := replaceAllOf (roundOf parser formula enumerate state rule) state.result
               expanded := ((toExpand parser enumerate state rule).map Step.id).reverse ++ state.expanded } := by
  rw [applyMapRule]
  constructor
  · intro done
    obtain ⟨formula, loaded, ran⟩ := Fallible.bind_eq_ok done
    exact ⟨formula, loaded, foldlM_replaceTarget.mp ran⟩
  · rintro ⟨formula, loaded, ran⟩
    rw [loaded]
    exact foldlM_replaceTarget.mpr ran

theorem applyMapRule_alike (reordered : Enumeration) {round : Nat} {rest : List (MapRule × Nat)}
    (settled : EachMap Settled parser enumeration ((rule, round) :: rest) state) (alike : Alike state other)
    (done : applyMapRule parser (enumeration.order round) state rule = .ok next) :
    ∃ result, applyMapRule parser (reordered.order round) other rule = .ok result ∧ Alike next result := by
  obtain ⟨formula, loaded, deep, rfl⟩ := applyMapRule_eq_ok.mp done
  have mine := toExpand_own parser state (enumeration.perm round) rule
  have its : (toExpand parser (reordered.order round) other rule).Perm (toExpand parser id state rule) :=
    toExpand_perm (reordered.perm round) ⟨alike.1.symm, fun id => (alike.2 id).symm⟩ rule
  have across := its.trans mine.symm
  refine ⟨_, applyMapRule_eq_ok.mpr ⟨formula, loaded,
    fun target member => deep target (across.mem_iff.mp member), rfl⟩, ?_, fun id => ?_⟩
  · obtain ⟨separate, untangled⟩ := settled.1 formula loaded
    have once := once_toExpand parser formula state rule
    show replaceAllOf _ state.result = replaceAllOf _ other.result
    rw [← alike.1, roundOf, roundOf, replaceAllOf_perm separate once untangled (mine.map _),
      replaceAllOf_perm separate once untangled (its.map _)]
  · simp [alike.2, across.mem_iff]

theorem foldlM_applyMapRule_alike {reordered : Enumeration} {rules : List (MapRule × Nat)}
    (settled : EachMap Settled parser enumeration rules state) (alike : Alike state other)
    (done : rules.foldlM (fun state (rule, round) => applyMapRule parser (enumeration.order round) state rule) state = .ok next) :
    ∃ result, rules.foldlM (fun state (rule, round) =>
      applyMapRule parser (reordered.order round) state rule) other = .ok result ∧
      Alike next result := by
  induction rules generalizing state other with
  | nil =>
    cases done
    exact ⟨other, rfl, alike⟩
  | cons first rest ih =>
    obtain ⟨rule, round⟩ := first
    rw [foldlM_cons] at done ⊢
    obtain ⟨middle, here, later⟩ := Fallible.bind_eq_ok done
    obtain ⟨reached, there, still⟩ := applyMapRule_alike reordered settled alike here
    simp only [there]
    exact ih (settled.2 middle here) still later

theorem applyExpansions_eq_ok {result : Steps} (rules : ¬(compose.expand = [] ∧ compose.map = [])) :
    applyExpansions enumeration steps (some compose) (some parser) = .ok result ↔
      ∃ state, applyRules parser enumeration compose steps = .ok state ∧
        findDuplicateStepIds state.result = [] ∧ state.result = result := by
  simp only [applyExpansions, if_neg rules]
  cases applyRules parser enumeration compose steps with
  | error refusal => simp [bind, Except.bind]
  | ok state =>
    by_cases unique : findDuplicateStepIds state.result = []
    · simp [bind, Except.bind, pure, Except.pure, unique]
    · simp [bind, Except.bind, unique, throw, throwThe, MonadExceptOf.throw]

theorem applyRules_alike {reordered : Enumeration} (settled : EachMapRound Settled parser enumeration compose steps)
    (done : applyRules parser enumeration compose steps = .ok next) :
    ∃ result, applyRules parser reordered compose steps = .ok result ∧ Alike next result := by
  rw [applyRules] at done ⊢
  obtain ⟨middle, first, later⟩ := Fallible.bind_eq_ok done
  rw [first]
  exact foldlM_applyMapRule_alike (settled middle first) ⟨rfl, fun _ => .rfl⟩ later

def Enumeration.sorted (steps order : List Step) (perm : order.Perm steps) : Enumeration where
  order _ listed := if listed = steps then order else listed
  perm _ listed := by
    split
    case isTrue same => exact same ▸ perm
    case isFalse => exact .rfl

theorem exists_enumeration (perm : others.Perm (toExpand parser id state rule)) :
    ∃ enumeration : Enumeration, ∀ round, toExpand parser (enumeration.order round) state rule = others := by
  generalize chosen : (fun step : Step => matchGlob parser.filepathMatch rule.select step.id &&
    !state.expanded.contains step.id) = select
  have listed : toExpand parser id state rule = (buildStepMap state.result).filter select := by rw [toExpand, chosen]; rfl
  rw [listed] at perm
  have whole := (perm.append_right _).trans (filter_append_perm select _)
  have inside : others.filter select = others :=
    filter_eq_self.mpr fun step member => (mem_filter.mp (perm.mem_iff.mp member)).2
  have outside : ((buildStepMap state.result).filter fun step => !select step).filter select = [] := by
    refine filter_eq_nil_iff.mpr fun step member => ?_
    simpa using (mem_filter.mp member).2
  refine ⟨Enumeration.sorted _ _ whole, fun round => ?_⟩
  rw [toExpand, chosen, Enumeration.sorted]
  show List.filter select (if _ = _ then _ else _) = others
  rw [if_pos rfl, filter_append, inside, outside, append_nil]

theorem not_mem_entries_last {before : List Expanded} (moved : one.last ≠ one.target.id)
    (member : step ∈ (replaceAllOf (before ++ [one]) steps).flatten) : one.target.id ∉ step.entries := by
  rw [replaceAllOf, map_append, foldl_append, map_singleton, foldl_cons, foldl_nil, Regraft.apply, Forest.flatten_map] at member
  obtain ⟨source, _, rfl⟩ := mem_map.mp member
  show _ ∉ (redirect one.target.id one.last source).entries
  rw [entries_redirect, mem_map]
  rintro ⟨entry, _, same⟩
  rw [redirectId] at same
  split at same
  case isTrue => exact moved same
  case isFalse other => exact other same

section

variable {result : Steps} (oneMap : compose.map = [rule])
  (started : compose.expand.foldlM (applyExpandRule parser) { result := steps } = .ok state)

include oneMap started

theorem applyRules_one (enumeration : Enumeration) :
    applyRules parser enumeration compose steps = applyMapRule parser (enumeration.order 0) state rule := by
  rw [applyRules, started, oneMap]
  show (applyMapRule parser (enumeration.order 0) state rule >>= pure) = _
  cases applyMapRule parser (enumeration.order 0) state rule <;> rfl

theorem applyExpansions_one (done : applyExpansions enumeration steps (some compose) (some parser) = .ok result) :
    ∃ formula, loadExpansion parser .map rule.uses = .ok formula ∧
      result = replaceAllOf (roundOf parser formula (enumeration.order 0) state rule) state.result := by
  obtain ⟨reached, ran, _, rfl⟩ := (applyExpansions_eq_ok (by simp [oneMap])).mp done
  rw [applyRules_one oneMap started] at ran
  obtain ⟨formula, loaded, _, rfl⟩ := applyMapRule_eq_ok.mp ran
  exact ⟨formula, loaded, rfl⟩

end

theorem roundOf_perm (formula : LoadedFormula) (perm : ∀ steps, (enumerate steps).Perm steps) (rule : MapRule) :
    (roundOf parser formula enumerate state rule).Perm (roundOf parser formula id state rule) :=
  (toExpand_own parser state perm rule).map _

theorem exists_last (formula : LoadedFormula) (member : one ∈ roundOf parser formula id state rule) :
    ∃ (enumeration : Enumeration) (before : List Expanded), ∀ round,
      roundOf parser formula (enumeration.order round) state rule = before ++ [one] := by
  obtain ⟨target, listed, rfl⟩ := mem_map.mp member
  have perm := (perm_append_singleton _ _).trans (perm_cons_erase listed).symm
  obtain ⟨enumeration, order⟩ := exists_enumeration perm
  exact ⟨enumeration, _, fun round => by rw [roundOf, order round, map_append, map_singleton]⟩

theorem settled_of_same {result : Steps} (oneMap : compose.map = [rule])
    (separate : EachMapRound Separate parser enumeration compose steps)
    (same : ∀ other, applyExpansions other steps (some compose) (some parser) = .ok result) :
    EachMapRound Settled parser enumeration compose steps := by
  intro state started
  have apartFrom := separate state started
  rw [oneMap] at apartFrom ⊢
  refine ⟨fun formula loaded => ⟨apartFrom.1 formula loaded, ?_⟩, fun _ _ => trivial⟩
  have final : ∀ enumeration : Enumeration, result =
    replaceAllOf (roundOf parser formula (enumeration.order 0) state rule) state.result := by
    intro enumeration
    obtain ⟨_, again, whole⟩ := applyExpansions_one oneMap started (same enumeration)
    obtain rfl := Except.ok.inj (loaded.symm.trans again)
    exact whole
  intro one member exposed other listed apart step fresh named
  by_contra moved
  obtain ⟨otherLast, earlier, order⟩ := exists_last formula listed
  obtain ⟨oneLast, before, reorder⟩ := exists_last formula member
  have perm := reorder 0 ▸ roundOf_perm formula (oneLast.perm 0) rule
  obtain ⟨step, inside, still⟩ :=
    exists_entries_last (apartFrom.1 formula loaded) (once_toExpand parser formula _ rule) perm
    exposed fresh named apart
  rw [← reorder 0, ← final oneLast, final otherLast, order 0] at inside
  exact not_mem_entries_last moved inside still

/-- Where every map rule is settled on the steps it meets, all enumerations of the step maps give
the same result. A single map rule whose instances have none of each other's ids gives the same
result for all of them only if it is settled. -/
theorem applyExpansions_order {enumeration : Enumeration} {compose : ComposeRules} {result : Steps}
    (done : applyExpansions enumeration steps (some compose) (some parser) = .ok result) :
    (EachMapRound Settled parser enumeration compose steps → ∀ other,
      applyExpansions other steps (some compose) (some parser) = .ok result) ∧
      ∀ rule, compose.map = [rule] → EachMapRound Separate parser enumeration compose steps →
        (∀ other, applyExpansions other steps (some compose) (some parser) = .ok result) →
          EachMapRound Settled parser enumeration compose steps := by
  refine ⟨fun settled other => ?_, fun rule oneMap separate same => settled_of_same oneMap separate same⟩
  by_cases rules : compose.expand = [] ∧ compose.map = []
  · rw [applyExpansions, if_pos rules] at done ⊢
    exact done
  · obtain ⟨state, ran, unique, rfl⟩ := (applyExpansions_eq_ok rules).mp done
    obtain ⟨reached, reran, alike, _⟩ := applyRules_alike settled ran
    exact (applyExpansions_eq_ok rules).mpr ⟨reached, reran, alike ▸ unique, alike.symm⟩

def Enumeration.forward : Enumeration := ⟨fun _ steps => steps, fun _ _ => .rfl⟩

def Enumeration.backward : Enumeration :=
  ⟨fun _ steps => steps.reverse, fun _ steps => steps.reverse_perm⟩

def draftAndReview : LoadedFormula where
  type := .expansion
  template := .node { id := "{target}.d".toList } .nil (.node
    { id := "{target}.r".toList, needs := ["{target}.d".toList] } .nil .nil)

def onlyFormula (formula : LoadedFormula) : Parser := ⟨fun _ => .ok formula, fun _ _ => false⟩

def mapTo (select : Text) : ComposeRules := { map := [{ select, uses := "exp".toList }] }

/-- Two steps that a rule expands, and one that needs both. -/
def joined : Steps :=
  .node { id := "p.a".toList } .nil (.node { id := "p.b".toList } .nil
    (.node { id := "end".toList, needs := ["p.a".toList, "p.b".toList] } .nil .nil))

def joinedExpanded : Steps :=
  .node { id := "p.a.d".toList } .nil (.node { id := "p.a.r".toList, needs := ["p.a.d".toList] } .nil
    (.node { id := "p.b.d".toList } .nil (.node { id := "p.b.r".toList, needs := ["p.b.d".toList] } .nil
      (.node { id := "end".toList, needs := ["p.a.r".toList, "p.b.r".toList] } .nil .nil))))

theorem mapTo_eachMapRound {holds : List Expanded → Steps → Prop} {select : Text} (enumeration : Enumeration)
    (round : holds (roundOf (onlyFormula draftAndReview) draftAndReview id { result := steps }
      { select, uses := "exp".toList }) steps) :
    EachMapRound holds (onlyFormula draftAndReview) enumeration (mapTo select) steps := by
  intro state started
  cases started
  refine ⟨fun formula loaded => ?_, fun _ _ => trivial⟩
  cases loaded
  exact round

theorem joined_settled : EachMapRound Settled (onlyFormula draftAndReview) .forward (mapTo "p.*".toList) joined :=
  mapTo_eachMapRound _ (by unfold Settled; decide)

theorem joined_order : EachMapRound Settled (onlyFormula draftAndReview) .forward (mapTo "p.*".toList) joined ∧
    ∀ other, applyExpansions other joined (some (mapTo "p.*".toList)) (some (onlyFormula draftAndReview)) = .ok joinedExpanded :=
  ⟨joined_settled, (applyExpansions_order (by decide)).1 joined_settled⟩

def chained : Steps := .node { id := ['a'] } .nil (.node { id := ['b'], needs := [['a']] } .nil .nil)

def chainedExpanded (first : StepId) : Steps :=
  .node { id := "a.d".toList } .nil (.node { id := "a.r".toList, needs := ["a.d".toList] } .nil
    (.node { id := "b.d".toList, needs := [first] } .nil (.node { id := "b.r".toList, needs := ["b.d".toList] } .nil .nil)))

/-- Expanded first, the step that is needed leaves the other's instance with a reference to itself;
expanded last, it does not. -/
theorem chained_order : (names chained).Nodup ∧
    applyExpansions .forward chained (some (mapTo ['*'])) (some (onlyFormula draftAndReview)) = .ok (chainedExpanded ['a']) ∧
    applyExpansions .backward chained (some (mapTo ['*'])) (some (onlyFormula draftAndReview)) =
    .ok (chainedExpanded "a.r".toList) ∧ chainedExpanded ['a'] ≠ chainedExpanded "a.r".toList := by
  decide

end Beads.Formula
