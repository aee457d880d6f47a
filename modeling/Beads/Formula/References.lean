import Beads.Formula.Order

namespace Beads.Formula

open List hiding flatten

def Resolved (steps : Steps) : Prop := ∀ step ∈ steps.flatten, ∀ entry ∈ step.entries, entry ∈ names steps

instance (steps : Steps) : Decidable (Resolved steps) := inferInstanceAs (Decidable (∀ step ∈ _, _))

namespace Expanded

/-- The template's own references are to its steps, or to the target, whose place they take. -/
def Internal (one : Expanded) : Prop :=
  ∀ step ∈ one.fresh.flatten, ∀ entry ∈ step.entries, entry ∈ names one.fresh ∨ entry = one.target.id

instance (one : Expanded) : Decidable one.Internal :=
  inferInstanceAs (Decidable (∀ step ∈ one.fresh.flatten, ∀ entry ∈ step.entries, _))

def inherits (one : Expanded) : Bool := one.fresh.roots.any (isRoot (one.fresh.roots.map Step.id))

variable {one : Expanded} {step : Step} {entry : StepId}

open Forest

theorem names_steps (one : Expanded) : names one.steps = names one.fresh := by
  rw [steps, propagateTargetDeps]
  split
  · rfl
  · refine map_key_mapRoots (fun step => ?_) _
    split <;> rfl

theorem entries_inherit (target step : Step) : entry ∈ (inherit target step).entries ↔
    entry ∈ target.entries ∨ entry ∈ step.entries := by
  simp only [inherit, Step.entries, mem_append]
  tauto

theorem mem_entries_steps (member : step ∈ one.steps.flatten) (named : entry ∈ step.entries) :
    (∃ source ∈ one.fresh.flatten, entry ∈ source.entries) ∨ (one.inherits = true ∧ entry ∈ one.target.entries) := by
  rw [steps, propagateTargetDeps] at member
  split at member
  · exact .inl ⟨step, member, named⟩
  · obtain old | ⟨root, listed, rfl⟩ := mem_flatten_mapRoots member
    · exact .inl ⟨step, old, named⟩
    · have inside := mem_flatten_of_mem_roots listed
      split at named
      case isTrue free =>
        exact (entries_inherit _ _).mp named |>.symm.imp (fun own => ⟨root, inside, own⟩) fun its =>
          ⟨any_eq_true.mpr ⟨root, listed, free⟩, its⟩
      case isFalse => exact .inl ⟨root, inside, named⟩

theorem exists_inherited (root : one.inherits = true) (named : entry ∈ one.target.entries) :
    ∃ step ∈ one.steps.flatten, entry ∈ step.entries := by
  obtain ⟨step, listed, free⟩ := any_eq_true.mp root
  have some : ¬(one.target.needs = [] ∧ one.target.dependsOn = []) := by
    rintro ⟨needs, depends⟩
    rw [Step.entries, needs, depends] at named
    cases named
  refine ⟨inherit one.target step, mem_flatten_of_mem_roots ?_, (entries_inherit _ _).mpr (.inl named)⟩
  rw [steps, propagateTargetDeps, if_neg some, roots_mapRoots]
  exact mem_map.mpr ⟨step, listed, if_pos free⟩

theorem last_mem (made : one.fresh ≠ .nil) : one.last ∈ names one.steps := by
  have nonempty : one.steps.roots ≠ [] := by
    intro none
    refine made ?_
    have empty : one.steps = .nil := by
      cases whole : one.steps with
      | nil => rfl
      | node value children rest => simp [whole, roots] at none
    have noNames := names_steps one
    rw [empty] at noNames
    cases whole : one.fresh with
    | nil => rfl
    | node value children rest => simp [whole, names, flatten] at noNames
  rw [last, getLast?_eq_some_getLast nonempty]
  exact mem_map.mpr ⟨_, mem_flatten_of_mem_roots (getLast_mem nonempty), rfl⟩

end Expanded

def redirectAll (instances : List Expanded) (entry : StepId) : StepId :=
  instances.foldl (fun entry one => redirectId one.target.id one.last entry) entry

variable {instances others : List Expanded} {steps : Steps} {entry : StepId} {one : Expanded}

open Regraft Expanded Fallible

theorem entries_relabelAll (instances : List Expanded) (step : Step) :
    (relabelAll (instances.map regraft) step).entries = step.entries.map (redirectAll instances) := by
  induction instances generalizing step with
  | nil => simp [relabelAll, funext (show ∀ entry, redirectAll [] entry = entry from fun _ => rfl)]
  | cons one rest ih =>
    have later := ih (redirect one.target.id one.last step)
    rw [entries_redirect, map_map] at later
    exact later

theorem redirectAll_cons : redirectAll (one :: instances) entry =
    redirectAll instances (redirectId one.target.id one.last entry) := rfl

theorem redirectAll_stays (stays : ∀ one ∈ instances, entry = one.target.id →
    one.last = one.target.id) : redirectAll instances entry = entry := by
  induction instances with
  | nil => rfl
  | cons one rest ih =>
    rw [forall_mem_cons] at stays
    have here : redirectId one.target.id one.last entry = entry := by
      rw [redirectId]
      split
      case isTrue same => rw [stays.1 same, same]
      case isFalse => rfl
    rw [redirectAll_cons, here, ih stays.2]

def Ends (instances : List Expanded) : Prop :=
  ∀ one ∈ instances, ∀ other ∈ instances, one.target.id ≠ other.target.id →
    one.last = other.target.id → other.last = other.target.id

theorem Ends.mono (ends : Ends instances) (among : others ⊆ instances) : Ends others :=
  fun one member other listed => ends one (among member) other (among listed)

theorem redirectAll_of_mem (ends : Ends instances)
    (once : (instances.map fun one => one.target.id).Nodup) (member : one ∈ instances) :
    redirectAll instances one.target.id = one.last := by
  induction instances with
  | nil => cases member
  | cons first rest ih =>
    rw [map_cons, nodup_cons] at once
    have later : ∀ other ∈ rest, other.target.id ≠ first.target.id :=
      fun other listed same => once.1 (mem_map.mpr ⟨other, listed, same⟩)
    obtain rfl | member := mem_cons.mp member
    · rw [redirectAll_cons, redirectId, if_pos rfl]
      exact redirectAll_stays fun other listed => ends one (.head _) other (.tail _ listed) (later other listed).symm
    · rw [redirectAll_cons, redirectId, if_neg (later one member)]
      exact ih (ends.mono (subset_cons_self _ _)) once.2 member

theorem redirectAll_of_free (free : ∀ one ∈ instances, one.target.id ≠ entry) : redirectAll instances entry = entry :=
  redirectAll_stays fun one member same => absurd same.symm (free one member)

section

variable (instances) (steps) (id : StepId)

def Remains : Prop :=
  (Outermost instances steps id ∧ ∀ one ∈ instances, one.target.id ≠ id) ∨
    ∃ one ∈ instances, Outermost instances steps one.target.id ∧ id ∈ names one.steps

/-- A reference to the id, redirected by the whole round, leads to a step of the result. -/
def Arrives : Prop :=
  (∀ one ∈ instances, one.target.id = id → Remains instances steps one.last) ∧
    ((∀ one ∈ instances, one.target.id ≠ id) → Remains instances steps id)

instance : Decidable (Remains instances steps id) :=
  inferInstanceAs (Decidable ((_ ∧ ∀ one ∈ instances, _) ∨ ∃ one ∈ instances, _))

instance : Decidable (Arrives instances steps id) :=
  inferInstanceAs (Decidable ((∀ one ∈ instances, _ → _) ∧ ((∀ one ∈ instances, _) → _)))

/-- A step that stays needs nothing that is taken out below a target, and an instance takes over no
entry that names such a step or another target, unless a step of that name remains. -/
def Anchored : Prop :=
  (∀ step ∈ (Regraft.stubs Step.id (instances.map Expanded.regraft) steps).flatten,
    (∀ one ∈ instances, one.target.id ≠ step.id) →
    ∀ entry ∈ step.entries, ¬Outermost instances steps entry → Arrives instances steps entry) ∧
  ∀ one ∈ instances, Outermost instances steps one.target.id → one.inherits = true →
    ∀ entry ∈ one.target.entries, entry ≠ one.target.id →
      (¬Outermost instances steps entry ∨ ∃ other ∈ instances, other.target.id = entry) →
      Remains instances steps entry ∧ Arrives instances steps entry

instance : Decidable (Anchored instances steps) :=
  inferInstanceAs (Decidable ((∀ step ∈ (Regraft.stubs Step.id (instances.map Expanded.regraft) steps).flatten,
    (∀ one ∈ instances, _) → ∀ entry ∈ step.entries, _ → _) ∧
    ∀ one ∈ instances, _ → _ → ∀ entry ∈ one.target.entries, _ → (_ ∨ ∃ other ∈ instances, _) → _))

def Kept : Prop := Separate instances steps ∧ Anchored instances steps

instance : Decidable (Kept instances steps) := inferInstanceAs (Decidable (_ ∧ _))

end

theorem arrives_iff (ends : Ends instances) (once : (instances.map fun one => one.target.id).Nodup) :
    Arrives instances steps entry ↔ Remains instances steps (redirectAll instances entry) := by
  by_cases target : ∃ one ∈ instances, one.target.id = entry
  · obtain ⟨one, member, rfl⟩ := target
    rw [redirectAll_of_mem ends once member]
    refine ⟨fun arrives => arrives.1 one member rfl, fun remains =>
      ⟨fun other listed same => ?_, fun free => absurd rfl (free one member)⟩⟩
    rwa [inj_on_of_nodup_map once listed member same]
  · have free : ∀ one ∈ instances, one.target.id ≠ entry := fun one member same => target ⟨one, member, same⟩
    rw [redirectAll_of_free free]
    exact ⟨fun arrives => arrives.2 free, fun remains => ⟨fun one member same => absurd same (free one member), fun _ => remains⟩⟩

theorem named_regrafts {step : Step} : named Step.id (instances.map regraft) step = false ↔
    ∀ one ∈ instances, one.target.id ≠ step.id := by
  rw [named_eq_false, forall_mem_map]
  exact forall₂_congr fun _ _ => ne_comm

section

variable (order : others.Perm instances)
include order

theorem Outermost.perm {id : StepId} : Outermost others steps id ↔ Outermost instances steps id :=
  Regraft.Exposed.perm (order.map regraft)

theorem Remains.perm {id : StepId} : Remains others steps id ↔ Remains instances steps id := by
  simp only [Remains, Outermost.perm order, order.mem_iff]

theorem Arrives.perm {id : StepId} : Arrives others steps id ↔ Arrives instances steps id := by
  simp only [Arrives, Remains.perm order, order.mem_iff]

theorem Separate.perm : Separate others steps ↔ Separate instances steps := by
  simp only [Separate, Outermost.perm order, order.mem_iff]

theorem Anchored.perm : Anchored others steps ↔ Anchored instances steps := by
  simp only [Anchored, stubs_perm (order.map regraft), Outermost.perm order, Remains.perm order,
    Arrives.perm order, order.mem_iff]

end

theorem arrives_of_outermost (made : ∀ one ∈ instances, one.fresh ≠ .nil)
    (exposed : Outermost instances steps entry) : Arrives instances steps entry := by
  refine ⟨fun one member same => .inr ⟨one, member, ?_, last_mem (made one member)⟩, fun free => .inl ⟨exposed, free⟩⟩
  rwa [same]

section

variable (separate : Separate instances steps) (once : (instances.map fun one => one.target.id).Nodup)

include separate once

theorem mem_names_iff {id : StepId} :
    id ∈ names (replaceAllOf instances steps) ↔ Remains instances steps id := by
  have round := separate.round once
  rw [names, mem_map]
  constructor
  · rintro ⟨value, member, rfl⟩
    obtain ⟨source, outside, free, rfl⟩ | ⟨before, _, after, split, exposed, source, fresh, rfl⟩ := (mem_round round).mp member
    · rw [name_relabelAll round.kept]
      exact .inl ⟨⟨source, outside, rfl⟩, named_regrafts.mp free⟩
    · have whole : ∀ regraft ∈ _, regraft ∈ instances.map Expanded.regraft :=
        fun regraft listed => split ▸ mem_append_right before listed
      rw [name_relabelAll fun regraft listed => round.kept regraft (whole regraft listed)]
      obtain ⟨one, listed, rfl⟩ := mem_map.mp (whole _ (.head _))
      exact .inr ⟨one, listed, exposed, mem_map.mpr ⟨source, fresh, rfl⟩⟩
  · rintro (⟨⟨source, outside, rfl⟩, free⟩ | ⟨one, listed, exposed, inside⟩)
    · exact ⟨_, (mem_round round).mpr (.inl ⟨source, outside, named_regrafts.mpr free, rfl⟩), name_relabelAll round.kept⟩
    · obtain ⟨source, fresh, rfl⟩ := mem_map.mp inside
      obtain ⟨before, after, split⟩ := append_of_mem (mem_map_of_mem listed : one.regraft ∈ instances.map Expanded.regraft)
      refine ⟨_, (mem_round round).mpr (.inr ⟨before, one.regraft, after, split, exposed, source, fresh, rfl⟩), ?_⟩
      exact name_relabelAll fun regraft member => round.kept regraft (split ▸ mem_append_right before member)

theorem Anchored.remains_placed (anchored : Anchored instances steps) (internal : one.Internal)
    (made : ∀ one ∈ instances, one.fresh ≠ .nil)
    {before after : List Expanded} (split : instances = before ++ one :: after)
    (exposed : Outermost instances steps one.target.id)
    {step : Step} (fresh : step ∈ one.steps.flatten) (named : entry ∈ step.entries) :
    Remains instances steps (redirectAll (one :: after) entry) := by
  have among : one :: after ⊆ instances := split ▸ subset_append_right _ _
  have member := among (.head _)
  have onceAfter : ((one :: after).map fun one => one.target.id).Nodup := by
    rw [split, map_append] at once
    exact once.of_append_right
  have own : ∀ {other}, other ∈ one :: after → redirectAll (one :: after) other.target.id = other.last :=
    redirectAll_of_mem (Ends.mono separate.1 among) onceAfter
  by_cases itself : entry = one.target.id
  · rw [itself, own (.head _)]
    exact .inr ⟨one, member, exposed, last_mem (made one member)⟩
  obtain ⟨source, inside, its⟩ | ⟨root, its⟩ := mem_entries_steps fresh named
  · -- The template's own steps are no targets of the round.
    have local' : entry ∈ names one.steps := by
      rw [names_steps]
      exact (internal source inside entry its).resolve_right itself
    have others : ∀ other ∈ one :: after, other.target.id ≠ entry := by
      rintro other listed rfl
      exact separate.2 one member exposed other (among listed) (Ne.symm itself) local'
    rw [redirectAll_of_free others]
    exact .inr ⟨one, member, exposed, local'⟩
  · by_cases lost : ¬Outermost instances steps entry ∨ ∃ other ∈ instances, other.target.id = entry
    · obtain ⟨remains, arrives⟩ := anchored.2 one member exposed root entry its itself lost
      by_cases later : ∃ other ∈ one :: after, other.target.id = entry
      · obtain ⟨other, listed, rfl⟩ := later
        rw [own listed]
        exact arrives.1 other (among listed) rfl
      · rwa [redirectAll_of_free fun other listed same => later ⟨other, listed, same⟩]
    · obtain ⟨outer, free⟩ := not_or.mp lost
      have none : ∀ other ∈ instances, other.target.id ≠ entry := fun other listed same => free ⟨other, listed, same⟩
      rw [redirectAll_of_free fun other listed => none other (among listed)]
      exact .inl ⟨not_not.mp outer, none⟩

theorem Anchored.resolved (anchored : Anchored instances steps) (internal : ∀ one ∈ instances, one.Internal)
    (made : ∀ one ∈ instances, one.fresh ≠ .nil) : Resolved (replaceAllOf instances steps) := by
  intro value member entry named
  rw [mem_names_iff separate once]
  obtain ⟨source, outside, free, rfl⟩ | ⟨before, regraft, after, split,
    exposed, source, fresh, rfl⟩ := (mem_round (separate.round once)).mp member
  · rw [entries_relabelAll] at named
    obtain ⟨old, its, rfl⟩ := mem_map.mp named
    rw [← arrives_iff separate.1 once]
    by_cases outer : Outermost instances steps old
    · exact arrives_of_outermost made outer
    · exact anchored.1 source outside (named_regrafts.mp free) old its outer
  · obtain ⟨earlier, rest, whole, _, more⟩ := map_eq_append_iff.mp split
    obtain ⟨one, later, rfl, rfl, rfl⟩ := map_eq_cons_iff.mp more
    rw [← map_cons, entries_relabelAll] at named
    obtain ⟨old, its, rfl⟩ := mem_map.mp named
    exact anchored.remains_placed separate once (internal one (by simp [whole])) made whole exposed fresh its

theorem anchored_of_resolved (all : ∀ others, others.Perm instances →
    Resolved (replaceAllOf others steps)) : Anchored instances steps := by
  have round := separate.round once
  constructor
  · intro step outside free entry named _
    rw [arrives_iff separate.1 once, ← mem_names_iff separate once]
    refine all instances .rfl (relabelAll (instances.map regraft) step) ?_ _ ?_
    · exact (mem_round round).mpr (.inl ⟨step, outside, named_regrafts.mpr free, rfl⟩)
    · rw [entries_relabelAll]
      exact mem_map_of_mem named
  · intro one member exposed root entry its apart _
    obtain ⟨step, fresh, named⟩ := exists_inherited root its
    constructor
    · have perm := (perm_append_singleton _ _).trans (perm_cons_erase member).symm
      obtain ⟨value, inside, still⟩ := exists_entries_last separate once perm exposed fresh named (Ne.symm apart)
      have found := all _ perm value inside entry still
      rwa [mem_names_iff ((Separate.perm perm).mpr separate) ((perm.map _).nodup_iff.mpr once), Remains.perm perm] at found
    · have perm := (perm_cons_erase member).symm
      have reordered := (Separate.perm perm).mpr separate
      have onceAgain := (perm.map _).nodup_iff.mpr once
      rw [← Arrives.perm perm, arrives_iff reordered.1 onceAgain, ← mem_names_iff reordered onceAgain]
      refine all _ perm (relabelAll ((one :: instances.erase one).map regraft) step) ?_ _ ?_
      · refine (mem_round (reordered.round onceAgain)).mpr (.inr ⟨[], one.regraft, _, rfl, ?_, step, fresh, rfl⟩)
        exact (Outermost.perm perm).mpr exposed
      · rw [entries_relabelAll]
        exact mem_map_of_mem named

end

section

variable (holds : List Expanded → Steps → Prop) (parser : Parser)

def EachExpand : List ExpandRule → ExpansionState → Prop
  | [], _ => True
  | rule :: rest, state =>
    (∀ target formula, (buildStepMap state.result).find? (·.id == rule.target) = some target → rule.target ∉ state.expanded →
      loadExpansion parser .expand rule.uses = .ok formula → holds [instanceOf formula rule.vars target] state.result) ∧
    ∀ next, applyExpandRule parser state rule = .ok next → EachExpand rest next

/-- Each expand rule is a round of one target; the map rules follow. -/
def EachRound (enumeration : Enumeration) (compose : ComposeRules) (steps : Steps) : Prop :=
  EachExpand holds parser compose.expand { result := steps } ∧ EachMapRound holds parser enumeration compose steps

end

variable {parser : Parser} {formula : LoadedFormula} {overrides : List (Text × Text)}
    {target : Step} {state next : ExpansionState}
  {enumeration : Enumeration} {compose : ComposeRules} {result : Steps}

theorem loadExpansion_template {rule : RuleKind} {name : Text}
    (loaded : loadExpansion parser rule name = .ok formula) : formula.template ≠ .nil := by
  rw [loadExpansion] at loaded
  split at loaded
  · cases loaded
  · split_ifs at loaded with wrong empty
    cases loaded
    exact empty

theorem instanceOf_fresh (template : formula.template ≠ .nil) (deep : expandable formula overrides target = true) :
    (instanceOf formula overrides target).fresh ≠ .nil := by
  obtain ⟨fresh, made⟩ := ok_of_isOk deep
  rw [instanceOf, made]
  cases whole : formula.template with
  | nil => exact absurd whole template
  | node tmpl children rest =>
    rw [expandStep, whole, expandStepWith, if_neg (by decide)] at made
    obtain ⟨below, _, more⟩ := bind_eq_ok made
    obtain ⟨after, _, ⟨⟩⟩ := bind_eq_ok more
    rintro ⟨⟩

theorem applyExpandRule_resolved {rule : ExpandRule} {rest : List ExpandRule} (resolved : Resolved state.result)
    (internal : EachExpand (fun instances _ => ∀ one ∈ instances, one.Internal) parser (rule :: rest) state)
    (kept : EachExpand Kept parser (rule :: rest) state)
    (done : applyExpandRule parser state rule = .ok next) : Resolved next.result := by
  rw [applyExpandRule] at done
  split at done
  · cases done
  case h_2 target found =>
    split at done
    · cases done
      exact resolved
    case isFalse fresh =>
      obtain ⟨formula, loaded, ran⟩ := bind_eq_ok done
      obtain ⟨deep, rfl⟩ := replaceTarget_eq_ok.mp ran
      obtain ⟨separate, anchored⟩ := kept.1 target formula found fresh loaded
      refine anchored.resolved separate (nodup_singleton _) (internal.1 target formula found fresh loaded) fun one member => ?_
      obtain rfl := mem_singleton.mp member
      exact instanceOf_fresh (loadExpansion_template loaded) deep

theorem applyMapRule_resolved {rule : MapRule} {round : Nat} {rest : List (MapRule × Nat)}
    (internal : EachMap (fun instances _ => ∀ one ∈ instances, one.Internal) parser enumeration ((rule, round) :: rest) state)
    (kept : EachMap Kept parser enumeration ((rule, round) :: rest) state)
    (done : applyMapRule parser (enumeration.order round) state rule = .ok next) : Resolved next.result := by
  obtain ⟨formula, loaded, deep, rfl⟩ := applyMapRule_eq_ok.mp done
  obtain ⟨separate, anchored⟩ := kept.1 formula loaded
  have order : (roundOf parser formula (enumeration.order round) state rule).Perm (roundOf parser formula id state rule) :=
    roundOf_perm formula (enumeration.perm round) rule
  refine ((Anchored.perm order).mpr anchored).resolved ((Separate.perm order).mpr separate)
    ((order.map _).nodup_iff.mpr (once_toExpand parser formula state rule)) (fun one member =>
      internal.1 formula loaded one (order.mem_iff.mp member)) fun one member => ?_
  obtain ⟨target, listed, rfl⟩ := mem_map.mp member
  exact instanceOf_fresh (loadExpansion_template loaded) (deep target listed)

theorem expandRules_resolved {rules : List ExpandRule} (resolved : Resolved state.result)
    (internal : EachExpand (fun instances _ => ∀ one ∈ instances, one.Internal) parser rules state)
    (kept : EachExpand Kept parser rules state)
    (done : rules.foldlM (applyExpandRule parser) state = .ok next) : Resolved next.result := by
  induction rules generalizing state with
  | nil =>
    cases done
    exact resolved
  | cons rule rest ih =>
    rw [foldlM_cons] at done
    obtain ⟨middle, first, later⟩ := bind_eq_ok done
    exact ih (applyExpandRule_resolved resolved internal kept first) (internal.2 middle first) (kept.2 middle first) later

theorem mapRules_resolved {rules : List (MapRule × Nat)} (resolved : Resolved state.result)
    (internal : EachMap (fun instances _ => ∀ one ∈ instances, one.Internal) parser enumeration rules state)
    (kept : EachMap Kept parser enumeration rules state)
    (done : rules.foldlM (fun state (rule, round) => applyMapRule parser (enumeration.order round) state rule) state = .ok next) :
    Resolved next.result := by
  induction rules generalizing state with
  | nil =>
    cases done
    exact resolved
  | cons first rest ih =>
    obtain ⟨rule, round⟩ := first
    rw [foldlM_cons] at done
    obtain ⟨middle, here, later⟩ := bind_eq_ok done
    exact ih (applyMapRule_resolved internal kept here) (internal.2 middle here) (kept.2 middle here) later

section

variable {rule : MapRule} (oneMap : compose.map = [rule])
    (started : compose.expand.foldlM (applyExpandRule parser) { result := steps } = .ok state)
  (loaded : loadExpansion parser .map rule.uses = .ok formula)
    (separate : Separate (roundOf parser formula id state rule) state.result)
  (done : applyExpansions enumeration steps (some compose) (some parser) = .ok result)

include oneMap started loaded separate done

theorem applyExpansions_one_ok (other : Enumeration) :
    applyExpansions other steps (some compose) (some parser) =
      .ok (replaceAllOf (roundOf parser formula (other.order 0) state rule) state.result) := by
  have rules : ¬(compose.expand = [] ∧ compose.map = []) := by simp [oneMap]
  obtain ⟨reached, ran, unique, rfl⟩ := (applyExpansions_eq_ok rules).mp done
  rw [applyRules_one oneMap started] at ran
  obtain ⟨_, again, deep, rfl⟩ := applyMapRule_eq_ok.mp ran
  obtain rfl := Except.ok.inj (loaded.symm.trans again)
  have mine := toExpand_own parser state (enumeration.perm 0) rule
  have its := toExpand_own parser state (other.perm 0) rule
  have round := separate.round (once_toExpand parser formula state rule)
  have sameNames : names (replaceAllOf (roundOf parser formula (other.order 0) state rule) state.result) =
      names (replaceAllOf (roundOf parser formula (enumeration.order 0) state rule) state.result) :=
    (round.names_perm ((its.map _).map _)).trans (round.names_perm ((mine.map _).map _)).symm
  have reran := applyMapRule_eq_ok.mpr ⟨formula, loaded,
    fun target member => deep target ((its.trans mine.symm).mem_iff.mp member), rfl⟩
  refine (applyExpansions_eq_ok rules).mpr ⟨_, (applyRules_one oneMap started other).trans reran, ?_, rfl⟩
  show findDuplicateStepIds (replaceAllOf (roundOf parser formula (other.order 0) state rule) state.result) = []
  rw [findDuplicateStepIds, sameNames]
  exact unique

theorem anchored_of_all
    (all : ∀ other result, applyExpansions other steps (some compose) (some parser) = .ok result →
    Resolved result) :
    Anchored (roundOf parser formula id state rule) state.result := by
  refine anchored_of_resolved separate (once_toExpand parser formula state rule) fun others perm => ?_
  have targets : others.map target |>.Perm (toExpand parser id state rule) := by
    have listed := perm.map target
    rwa [roundOf, map_map, show target ∘ instanceOf formula rule.vars = id from rfl, map_id] at listed
  have instances : (others.map target).map (instanceOf formula rule.vars) = others := by
    rw [map_map]
    refine (map_congr_left fun one member => ?_).trans (map_id _)
    obtain ⟨target, _, rfl⟩ := mem_map.mp (perm.mem_iff.mp member)
    rfl
  obtain ⟨order, listed⟩ := exists_enumeration targets
  have reran := applyExpansions_one_ok oneMap started loaded separate done order
  rw [roundOf, listed 0, instances] at reran
  exact all order _ reran

end

theorem separate_singleton (one : Expanded) (steps : Steps) : Separate [one] steps := by
  simp only [Separate, mem_singleton, forall_eq]
  exact ⟨fun apart => absurd rfl apart, fun _ apart => absurd rfl apart⟩

theorem expand_kept_of_resolved {rule : ExpandRule} (oneExpand : compose.expand = [rule]) (noMap : compose.map = [])
    (done : applyExpansions enumeration steps (some compose) (some parser) = .ok result)
    (resolved : Resolved result) : EachRound Kept parser enumeration compose steps := by
  obtain ⟨state, ran, _, rfl⟩ := (applyExpansions_eq_ok (by simp [oneExpand])).mp done
  rw [applyRules, oneExpand, noMap] at ran
  obtain ⟨middle, first, ⟨⟩⟩ := bind_eq_ok ran
  obtain ⟨reached, here, ⟨⟩⟩ := bind_eq_ok first
  refine ⟨?_, fun state _ => by rw [noMap]; trivial⟩
  rw [oneExpand]
  refine ⟨fun target formula found fresh loaded => ⟨separate_singleton _ _, ?_⟩, fun _ _ => trivial⟩
  rw [applyExpandRule, found] at here
  simp only [if_neg fresh, loaded] at here
  obtain ⟨_, rfl⟩ := replaceTarget_eq_ok.mp here
  refine anchored_of_resolved (separate_singleton _ _) (nodup_singleton _) fun others perm => ?_
  rwa [perm_singleton.mp perm]

/-- If the entries of the list and of the instances of the templates name steps, then so do those of
the result, as long as no rule loses a reference. An expand rule that comes alone must not lose one,
nor a single map rule whose instances have none of each other's ids, or some enumeration gives a
list with an entry that names no step. -/
theorem applyExpansions_resolved
    (done : applyExpansions enumeration steps (some compose) (some parser) = .ok result)
    (resolved : Resolved steps)
    (internal : EachRound (fun instances _ => ∀ one ∈ instances, one.Internal) parser enumeration compose steps) :
    (EachRound Kept parser enumeration compose steps → Resolved result) ∧
      (∀ rule, compose.expand = [rule] → compose.map = [] → Resolved result → EachRound Kept parser enumeration compose steps) ∧
      ∀ rule, compose.map = [rule] → EachMapRound Separate parser enumeration compose steps →
        (∀ other result, applyExpansions other steps (some compose) (some parser) = .ok result →
          Resolved result) → EachMapRound Kept parser enumeration compose steps := by
  refine ⟨fun kept => ?_, fun rule oneExpand noMap => expand_kept_of_resolved oneExpand noMap done,
    fun rule oneMap separate all state started => ?_⟩
  · by_cases rules : compose.expand = [] ∧ compose.map = []
    · rw [applyExpansions, if_pos rules] at done
      exact Except.ok.inj done ▸ resolved
    · obtain ⟨state, ran, _, rfl⟩ := (applyExpansions_eq_ok rules).mp done
      obtain ⟨middle, first, later⟩ := Fallible.bind_eq_ok ran
      exact mapRules_resolved (expandRules_resolved resolved internal.1 kept.1 first)
        (internal.2 middle first) (kept.2 middle first) later
  · have apart := separate state started
    rw [oneMap] at apart ⊢
    exact ⟨fun formula loaded => ⟨apart.1 formula loaded,
      anchored_of_all oneMap started loaded (apart.1 formula loaded) done all⟩, fun _ _ => trivial⟩

theorem mapTo_eachRound {holds : List Expanded → Steps → Prop} {select : Text} {steps : Steps} (enumeration : Enumeration)
    (round : holds (roundOf (onlyFormula draftAndReview) draftAndReview id { result := steps }
      { select, uses := "exp".toList }) steps) :
    EachRound holds (onlyFormula draftAndReview) enumeration (mapTo select) steps :=
  ⟨trivial, mapTo_eachMapRound enumeration round⟩

theorem joined_resolved :
    EachRound Kept (onlyFormula draftAndReview) .backward (mapTo "p.*".toList) joined ∧
    Resolved joinedExpanded := by
  have kept : EachRound Kept (onlyFormula draftAndReview) .backward (mapTo "p.*".toList) joined := mapTo_eachRound _ (by decide)
  have done : applyExpansions .backward joined (some (mapTo "p.*".toList))
    (some (onlyFormula draftAndReview)) = .ok joinedExpanded := by decide
  exact ⟨kept, (applyExpansions_resolved done (by decide) (mapTo_eachRound _ (by decide))).1 kept⟩

/-- A step with one below it, and a step that needs that one. -/
def nested : Steps := .node { id := ['a'] } (.node { id := ['c'] } .nil .nil) (.node { id := ['b'], needs := [['c']] } .nil .nil)

def expandOne (target : StepId) : ComposeRules := { expand := [{ target, uses := "exp".toList }] }

def nestedExpanded : Steps :=
  .node { id := "a.d".toList } .nil (.node { id := "a.r".toList, needs := ["a.d".toList] } .nil
    (.node { id := ['b'], needs := [['c']] } .nil .nil))

/-- The instance of a step keeps its need of a step that the same rule has replaced before it, and a
step below a target is gone while others still need it. -/
theorem chained_nested_unresolved : Resolved chained ∧ Resolved nested ∧
    EachRound (fun instances _ => ∀ one ∈ instances, one.Internal) (onlyFormula draftAndReview) .forward (mapTo ['*']) chained ∧
    applyExpansions .forward chained (some (mapTo ['*'])) (some (onlyFormula draftAndReview)) = .ok (chainedExpanded ['a']) ∧
    applyExpansions .forward nested (some (expandOne ['a'])) (some (onlyFormula draftAndReview)) =
    .ok nestedExpanded ∧ ¬Resolved (chainedExpanded ['a']) ∧ ¬Resolved nestedExpanded :=
  ⟨by decide, by decide, mapTo_eachRound _ (by decide), by decide, by decide, by decide, by decide⟩

end Beads.Formula
