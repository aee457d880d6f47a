import Beads.Formula.Expand

namespace Beads.Formula

open Fallible List

variable {ρ : Type}

/-- A bond point or a step, of which only the id is read. -/
structure Named (ρ : Type) where
  id : Text
  content : ρ

/-- The lists of `ComposeRules`. -/
structure ComposeLists (ρ : Type) where
  bondPoints : List (Named ρ) := []
  hooks : List ρ := []
  expand : List ρ := []
  map : List ρ := []
  branch : List ρ := []
  gate : List ρ := []
  aspects : List Text := []

/-- The members of a formula that `Resolve` does not name. -/
structure OwnSettings (ρ : Type) where
  template : List ρ := []
  advice : List ρ := []
  pointcuts : List ρ := []
  phase : Text := []
  pour : Bool := false

structure ParsedFormula (ρ : Type) where
  formula : Text
  description : Text := []
  version : Int := 1
  type : Text := []
  source : Text := []
  extended : List Text := []
  vars : List (Text × ρ) := []
  steps : List (Named ρ) := []
  compose : Option (ComposeLists ρ) := none
  settings : OwnSettings ρ := {}

inductive ResolveError where
  | circular (chain : List Text)
  | missing (name reason : Text)
  | parent (name : Text) (reason : ResolveError)
  | invalid
  | exhausted

/-- `loadFormula`, and whether `Validate` passes. -/
structure Resolver (ρ : Type) where
  loadFormula : Text → Except Text (ParsedFormula ρ)
  validate : ParsedFormula ρ → Bool

def lastIndex (items : List (Named ρ)) (id : Text) : Option Nat :=
  (List.range items.length).reverse.find? fun i => items[i]?.map Named.id == some id

/-- `mergeSteps`, and the merge of the bond points: an id of the base is overridden in place. -/
def mergeById (base overlay : List (Named ρ)) : List (Named ρ) :=
  overlay.foldl (fun result item =>
    match lastIndex base item.id with
    | some idx => result.set idx item
    | none => result ++ [item]) base

def mergeComposeRules : (base overlay : Option (ComposeLists ρ)) → Option (ComposeLists ρ)
  | base, none => base
  | none, some overlay => some overlay
  | some base, some overlay => some
    { bondPoints := mergeById base.bondPoints overlay.bondPoints
      hooks := base.hooks ++ overlay.hooks
      expand := base.expand ++ overlay.expand
      map := base.map ++ overlay.map }

namespace Resolver

def mergeParent (merged parent : ParsedFormula ρ) : ParsedFormula ρ :=
  { merged with
    vars := merged.vars ++ parent.vars.filter fun entry => (merged.vars.lookup entry.1).isNone
    steps := merged.steps ++ parent.steps
    compose := mergeComposeRules merged.compose parent.compose }

def mergeChild (merged formula : ParsedFormula ρ) : ParsedFormula ρ :=
  { merged with
    vars := formula.vars ++ merged.vars.filter fun entry => (formula.vars.lookup entry.1).isNone
    steps := mergeById merged.steps formula.steps
    compose := mergeComposeRules merged.compose formula.compose }

def validated (resolver : Resolver ρ) (formula : ParsedFormula ρ) : Except ResolveError (ParsedFormula ρ) :=
  if resolver.validate formula then .ok formula else .error .invalid

/-- One round of the loop over the parents. -/
def addParent (resolver : Resolver ρ) (resolve : ParsedFormula ρ →
    Except ResolveError (ParsedFormula ρ)) (merged : ParsedFormula ρ)
    (name : Text) : Except ResolveError (ParsedFormula ρ) := do
  let loaded ← (resolver.loadFormula name).mapError (.missing name)
  let parent ← (resolve loaded).mapError (.parent name)
  return mergeParent merged parent

/-- Named, so that membership tests share one proof. -/
local instance lawful_name : LawfulBEq Text := inferInstance

def resolve (resolver : Resolver ρ) : Nat → List Text → ParsedFormula ρ → Except ResolveError (ParsedFormula ρ)
  | 0, _, _ => .error .exhausted
  | fuel + 1, resolvingChain, formula =>
    let chain := resolvingChain ++ [formula.formula]
    if formula.formula ∈ resolvingChain then .error (.circular chain)
    else if formula.extended = [] then resolver.validated formula
    else do
      let merged ← formula.extended.foldlM (resolver.addParent (resolver.resolve fuel chain))
        ⟨formula.formula, formula.description, formula.version, formula.type, formula.source, [], [], [], none, {}⟩
      resolver.validated (mergeChild merged formula)

/-- The compose rules that the formula and its ancestors declare, along every
path of the hierarchy. -/
def declared (resolver : Resolver ρ) : Nat → ParsedFormula ρ → List (ComposeLists ρ)
  | 0, _ => []
  | fuel + 1, formula =>
    (formula.extended.flatMap fun name => ((resolver.loadFormula name).toOption.map (resolver.declared fuel)).getD []) ++
      formula.compose.toList

end Resolver

theorem lastIndex_some {items : List (Named ρ)} {id : Text} {idx : Nat}
    (found : lastIndex items id = some idx) : (items.map Named.id)[idx]? = some id := by
  simpa using find?_some found

theorem ids_mergeById (base overlay : List (Named ρ)) :
    (base ++ overlay).map Named.id ⊆ (mergeById base overlay).map Named.id := by
  rw [mergeById]
  -- over the overlay; the items of the base keep their places
  suffices steps : ∀ result : List (Named ρ),
      (∀ (idx : Nat) (id : Text), (base.map Named.id)[idx]? = some id →
      (result.map Named.id)[idx]? = some id) → (result ++ overlay).map Named.id ⊆
        (overlay.foldl (fun result item => match lastIndex base item.id with
        | some idx => result.set idx item
        | none => result ++ [item]) result).map Named.id from steps base fun _ _ => id
  induction overlay with
  | nil => simp
  | cons item rest ih =>
    intro result placed
    rw [foldl_cons]
    cases found : lastIndex base item.id with
    | none =>
      refine List.Subset.trans (by simp) (ih (result ++ [item]) fun idx id there => ?_)
      have here := placed idx id there
      rw [map_append, List.getElem?_append_left (List.getElem?_eq_some_iff.mp here).1, here]
    | some idx =>
      have place := placed idx _ (lastIndex_some found)
      have ids : (result.set idx item).map Named.id = result.map Named.id := by
        obtain ⟨bound, same⟩ := List.getElem?_eq_some_iff.mp place
        rw [map_set, ← same, set_getElem_self]
      refine List.Subset.trans ?_ (ih (result.set idx item) (by simpa only [ids] using placed))
      have inside := mem_of_getElem? place
      rw [map_append, map_append, ids, map_cons]
      exact append_subset.mpr ⟨subset_append_left _ _,
        cons_subset.mpr ⟨mem_append_left _ inside, subset_append_right _ _⟩⟩

/-- The lists that a merge takes from both sides. -/
structure ComposeLists.Keeps (merged lists : ComposeLists ρ) : Prop where
  bondPoints : lists.bondPoints.map Named.id ⊆ merged.bondPoints.map Named.id
  hooks : lists.hooks ⊆ merged.hooks
  expand : lists.expand ⊆ merged.expand
  map : lists.map ⊆ merged.map

def ComposeLists.Bare (lists : ComposeLists ρ) : Prop := lists.branch = [] ∧ lists.gate = [] ∧ lists.aspects = []

/-- Every rule is there, or for a bond point one of its id. -/
def ComposeLists.Contains (merged lists : ComposeLists ρ) : Prop :=
  merged.Keeps lists ∧ lists.branch ⊆ merged.branch ∧ lists.gate ⊆ merged.gate ∧ lists.aspects ⊆ merged.aspects

theorem ComposeLists.Keeps.trans {one two three : ComposeLists ρ} (first : one.Keeps two)
    (second : two.Keeps three) : one.Keeps three :=
  ⟨fun _ member => first.bondPoints (second.bondPoints member), fun _ member => first.hooks (second.hooks member),
    fun _ member => first.expand (second.expand member), fun _ member => first.map (second.map member)⟩

/-- What the merge of the declared rules, in this order, is. -/
structure Gathers (rules : Option (ComposeLists ρ)) (declared : List (ComposeLists ρ)) : Prop where
  empty : declared = [] → rules = none
  single : ∀ lists, declared = [lists] → rules = some lists
  bare : 2 ≤ declared.length → ∀ merged, rules = some merged → merged.Bare
  keeps : ∀ lists ∈ declared, ∃ merged, rules = some merged ∧ merged.Keeps lists

namespace Gathers

variable {rules others : Option (ComposeLists ρ)} {declared more : List (ComposeLists ρ)}

theorem of_option (rules : Option (ComposeLists ρ)) : Gathers rules rules.toList := by
  cases rules with
  | none => exact ⟨fun _ => rfl, nofun, nofun, nofun⟩
  | some lists =>
    refine ⟨nofun, fun other same => congrArg _ (singleton_inj.mp same), fun long =>
      absurd long (by simp), fun other member => ?_⟩
    rw [mem_singleton.mp member]
    exact ⟨lists, rfl, fun _ => id, fun _ => id, fun _ => id, fun _ => id⟩

theorem eq_nil (gathers : Gathers none declared) : declared = [] := by
  refine eq_nil_iff_forall_not_mem.mpr fun lists member => ?_
  obtain ⟨merged, found, -⟩ := gathers.keeps lists member
  cases found

theorem length_pos {lists : ComposeLists ρ} (gathers : Gathers (some lists) declared) : 0 < declared.length :=
  length_pos_iff.mpr fun empty => absurd (gathers.empty empty) nofun

theorem merge (first : Gathers rules declared) (second : Gathers others more) :
    Gathers (mergeComposeRules rules others) (declared ++ more) := by
  cases others with
  | none =>
    rw [second.eq_nil, append_nil]
    cases rules <;> exact first
  | some overlay =>
    cases rules with
    | none =>
      rw [first.eq_nil]
      exact second
    | some base =>
      have long : 2 ≤ (declared ++ more).length := by
        have left := first.length_pos
        have right := second.length_pos
        rw [length_append]
        omega
      have ids := append_subset.mp (map_append ▸ ids_mergeById base.bondPoints overlay.bondPoints)
      refine ⟨fun empty => ?_, fun lists single => ?_, ?_, ?_⟩
      · simp [empty] at long
      · simp [single] at long
      · rintro _ _ ⟨⟩
        exact ⟨rfl, rfl, rfl⟩
      · intro lists member
        refine ⟨_, rfl, ?_⟩
        rcases mem_append.mp member with left | right
        · obtain ⟨_, ⟨⟩, keeps⟩ := first.keeps lists left
          exact .trans ⟨ids.1, subset_append_left _ _, subset_append_left _ _, subset_append_left _ _⟩ keeps
        · obtain ⟨_, ⟨⟩, keeps⟩ := second.keeps lists right
          exact .trans ⟨ids.2, subset_append_right _ _, subset_append_right _ _, subset_append_right _ _⟩ keeps

/-- The lists that a merge drops are kept if there is no merge or nothing in them. -/
theorem contains_iff (gathers : Gathers rules declared) :
    (∀ lists ∈ declared, ∃ merged, rules = some merged ∧ merged.Contains lists) ↔
      declared.length ≤ 1 ∨ ∀ lists ∈ declared, lists.Bare := by
  constructor
  · intro contains
    by_cases short : declared.length ≤ 1
    · exact .inl short
    · refine .inr fun lists member => ?_
      obtain ⟨merged, found, _, branch, gate, aspects⟩ := contains lists member
      obtain ⟨noBranch, noGate, noAspects⟩ := gathers.bare (by omega) merged found
      rw [noBranch] at branch
      rw [noGate] at gate
      rw [noAspects] at aspects
      exact ⟨subset_nil.mp branch, subset_nil.mp gate, subset_nil.mp aspects⟩
  · rintro (short | bare) lists member
    · have single : declared = [lists] := by
        obtain ⟨only, rfl⟩ := length_eq_one_iff.mp (le_antisymm short (length_pos_of_mem member))
        rw [mem_singleton.mp member]
      exact ⟨lists, gathers.single lists single,
        ⟨fun _ => id, fun _ => id, fun _ => id, fun _ => id⟩, fun _ => id, fun _ => id, fun _ => id⟩
    · obtain ⟨merged, found, keeps⟩ := gathers.keeps lists member
      obtain ⟨noBranch, noGate, noAspects⟩ := bare lists member
      exact ⟨merged, found, keeps, by simp [noBranch], by simp [noGate], by simp [noAspects]⟩

end Gathers

namespace Resolver

variable {resolver : Resolver ρ} {fuel : Nat} {chain : List Text} {formula result : ParsedFormula ρ}

theorem validated_ok (passed : resolver.validated formula = .ok result) : result = formula := by
  rw [validated] at passed
  split at passed
  · exact (Except.ok.inj passed).symm
  · cases passed

theorem mapError_ok {α ε δ : Type} {wrap : ε → δ} {first : Except ε α} {value : α}
    (finished : first.mapError wrap = .ok value) : first = .ok value := by
  cases first with
  | error reason => cases finished
  | ok found => exact congrArg _ (Except.ok.inj finished)

theorem foldlM_addParent {resolve : ParsedFormula ρ → Except ResolveError (ParsedFormula ρ)}
    {lists : ParsedFormula ρ → List (ComposeLists ρ)}
    (each : ∀ loaded parent, resolve loaded = .ok parent → Gathers parent.compose (lists loaded)) {names : List Text}
    {start merged : ParsedFormula ρ} {before : List (ComposeLists ρ)} (gathers : Gathers start.compose before)
    (folded : names.foldlM (resolver.addParent resolve) start = .ok merged) :
    Gathers merged.compose (before ++ names.flatMap fun name => ((resolver.loadFormula name).toOption.map lists).getD []) ∧
      merged.settings = start.settings := by
  induction names generalizing start before with
  | nil =>
    cases folded
    exact ⟨by simpa using gathers, rfl⟩
  | cons name rest ih =>
    obtain ⟨middle, added, later⟩ := bind_eq_ok folded
    obtain ⟨loaded, load, read⟩ := bind_eq_ok added
    obtain ⟨parent, resolved, ⟨⟩⟩ := bind_eq_ok read
    have step := ih (gathers.merge (each loaded parent (mapError_ok resolved))) later
    rw [flatMap_cons, mapError_ok load, ← append_assoc]
    exact step

theorem resolve_gathers (resolved : resolver.resolve fuel chain formula = .ok result) :
    Gathers result.compose (resolver.declared fuel formula) ∧
      result.settings = if formula.extended = [] then formula.settings else {} := by
  induction fuel generalizing chain formula result with
  | zero => cases resolved
  | succ fuel ih =>
    rw [resolve] at resolved
    split at resolved
    · cases resolved
    split at resolved
    · rename_i root
      rw [validated_ok resolved, declared, root]
      exact ⟨.of_option _, (if_pos rfl).symm⟩
    · rename_i child
      obtain ⟨merged, folded, passed⟩ := bind_eq_ok resolved
      rw [validated_ok passed, declared, if_neg child]
      obtain ⟨parents, settings⟩ := foldlM_addParent (fun loaded parent done => (ih done).1) (.of_option none) folded
      exact ⟨parents.merge (.of_option _), settings⟩

/-- The resolved formula has every rule that it or an ancestor declares, and its own settings. -/
def Kept (resolver : Resolver ρ) (fuel : Nat) (formula result : ParsedFormula ρ) : Prop :=
  (∀ lists ∈ resolver.declared fuel formula, ∃ merged, result.compose = some merged ∧
    merged.Contains lists) ∧ result.settings = formula.settings

/-- At most one compose section, or no branch, gate or aspect in any of them, and no settings beside
a parent. -/
def Mergeable (resolver : Resolver ρ) (fuel : Nat) (formula : ParsedFormula ρ) : Prop :=
  ((resolver.declared fuel formula).length ≤ 1 ∨
    ∀ lists ∈ resolver.declared fuel formula, lists.Bare) ∧ (formula.extended = [] ∨ formula.settings = {})

theorem resolve_kept_iff (resolved : resolver.resolve fuel chain formula = .ok result) :
    resolver.Kept fuel formula result ↔ resolver.Mergeable fuel formula := by
  obtain ⟨gathers, settings⟩ := resolve_gathers resolved
  rw [Kept, gathers.contains_iff, settings]
  refine and_congr_right fun _ => ?_
  split <;> simp [*, eq_comm]

/-- A base with a branch rule, and a child with rules and a phase of its own. -/
def branching : Resolver Unit :=
  ⟨fun name => .ok { formula := name, compose := some { branch := [()] } }, fun _ => true⟩

def phased : ParsedFormula Unit :=
  { formula := ['a'], extended := [['b']], compose := some {}, settings := { phase := ['v'] } }

/-- A base and a child with hooks and no settings. -/
def hooking : Resolver Unit :=
  ⟨fun name => .ok { formula := name, compose := some { hooks := [()] } }, fun _ => true⟩

def hooked : ParsedFormula Unit :=
  { formula := ['a'], extended := [['b']], compose := some { hooks := [()] } }

theorem resolve_hooked : ∃ result, hooking.resolve 2 [] hooked = .ok result ∧ hooking.Kept 2 hooked result ∧
    ∃ merged, result.compose = some merged ∧ merged.hooks = [(), ()] := by
  refine ⟨_, rfl, (@resolve_kept_iff _ _ _ [] _ _ rfl).mpr ⟨.inr ?_, .inr rfl⟩, _, rfl, rfl⟩
  intro lists member
  rcases List.mem_cons.mp member with rfl | rest
  · exact ⟨rfl, rfl, rfl⟩
  · cases List.mem_singleton.mp rest
    exact ⟨rfl, rfl, rfl⟩

theorem resolve_drops : ∃ result merged, branching.resolve 2 [] phased = .ok result ∧
    result.compose = some merged ∧ merged.branch = [] ∧ ¬ branching.Kept 2 phased result :=
  ⟨_, _, rfl, rfl, rfl, fun kept => absurd (congrArg OwnSettings.phase kept.2) nofun⟩

end Resolver

end Beads.Formula
