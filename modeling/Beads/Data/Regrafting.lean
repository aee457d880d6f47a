import Beads.Data.Forest

namespace Beads

open List hiding map_map map flatten

universe u v

structure Regraft (κ : Type v) (α : Type u) where
  key : κ
  scion : Forest α
  relabel : α → α

namespace Regraft

variable {κ : Type v} {α : Type u} [DecidableEq κ] (name : α → κ)

def apply (forest : Forest α) (regraft : Regraft κ α) : Forest α :=
  (forest.graft (decide <| name · = regraft.key) regraft.scion).map regraft.relabel

section

variable (regrafts : List (Regraft κ α))

def named (value : α) : Bool := regrafts.any (decide <| name value = ·.key)

/-- The forest without what stands below the roots of the round. -/
def stubs (forest : Forest α) : Forest α := forest.cut (named name regrafts)

/-- The name is that of a value outside the trees of the round, or of one of
their outermost roots. -/
def Exposed (forest : Forest α) (key : κ) : Prop := ∃ value ∈ (stubs name regrafts forest).flatten, name value = key

def relabelAll (value : α) : α := regrafts.foldl (fun value regraft => regraft.relabel value) value

end

/-- What every round here is assumed to keep: names stay, each is regrafted once, and no scion put
in place names another root of the round. -/
structure Round (regrafts : List (Regraft κ α)) (forest : Forest α) : Prop where
  once : (regrafts.map key).Nodup
  kept : ∀ regraft ∈ regrafts, ∀ value, name (regraft.relabel value) = name value
  apart : ∀ regraft ∈ regrafts, Exposed name regrafts forest regraft.key → ∀ other ∈ regrafts,
    other.key ≠ regraft.key → ∀ value ∈ regraft.scion.flatten, name value ≠ other.key

variable {name} {regraft other : Regraft κ α} {regrafts rest : List (Regraft κ α)} {forest : Forest α} {value : α} {key : κ}

theorem named_iff : named name regrafts value = true ↔ ∃ regraft ∈ regrafts, name value = regraft.key := by
  simp [named]

theorem named_eq_false : named name regrafts value = false ↔ ∀ regraft ∈ regrafts, name value ≠ regraft.key := by
  simp [named]

theorem named_perm (perm : rest.Perm regrafts) : named name rest = named name regrafts := by
  funext value
  rw [Bool.eq_iff_iff, named_iff, named_iff]
  simp [perm.mem_iff]

open Forest

theorem stubs_nil (forest : Forest α) : stubs name [] forest = forest := cut_of_absent fun _ _ => rfl

theorem stubs_perm (perm : rest.Perm regrafts) : stubs name rest forest = stubs name regrafts forest := by
  rw [stubs, stubs, named_perm perm]

theorem Exposed.perm (perm : rest.Perm regrafts) : Exposed name rest forest key ↔ Exposed name regrafts forest key := by
  rw [Exposed, Exposed, stubs_perm perm]

theorem Round.perm (round : Round name regrafts forest) (perm : rest.Perm regrafts) : Round name rest forest where
  once := (perm.map Regraft.key).nodup_iff.mpr round.once
  kept regraft member := round.kept regraft (perm.mem_iff.mp member)
  apart regraft member exposed other otherMember :=
    round.apart regraft (perm.mem_iff.mp member) ((Exposed.perm perm).mp exposed) other (perm.mem_iff.mp otherMember)

omit [DecidableEq κ] in
theorem name_relabelAll (kept : ∀ regraft ∈ regrafts, ∀ value, name (regraft.relabel value) = name value) :
    name (relabelAll regrafts value) = name value := by
  induction regrafts generalizing value with
  | nil => rfl
  | cons regraft rest ih =>
    rw [forall_mem_cons] at kept
    exact (ih kept.2).trans (kept.1 value)

section

variable (round : Round name (regraft :: rest) forest)

include round

theorem Round.ne_of_mem (member : other ∈ rest) : other.key ≠ regraft.key := fun same =>
  (nodup_cons.mp round.once).1 (mem_map.mpr ⟨other, member, same⟩)

theorem Round.keeps (value : α) : name (regraft.relabel value) = name value :=
  round.kept regraft (.head _) value

theorem Round.clean (exposed : Exposed name (regraft :: rest) forest regraft.key)
    (member : value ∈ regraft.scion.flatten) : named name rest value = false :=
  named_eq_false.mpr fun other listed same =>
    round.apart regraft (.head _) exposed other (.tail _ listed) (round.ne_of_mem listed) value member same

theorem stubs_apply : stubs name rest (apply name forest regraft) =
    apply name (stubs name (regraft :: rest) forest) regraft := by
  rw [stubs, apply, cut_map fun value => ?_, cut_graft, apply, stubs]
  · intro value
    simp only [named, any_cons]
    rw [Bool.or_comm]
  · rintro ⟨root, member, here⟩ value listed
    exact round.clean ⟨root, member, by simpa using here⟩ listed
  · simp only [named, round.keeps]

theorem mem_stubs_apply : value ∈ (stubs name rest (apply name forest regraft)).flatten ↔ ∃ source,
    regraft.relabel source = value ∧
    ((source ∈ (stubs name (regraft :: rest) forest).flatten ∧ name source ≠ regraft.key) ∨
      (source ∈ regraft.scion.flatten ∧ Exposed name (regraft :: rest) forest regraft.key)) := by
  have stubbed : (stubs name (regraft :: rest) forest).cut (decide <| name · = regraft.key) =
    stubs name (regraft :: rest) forest :=
    cut_cut fun value here => named_iff.mpr ⟨regraft, mem_cons_self, by simpa using here⟩
  rw [stubs_apply round, apply, flatten_map, mem_map]
  refine exists_congr fun source => ?_
  rw [mem_flatten_graft, stubbed, and_comm]
  simp [Exposed]

theorem Exposed.of_apply (member : other ∈ rest) (exposed : Exposed name rest (apply name forest regraft) other.key) :
    Exposed name (regraft :: rest) forest other.key := by
  obtain ⟨value, listed, same⟩ := exposed
  obtain ⟨source, rfl, ⟨outside, _⟩ | ⟨fresh, shown⟩⟩ := (mem_stubs_apply round).mp listed
  · exact ⟨source, outside, (round.keeps source).symm.trans same⟩
  · rw [round.keeps] at same
    exact absurd same (round.apart regraft (.head _) shown other (.tail _ member) (round.ne_of_mem member) source fresh)

theorem Exposed.apply (member : other ∈ rest) (exposed : Exposed name (regraft :: rest) forest other.key) :
    Exposed name rest (apply name forest regraft) other.key := by
  obtain ⟨value, listed, same⟩ := exposed
  have outside : name value ≠ regraft.key := same ▸ round.ne_of_mem member
  exact ⟨regraft.relabel value, (mem_stubs_apply round).mpr ⟨value, rfl, .inl ⟨listed, outside⟩⟩,
    (round.keeps value).trans same⟩

theorem Round.tail : Round name rest (Regraft.apply name forest regraft) where
  once := (nodup_cons.mp round.once).2
  kept other member := round.kept other (.tail _ member)
  apart other member exposed third listed :=
    round.apart other (.tail _ member) (exposed.of_apply round member) third (.tail _ listed)

end

def Survives (name : α → κ) (regrafts : List (Regraft κ α)) (forest : Forest α) (value : α) : Prop :=
  ∃ source ∈ (stubs name regrafts forest).flatten, named name regrafts source = false ∧ relabelAll regrafts source = value

/-- A value of a scion put in place, as its own regraft and the later ones relabel it. -/
def Placed (name : α → κ) (regrafts : List (Regraft κ α)) (forest : Forest α) (value : α) : Prop :=
  ∃ before regraft after, regrafts = before ++ regraft :: after ∧ Exposed name regrafts forest regraft.key ∧
    ∃ source ∈ regraft.scion.flatten, relabelAll (regraft :: after) source = value

theorem mem_round (round : Round name regrafts forest) :
    value ∈ (regrafts.foldl (apply name) forest).flatten ↔ Survives name regrafts forest value ∨
      Placed name regrafts forest value := by
  induction regrafts generalizing forest with
  | nil => simp [Survives, Placed, stubs_nil, named, relabelAll]
  | cons regraft rest ih =>
    rw [foldl_cons, ih round.tail]
    constructor
    · rintro (⟨source, outside, free, rfl⟩ | ⟨before, other, after, rfl, exposed, source, fresh, rfl⟩)
      · obtain ⟨source, rfl, ⟨outside, apart⟩ | ⟨fresh, exposed⟩⟩ := (mem_stubs_apply round).mp outside
        · have free : named name (regraft :: rest) source = false := by
            simp only [named, round.keeps] at free
            simp [named, free, apart]
          exact .inl ⟨source, outside, free, rfl⟩
        · exact .inr ⟨[], regraft, rest, rfl, exposed, source, fresh, rfl⟩
      · exact .inr ⟨regraft :: before, other, after, rfl, exposed.of_apply round (by simp), source, fresh, rfl⟩
    · rintro (⟨source, outside, free, rfl⟩ | ⟨before, other, after, split, exposed, source, fresh, rfl⟩)
      · simp only [named, any_cons, Bool.or_eq_false_iff] at free
        refine .inl ⟨regraft.relabel source, (mem_stubs_apply round).mpr ⟨source, rfl, .inl ⟨outside, ?_⟩⟩, ?_, rfl⟩
        · simpa using free.1
        · simpa only [named, round.keeps] using free.2
      · cases before with
        | nil =>
          obtain ⟨rfl, rfl⟩ := cons.inj split
          have free : named name rest (regraft.relabel source) = false := by
            simpa only [named, round.keeps] using round.clean exposed fresh
          exact .inl ⟨regraft.relabel source, (mem_stubs_apply round).mpr ⟨source, rfl, .inr ⟨fresh, exposed⟩⟩, free, rfl⟩
        | cons first before =>
          obtain ⟨rfl, rfl⟩ := cons.inj split
          exact .inr ⟨before, other, after, rfl, exposed.apply round (by simp), source, fresh, rfl⟩

def hush (regraft : Regraft κ α) : Regraft κ α := { regraft with scion := .nil }

theorem apply_hush (absent : ∀ value ∈ forest.flatten, name value ≠ regraft.key) :
    apply name forest regraft.hush = apply name forest regraft := by
  have nowhere : ∀ value ∈ forest.flatten, decide (name value = regraft.key) =
    false := fun value member => decide_eq_false (absent value member)
  rw [apply, apply, graft_of_absent nowhere, hush, graft_of_absent nowhere]

theorem mem_apply (member : value ∈ (apply name forest regraft).flatten) : ∃ source, regraft.relabel source = value ∧
    (source ∈ forest.flatten ∨ (source ∈ regraft.scion.flatten ∧ ∃ root ∈ forest.flatten, name root = regraft.key)) := by
  rw [apply, flatten_map, mem_map] at member
  obtain ⟨source, grafted, same⟩ := member
  obtain ⟨outside, _⟩ | ⟨fresh, root, listed, here⟩ := mem_flatten_graft.mp grafted
  · exact ⟨source, same, .inl (mem_flatten_of_mem_cut outside)⟩
  · exact ⟨source, same, .inr ⟨fresh, root, mem_flatten_of_mem_cut listed, by simpa using here⟩⟩

theorem graft_relabelled {f : α → α} {scion : Forest α}
    (kept : ∀ value, name (f value) = name value) (still : scion.map f = scion) :
    (forest.map f).graft (decide <| name · = key) scion = (forest.graft (decide <| name · = key) scion).map f := by
  conv_lhs => rw [← still]
  exact graft_map fun value => by rw [kept]

theorem apply_comm (apart : regraft.key ≠ other.key) (kept : ∀ value, name (regraft.relabel value) = name value)
    (otherKept : ∀ value, name (other.relabel value) = name value)
    (clean : ∀ value ∈ regraft.scion.flatten, name value ≠ other.key)
    (otherClean : ∀ value ∈ other.scion.flatten, name value ≠ regraft.key)
    (still : regraft.scion.map other.relabel = regraft.scion)
    (otherStill : other.scion.map regraft.relabel = other.scion)
    (commute : ∀ value, other.relabel (regraft.relabel value) = regraft.relabel (other.relabel value)) (forest : Forest α) :
    apply name (apply name forest regraft) other = apply name (apply name forest other) regraft := by
  have grafts : (forest.graft (decide <| name · = regraft.key) regraft.scion).graft (decide <| name · = other.key) other.scion =
      (forest.graft (decide <| name · = other.key) other.scion).graft (decide <| name · = regraft.key) regraft.scion := by
    refine graft_comm (fun value here => ?_) (fun value member => ?_) fun value member => ?_
    · simpa [show name value = regraft.key by simpa using here] using apart
    · simpa using clean value member
    · simpa using otherClean value member
  rw [apply, apply, graft_relabelled kept otherStill, apply, apply, graft_relabelled otherKept still, grafts, map_map, map_map]
  exact congrArg (map · _) (funext commute)

theorem foldl_stubs (round : Round name regrafts forest) :
    regrafts.foldl (apply name) (stubs name regrafts forest) = regrafts.foldl (apply name) forest := by
  induction regrafts generalizing forest with
  | nil => exact stubs_nil forest
  | cons regraft rest ih => rw [foldl_cons, foldl_cons, ← stubs_apply round, ih round.tail]

section

variable (shown : κ → Prop) [DecidablePred shown]

def hushUnless (regraft : Regraft κ α) : Regraft κ α := if shown regraft.key then regraft else regraft.hush

omit [DecidableEq κ] in
@[simp] theorem hushUnless_key : (hushUnless shown regraft).key = regraft.key := by
  rw [hushUnless]
  split <;> rfl

omit [DecidableEq κ] in
@[simp] theorem hushUnless_relabel : (hushUnless shown regraft).relabel = regraft.relabel := by
  rw [hushUnless]
  split <;> rfl

theorem foldl_hushUnless (kept : ∀ regraft ∈ regrafts, ∀ value, name (regraft.relabel value) = name value)
    (absent : ∀ regraft ∈ regrafts, ¬shown regraft.key → ∀ value ∈ forest.flatten, name value ≠ regraft.key)
    (never : ∀ regraft ∈ regrafts, shown regraft.key → ∀ other ∈ regrafts, ¬shown other.key →
      ∀ value ∈ regraft.scion.flatten, name value ≠ other.key) :
    (regrafts.map (hushUnless shown)).foldl (apply name) forest = regrafts.foldl (apply name) forest := by
  induction regrafts generalizing forest with
  | nil => rfl
  | cons regraft rest ih =>
    have here : apply name forest (hushUnless shown regraft) = apply name forest regraft := by
      rw [hushUnless]
      split
      case isTrue => rfl
      case isFalse hidden => exact apply_hush (absent regraft (.head _) hidden)
    rw [map_cons, foldl_cons, foldl_cons, here]
    refine ih (fun other member => kept other (.tail _ member)) (fun other member hidden value listed same => ?_)
      fun other member seen third listed => never other (.tail _ member) seen third (.tail _ listed)
    obtain ⟨source, rfl, old | ⟨fresh, root, found, rooted⟩⟩ := mem_apply listed
    · rw [kept regraft (.head _)] at same
      exact absent other (.tail _ member) hidden source old same
    · have seen : shown regraft.key := by
        by_contra hiddenToo
        exact absent regraft (.head _) hiddenToo root found rooted
      rw [kept regraft (.head _)] at same
      exact never regraft (.head _) seen other (.tail _ member) hidden source fresh same

end

/-- What makes the order of a round irrelevant, besides what every round keeps. -/
structure Commuting (name : α → κ) (regrafts : List (Regraft κ α))
    (forest : Forest α) : Prop extends Round name regrafts forest where
  still : ∀ regraft ∈ regrafts, Exposed name regrafts forest regraft.key → ∀ other ∈ regrafts,
    other.key ≠ regraft.key → regraft.scion.map other.relabel = regraft.scion
  commute : ∀ regraft ∈ regrafts, ∀ other ∈ regrafts, regraft.key ≠ other.key → ∀ value,
    other.relabel (regraft.relabel value) = regraft.relabel (other.relabel value)

section

variable (round : Commuting name regrafts forest)
include round

section

variable {shown : κ → Prop} [DecidablePred shown] (exposed : ∀ {key}, shown key → Exposed name regrafts forest key)
  (member : regraft ∈ regrafts) (listed : other ∈ regrafts)
include exposed member listed

theorem Commuting.hushed_apart (apart : other.key ≠ regraft.key) :
    (∀ value ∈ (hushUnless shown regraft).scion.flatten, name value ≠ other.key) ∧
      (hushUnless shown regraft).scion.map other.relabel = (hushUnless shown regraft).scion := by
  rw [hushUnless]
  split
  case isTrue seen =>
    exact ⟨round.apart regraft member (exposed seen) other listed apart,
      round.still regraft member (exposed seen) other listed apart⟩
  case isFalse => exact ⟨nofun, rfl⟩

theorem Commuting.hushed_comm (start : Forest α) :
    apply name (apply name start (hushUnless shown regraft)) (hushUnless shown other) =
      apply name (apply name start (hushUnless shown other)) (hushUnless shown regraft) := by
  by_cases same : regraft.key = other.key
  · rw [inj_on_of_nodup_map round.once member listed same]
  · obtain ⟨clean, still⟩ := round.hushed_apart exposed member listed (Ne.symm same)
    obtain ⟨otherClean, otherStill⟩ := round.hushed_apart exposed listed member same
    refine apply_comm (by simpa using same) ?_ ?_ (by simpa using clean) (by simpa using otherClean) (by simpa using still)
      (by simpa using otherStill) ?_ start
    · simpa using round.kept regraft member
    · simpa using round.kept other listed
    · simpa using round.commute regraft member other listed same

end

theorem Commuting.foldl_hushed [DecidablePred (Exposed name regrafts forest)] (perm : rest.Perm regrafts) :
    (rest.map (hushUnless (Exposed name regrafts forest))).foldl (apply name)
      (stubs name regrafts forest) = rest.foldl (apply name) forest := by
  rw [← foldl_stubs (round.toRound.perm perm), stubs_perm perm]
  refine foldl_hushUnless _ (fun regraft member => round.kept regraft (perm.mem_iff.mp member))
    (fun regraft _ hidden value member same => hidden ⟨value, member, same⟩) ?_
  intro regraft member exposed other listed hidden
  refine round.apart regraft (perm.mem_iff.mp member) exposed other (perm.mem_iff.mp listed) fun same => hidden ?_
  rwa [same]

theorem Commuting.foldl_perm (perm : rest.Perm regrafts) :
    rest.foldl (apply name) forest = regrafts.foldl (apply name) forest := by
  classical
  rw [← round.foldl_hushed perm, ← round.foldl_hushed (List.Perm.refl regrafts)]
  refine (perm.map _).foldl_eq' (fun one member two listed start => ?_) _
  obtain ⟨regraft, first, rfl⟩ := mem_map.mp member
  obtain ⟨other, second, rfl⟩ := mem_map.mp listed
  exact round.hushed_comm id (perm.mem_iff.mp first) (perm.mem_iff.mp second) start

end

def bare (name : α → κ) (regraft : Regraft κ α) : Regraft κ κ :=
  ⟨regraft.key, regraft.scion.map name, id⟩

theorem map_apply (kept : ∀ value, name (regraft.relabel value) = name value) :
    (apply name forest regraft).map name = apply id (forest.map name) (regraft.bare name) := by
  have names : name ∘ regraft.relabel = id ∘ name := funext kept
  have grafted : (forest.graft (decide <| name · = regraft.key) regraft.scion).map name =
      (forest.map name).graft (decide <| id · = regraft.key) (regraft.scion.map name) := by
    symm
    apply graft_map
    exact fun _ => rfl
  rw [apply, map_map, names, ← map_map, grafted]
  rfl

theorem map_foldl (kept : ∀ regraft ∈ regrafts, ∀ value, name (regraft.relabel value) = name value) :
    (regrafts.foldl (apply name) forest).map name = (regrafts.map (bare name)).foldl (apply id) (forest.map name) := by
  induction regrafts generalizing forest with
  | nil => rfl
  | cons regraft rest ih =>
    rw [forall_mem_cons] at kept
    rw [foldl_cons, map_cons, foldl_cons, ← map_apply kept.1, ih kept.2]

theorem Exposed.of_bare (exposed : Exposed id (regrafts.map (bare name)) (forest.map name) key) :
    Exposed name regrafts forest key := by
  have same : ∀ value, named id (regrafts.map (bare name)) (name value) = named name regrafts value := fun value => by
    rw [named, any_map]
    rfl
  rw [Exposed, stubs, cut_map same, flatten_map] at exposed
  obtain ⟨_, listed, rfl⟩ := exposed
  obtain ⟨value, member, rfl⟩ := mem_map.mp listed
  exact ⟨value, member, rfl⟩

theorem Round.bare_commuting (round : Round name regrafts forest) :
    Commuting id (regrafts.map (bare name)) (forest.map name) where
  once := by
    rw [List.map_map]
    exact round.once
  kept regraft member value := by
    obtain ⟨source, _, rfl⟩ := mem_map.mp member
    rfl
  apart regraft member exposed other listed apart := by
    obtain ⟨one, mine, rfl⟩ := mem_map.mp member
    obtain ⟨two, its, rfl⟩ := mem_map.mp listed
    intro value inside
    obtain ⟨source, fresh, rfl⟩ := mem_map.mp (flatten_map name one.scion ▸ inside)
    exact round.apart one mine exposed.of_bare two its apart source fresh
  still regraft member exposed other listed apart := by
    obtain ⟨two, _, rfl⟩ := mem_map.mp listed
    exact map_eq_self fun _ _ => rfl
  commute regraft member other listed apart value := by
    obtain ⟨one, _, rfl⟩ := mem_map.mp member
    obtain ⟨two, _, rfl⟩ := mem_map.mp listed
    rfl

theorem Round.names_perm (round : Round name regrafts forest) (perm : rest.Perm regrafts) :
    (rest.foldl (apply name) forest).flatten.map name = (regrafts.foldl (apply name) forest).flatten.map name := by
  rw [← flatten_map, ← flatten_map, map_foldl (round.perm perm).kept, map_foldl round.kept,
    round.bare_commuting.foldl_perm (perm.map _)]

end Regraft

end Beads
