import Beads.Data.RecursiveUnion

/-! A search for a path that expands the smaller of two frontiers, forward from the start or
backward from the goal, and reads the edges of a level from a store just before it needs them. -/

namespace BidirectionalSearch

open RecursiveUnion Relation List

inductive Direction where
  | forward
  | backward
  deriving DecidableEq, Repr

def Direction.flip : Direction → Direction
  | .forward => .backward
  | .backward => .forward

/-- A store of edges: it is filled for some nodes in one direction, and then answers for them. -/
structure Reader (α γ : Type*) where
  load : γ → Direction → List α → γ
  next : γ → Direction → α → List α

structure Search (α : Type*) where
  seen : Direction → List α
  frontier : Direction → List α

section Loop

variable {α γ : Type*} [DecidableEq α]

namespace Search

def start (origin goal : α) : Search α where
  seen
    | .forward => [origin]
    | .backward => [goal]
  frontier
    | .forward => [origin]
    | .backward => [goal]

def direction (search : Search α) : Direction :=
  if (search.frontier .backward).length < (search.frontier .forward).length then .backward else .forward

def advance (search : Search α) (direction : Direction) (found : List α) : Search α :=
  let fresh := found.eraseDups.filter fun node => !(search.seen direction).contains node
  ⟨Function.update search.seen direction (search.seen direction ++ fresh), Function.update search.frontier direction fresh⟩

end Search

def searchLoop (reader : Reader α γ) : Nat → γ → Search α → Bool × γ
  | 0, store, _ => (false, store)
  | fuel + 1, store, search =>
    if (search.frontier .forward).isEmpty || (search.frontier .backward).isEmpty then (false, store)
    else
      let direction := search.direction
      let loaded := reader.load store direction (search.frontier direction)
      let found := (search.frontier direction).flatMap (reader.next loaded direction)
      if found.any (search.seen direction.flip).contains then (true, loaded)
      else searchLoop reader fuel loaded (search.advance direction found)

def reaches (reader : Reader α γ) (fuel : Nat) (store : γ) (origin goal : α) : Bool × γ :=
  if origin = goal then (true, store) else searchLoop reader fuel store (.start origin goal)

end Loop

variable {α γ : Type*} {reader : Reader α γ} {edge : α → α → Prop} {valid : γ → Prop} {store : γ}
  {search : Search α} {origin goal node other : α} {direction : Direction}

def Along (edge : α → α → Prop) : Direction → α → α → Prop
  | .forward, node, other => edge node other
  | .backward, node, other => edge other node

/-- Loading keeps the store valid, and a valid store knows every edge of the
nodes it has just loaded. -/
structure Reads (reader : Reader α γ) (edge : α → α → Prop) (valid : γ → Prop) : Prop where
  load : ∀ {store direction nodes}, valid store → valid (reader.load store direction nodes)
  next : ∀ {store direction nodes node}, valid store → node ∈ nodes →
    ∀ other, other ∈ reader.next (reader.load store direction nodes) direction node ↔ Along edge direction node other

def source (origin goal : α) : Direction → α
  | .forward => origin
  | .backward => goal

theorem along_reflTransGen (path : ReflTransGen edge origin goal) (direction : Direction) :
    ReflTransGen (Along edge direction) (source origin goal direction) (source origin goal direction.flip) := by
  cases direction with
  | forward => exact path
  | backward => exact reflTransGen_swap.mpr path

theorem reflTransGen_of_meeting (there : ReflTransGen (Along edge direction) (source origin goal direction) node)
    (back : ReflTransGen (Along edge direction.flip) (source origin goal direction.flip) node) :
    ReflTransGen edge origin goal := by
  cases direction with
  | forward => exact there.trans (reflTransGen_swap.mp back)
  | backward => exact back.trans (reflTransGen_swap.mp there)

structure Searching (edge : α → α → Prop) (origin goal : α) (search : Search α) : Prop where
  began : ∀ direction, source origin goal direction ∈ search.seen direction
  sound : ∀ direction, ∀ node ∈ search.seen direction, ReflTransGen (Along edge direction) (source origin goal direction) node
  apart : ∀ node ∈ search.seen .forward, node ∉ search.seen .backward
  within : ∀ direction, ∀ node ∈ search.frontier direction, node ∈ search.seen direction
  done : ∀ direction, ∀ node ∈ search.seen direction, node ∉ search.frontier direction →
    ∀ other, Along edge direction node other → other ∈ search.seen direction

theorem searching_start (distinct : origin ≠ goal) : Searching edge origin goal (.start origin goal) where
  began direction := by cases direction <;> exact mem_singleton_self _
  sound direction node member := by
    cases direction <;> (rw [mem_singleton.mp member]; exact .refl)
  apart node forward backward := distinct ((mem_singleton.mp forward).symm.trans (mem_singleton.mp backward))
  within direction node member := by cases direction <;> exact member
  done direction node member outside := by cases direction <;> exact absurd member outside

section

variable (searching : Searching edge origin goal search)
include searching

theorem Searching.disjoint (member : node ∈ search.seen direction) : node ∉ search.seen direction.flip := by
  cases direction with
  | forward => exact searching.apart node member
  | backward => exact fun forward => searching.apart node forward member

theorem Searching.exhausted (dry : search.frontier direction = []) : ¬ReflTransGen edge origin goal := by
  intro path
  have closed : ∀ {node}, ReflTransGen (Along edge direction) (source origin goal direction) node →
      node ∈ search.seen direction := by
    intro node path
    induction path with
    | refl => exact searching.began direction
    | tail _ step ih =>
      refine searching.done direction _ ih ?_ _ step
      rw [dry]
      exact not_mem_nil
  exact searching.disjoint (closed (along_reflTransGen path direction)) (searching.began direction.flip)

end

section Rounds

variable [DecidableEq α] {found : List α}

variable {side : Direction}

theorem mem_seen_advance : node ∈ (search.advance direction found).seen side ↔
    node ∈ search.seen side ∨ side = direction ∧ node ∈ found := by
  by_cases same : side = direction
  · subst same
    by_cases known : node ∈ search.seen side <;> simp [Search.advance, known]
  · simp [Search.advance, same]

theorem mem_frontier_advance : node ∈ (search.advance direction found).frontier side ↔
    if side = direction then node ∈ found ∧ node ∉ search.seen side else node ∈ search.frontier side := by
  by_cases same : side = direction
  · subst same
    simp [Search.advance]
  · simp [Search.advance, same]

theorem Searching.advance (searching : Searching edge origin goal search)
    (exact : ∀ node, node ∈ found ↔ ∃ from_ ∈ search.frontier direction,
    Along edge direction from_ node) (clear : ∀ node ∈ found, node ∉ search.seen direction.flip) :
    Searching edge origin goal (search.advance direction found) := by
  have reached : ∀ node ∈ found, ReflTransGen (Along edge direction) (source origin goal direction) node := by
    intro node member
    obtain ⟨prior, listed, step⟩ := (exact node).mp member
    exact (searching.sound direction prior (searching.within direction prior listed)).tail step
  refine ⟨fun side => mem_seen_advance.mpr (.inl (searching.began side)), ?_, ?_, ?_, ?_⟩
  · intro side node member
    obtain old | ⟨rfl, new⟩ := mem_seen_advance.mp member
    · exact searching.sound side node old
    · exact reached node new
  · intro node forward backward
    rw [mem_seen_advance] at forward backward
    obtain old | ⟨rfl, new⟩ := forward
    · obtain other | ⟨rfl, new⟩ := backward
      · exact searching.apart node old other
      · exact clear node new old
    · exact clear node new (backward.resolve_right fun both => nomatch both.1)
  · intro side node member
    rw [mem_frontier_advance] at member
    rw [mem_seen_advance]
    split at member
    · exact .inr ⟨‹_›, member.1⟩
    · exact .inl (searching.within side node member)
  · intro side node member outside next step
    rw [mem_frontier_advance] at outside
    rw [mem_seen_advance] at member ⊢
    by_cases same : side = direction
    · subst same
      rw [if_pos rfl] at outside
      have old : node ∈ search.seen side := by
        by_contra unknown
        exact outside ⟨(member.resolve_left unknown).2, unknown⟩
      by_cases expanded : node ∈ search.frontier side
      · exact .inr ⟨rfl, (exact next).mpr ⟨node, expanded, step⟩⟩
      · exact .inl (searching.done side node old expanded next step)
    · rw [if_neg same] at outside
      exact .inl (searching.done side node (member.resolve_right fun both => same both.1) outside next step)

def unseen (catalog : List α) (search : Search α) : Nat :=
  missing catalog (search.seen .forward) + missing catalog (search.seen .backward)

variable {catalog : List α}

theorem unseen_advance (listed : ∀ node ∈ found, node ∈ catalog)
    (fresh : (search.advance direction found).frontier direction ≠ []) :
    unseen catalog (search.advance direction found) < unseen catalog search := by
  obtain ⟨node, member⟩ := exists_mem_of_ne_nil _ fresh
  rw [mem_frontier_advance, if_pos rfl] at member
  obtain ⟨new, unknown⟩ := member
  have entered : node ∈ found.eraseDups.filter fun node => !(search.seen direction).contains node := by simp [new, unknown]
  have shrinks := missing_append (listed node new) unknown entered
  cases direction <;> simp only [unseen, Search.advance, Function.update_self, ne_eq, reduceCtorEq,
    not_false_eq_true, Function.update_of_ne] at * <;> omega

section

variable (reads : Reads reader edge valid)
  (bounded : ∀ {node other}, edge node other → node ∈ catalog ∧ other ∈ catalog) (validStore : valid store)
include reads bounded validStore

theorem searchLoop_iff {fuel : Nat} (searching : Searching edge origin goal search)
    (enough : unseen catalog search + 2 ≤ fuel ∨ 1 ≤ fuel ∧ ∃ direction, search.frontier direction =
    []) : ((searchLoop reader fuel store search).1 = true ↔ ReflTransGen edge origin goal) ∧
      valid (searchLoop reader fuel store search).2 := by
  induction fuel generalizing store search with
  | zero => omega
  | succ fuel ih =>
    by_cases dry : ∃ direction, search.frontier direction = []
    · obtain ⟨direction, empty⟩ := dry
      have stops : searchLoop reader (fuel + 1) store search = (false, store) := by
        rw [searchLoop, if_pos]
        cases direction <;> simp [empty]
      rw [stops]
      exact ⟨iff_of_false Bool.false_ne_true (searching.exhausted empty), validStore⟩
    · have budget := enough.resolve_right fun ⟨_, empty⟩ => dry empty
      let direction := search.direction
      let loaded := reader.load store direction (search.frontier direction)
      let found := (search.frontier direction).flatMap (reader.next loaded direction)
      have continues : searchLoop reader (fuel + 1) store search =
          if found.any (search.seen direction.flip).contains then (true, loaded)
          else searchLoop reader fuel loaded (search.advance direction found) := by
        rw [searchLoop, if_neg]
        intro empty
        simp only [Bool.or_eq_true, List.isEmpty_iff] at empty
        exact dry (empty.elim (fun forward => ⟨_, forward⟩) fun backward => ⟨_, backward⟩)
      have validLoaded : valid loaded := reads.load validStore
      have expanded : ∀ node, node ∈ found ↔ ∃ prior ∈ search.frontier direction, Along edge direction prior node := by
        intro node
        rw [mem_flatMap]
        exact exists_congr fun prior => and_congr_right fun listed => reads.next validStore listed node
      rw [continues]
      by_cases met : found.any (search.seen direction.flip).contains = true
      · rw [if_pos met]
        obtain ⟨node, member, seen⟩ := any_eq_true.mp met
        obtain ⟨prior, listed, step⟩ := (expanded node).mp member
        have there := (searching.sound direction prior (searching.within direction prior listed)).tail step
        have back := searching.sound direction.flip node (contains_iff_mem.mp seen)
        exact ⟨iff_of_true rfl (reflTransGen_of_meeting there back), validLoaded⟩
      · rw [if_neg met]
        have clear : ∀ node ∈ found, node ∉ search.seen direction.flip := by
          intro node member seen
          exact met (any_eq_true.mpr ⟨node, member, contains_iff_mem.mpr seen⟩)
        refine ih validLoaded (searching.advance expanded clear) ?_
        by_cases last : (search.advance direction found).frontier direction = []
        · exact .inr ⟨by omega, direction, last⟩
        · have listed : ∀ node ∈ found, node ∈ catalog := by
            intro node member
            obtain ⟨prior, _, step⟩ := (expanded node).mp member
            revert step
            cases direction with
            | forward => exact fun step => (bounded step).2
            | backward => exact fun step => (bounded step).1
          have shrinks := unseen_advance listed last
          exact .inl (by omega)

theorem reaches_iff {fuel : Nat} (enough : 2 * catalog.length + 2 ≤ fuel) :
    ((reaches reader fuel store origin goal).1 = true ↔ ReflTransGen edge origin goal) ∧
      valid (reaches reader fuel store origin goal).2 := by
  by_cases same : origin = goal
  · rw [reaches, if_pos same, same]
    exact ⟨iff_of_true rfl .refl, validStore⟩
  · rw [reaches, if_neg same]
    have counted : ∀ found : List α, missing catalog found ≤ catalog.length := fun _ => length_filter_le _ _
    refine searchLoop_iff reads bounded validStore (searching_start same) (.inl ?_)
    have forward := counted ((Search.start origin goal).seen .forward)
    have backward := counted ((Search.start origin goal).seen .backward)
    rw [unseen]
    omega

end

end Rounds

end BidirectionalSearch
