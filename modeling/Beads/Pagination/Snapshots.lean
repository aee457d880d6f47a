import Beads.Pagination.Authority

namespace Beads

namespace Pagination

structure Consistent (p : Pagination) : Prop where
  addresses : (p.snapshots.map PageSnapshot.address).Nodup
  allocated : ∀ s ∈ p.snapshots, s.address < p.allocated
  tokens : (p.snapshots.flatMap PageSnapshot.tokens).Nodup
  cursors : ∀ token cursor, p.cursors.get? token = some cursor ↔ cursor.snapshot ∈ p.snapshots ∧
    ∃ index, cursor.snapshot.tokens[index]? = some token ∧ cursor.offset = (index + 1) * cursor.snapshot.limit
  bytes : p.retainedBytes = (p.snapshots.map PageSnapshot.bytes).sum
  counted : ∀ s ∈ p.snapshots, s.bytes = (s.items.map fun item => (item.length : Int)).sum
  epochs : ∀ s ∈ p.snapshots, s.fences.epoch = p.epoch ∧ p.epoch ≠ ""
  identities : ∀ s ∈ p.snapshots, s.fences.identities = true
  snapshotBound : p.snapshots.length ≤ p.options.maxSnapshots
  cursorBound : (p.snapshots.flatMap PageSnapshot.tokens).length ≤ p.options.maxCursorPositions
  byteBound : p.retainedBytes ≤ p.options.maxRetainedBytes
  closed : p.closed → p.snapshots = []

variable {token : String}

open List

namespace Consistent

variable {p : Pagination} {s other : PageSnapshot}

section

variable (consistent : p.Consistent)
include consistent

theorem eq_of_address (here : s ∈ p.snapshots) (there : other ∈ p.snapshots)
    (same : s.address = other.address) : s = other :=
  inj_on_of_nodup_map consistent.addresses here there same

theorem opened (live : s ∈ p.snapshots) : p.closed = false := by
  refine Bool.eq_false_iff.mpr fun shut => ?_
  rw [consistent.closed shut] at live
  cases live

theorem owner (here : s ∈ p.snapshots) (there : other ∈ p.snapshots)
    (owned : token ∈ s.tokens) (shared : token ∈ other.tokens) : s = other := by
  by_contra apart
  have disjoint := (nodup_flatMap.mp consistent.tokens).2
  have symmetric : Std.Symm (Function.onFun List.Disjoint PageSnapshot.tokens) := ⟨fun _ _ apart _ one other => apart other one⟩
  exact disjoint.forall here there apart owned shared

theorem nonneg (here : s ∈ p.snapshots) : 0 ≤ s.bytes := by
  rw [consistent.counted s here]
  refine sum_nonneg fun length member => ?_
  obtain ⟨item, _, same⟩ := mem_map.mp member
  rw [← same]
  exact Int.natCast_nonneg _

theorem cursors_length : p.cursors.entries.length = (p.snapshots.flatMap PageSnapshot.tokens).length := by
  have listed : (p.cursors.entries.map Prod.fst).Perm (p.snapshots.flatMap PageSnapshot.tokens) := by
    refine (perm_ext_iff_of_nodup p.cursors.keyed consistent.tokens).mpr fun token => ?_
    rw [mem_flatMap]
    constructor
    · intro key
      obtain ⟨entry, member, same⟩ := mem_map.mp key
      have found : p.cursors.get? entry.1 = some entry.2 := KeyedTable.get?_eq_some.mpr member
      obtain ⟨live, index, held, _⟩ := (consistent.cursors _ _).mp found
      exact ⟨_, live, same ▸ mem_of_getElem? held⟩
    · intro ⟨s, live, owned⟩
      obtain ⟨index, held⟩ := mem_iff_getElem?.mp owned
      have found := (consistent.cursors token ⟨s, (index + 1) * s.limit⟩).mpr ⟨live, index, held, rfl⟩
      exact mem_map_of_mem (KeyedTable.get?_eq_some.mp found)
  have lengths := listed.length_eq
  rwa [length_map] at lengths

end

end Consistent

/-- From `p` to `q` exactly the snapshots that satisfy `kept` stay, and nothing
but the books changes. -/
structure Keeps (p q : Pagination) (kept : PageSnapshot → Bool) : Prop where
  consistent : q.Consistent
  snapshots : q.snapshots = p.snapshots.filter kept
  rest : q = { p with snapshots := q.snapshots, retainedBytes := q.retainedBytes, cursors := q.cursors }

open PageSnapshot

theorem sum_bytes_release {snapshots : List PageSnapshot}
    (addresses : (snapshots.map address).Nodup) {s : PageSnapshot} (here : s ∈ snapshots) :
    ((snapshots.filter fun other => decide (other.address ≠ s.address)).map bytes).sum =
      (snapshots.map bytes).sum - s.bytes := by
  induction snapshots with
  | nil => cases here
  | cons first rest ih =>
    obtain ⟨fresh, distinct⟩ := nodup_cons.mp addresses
    rcases mem_cons.mp here with same | later
    · subst same
      have others : (rest.filter fun other => decide (other.address ≠ s.address)) = rest := by
        refine filter_eq_self.mpr fun other member => decide_eq_true fun equal => fresh ?_
        exact equal ▸ mem_map_of_mem member
      rw [filter_cons_of_neg (by simp), others, map_cons, sum_cons]
      omega
    · have apart : first.address ≠ s.address := fun equal => fresh (equal ▸ mem_map_of_mem later)
      rw [filter_cons_of_pos (by simpa using apart), map_cons, map_cons, sum_cons, sum_cons,
        ih distinct later]
      omega

variable {p q : Pagination} {s : PageSnapshot}

theorem Keeps.trans {r : Pagination} {kept still : PageSnapshot → Bool} (first : p.Keeps q kept)
    (second : q.Keeps r still) : p.Keeps r fun s => kept s && still s where
  consistent := second.consistent
  snapshots := by
    rw [second.snapshots, first.snapshots, filter_filter]
    exact filter_congr fun s _ => Bool.and_comm _ _
  rest := by rw [second.rest, first.rest]

theorem Keeps.congr {kept still : PageSnapshot → Bool} (keeps : p.Keeps q kept)
    (same : ∀ s ∈ p.snapshots, kept s = still s) : p.Keeps q still :=
  ⟨keeps.consistent, keeps.snapshots.trans (filter_congr same), keeps.rest⟩

section

variable (consistent : p.Consistent)
include consistent

theorem Consistent.release (here : s ∈ p.snapshots) :
    p.Keeps (p.release s) fun other => decide (other.address ≠ s.address) := by
  have listed : s.address ∈ p.snapshots.map PageSnapshot.address := mem_map_of_mem here
  have released : p.release s = { p with
      snapshots := p.snapshots.filter fun other => other.address ≠ s.address
      retainedBytes := p.retainedBytes - s.bytes
      cursors := p.cursors.removeWhere fun token => decide (token ∈ s.tokens) } := if_pos listed
  have fewer : (p.snapshots.filter fun other => decide (other.address ≠ s.address)).Sublist p.snapshots := filter_sublist
  have tokens := fewer.flatMap PageSnapshot.tokens
  rw [released]
  refine ⟨?_, rfl, rfl⟩
  exact
    { addresses := (fewer.map _).nodup consistent.addresses
      allocated := fun other member => consistent.allocated other (fewer.subset member)
      tokens := tokens.nodup consistent.tokens
      cursors := by
        intro token cursor
        simp only [KeyedTable.get?_removeWhere, mem_filter, decide_eq_true_iff]
        constructor
        · intro found
          obtain ⟨kept, found⟩ := Option.ite_none_left_eq_some.mp found
          obtain ⟨live, index, held, place⟩ := (consistent.cursors token cursor).mp found
          refine ⟨⟨live, fun same => kept ?_⟩, index, held, place⟩
          exact consistent.eq_of_address live here same ▸ mem_of_getElem? held
        · rintro ⟨⟨live, apart⟩, index, held, place⟩
          refine Option.ite_none_left_eq_some.mpr ⟨fun owned => apart ?_,
            (consistent.cursors token cursor).mpr ⟨live, index, held, place⟩⟩
          rw [consistent.owner live here (mem_of_getElem? held) owned]
      bytes := by rw [sum_bytes_release consistent.addresses here, consistent.bytes]
      counted := fun other member => consistent.counted other (fewer.subset member)
      epochs := fun other member => consistent.epochs other (fewer.subset member)
      identities := fun other member => consistent.identities other (fewer.subset member)
      snapshotBound := (Int.ofNat_le.mpr fewer.length_le).trans consistent.snapshotBound
      cursorBound := (Int.ofNat_le.mpr tokens.length_le).trans consistent.cursorBound
      byteBound := by
        have nonneg := consistent.nonneg here
        have bound := consistent.byteBound
        change p.retainedBytes - s.bytes ≤ p.options.maxRetainedBytes
        omega
      closed := fun shut => by rw [consistent.closed shut, filter_nil] }

theorem Keeps.refl : p.Keeps p fun _ => true := ⟨consistent, (filter_true _).symm, rfl⟩

theorem Consistent.release_all {gone : List PageSnapshot}
    (live : ∀ s ∈ gone, s.address ∈ p.snapshots.map address → s ∈ p.snapshots) :
    p.Keeps (gone.foldl Pagination.release p) fun s => decide (s.address ∉ gone.map address) := by
  induction gone generalizing p with
  | nil => simpa using Keeps.refl consistent
  | cons first rest ih =>
    have step : p.Keeps (p.release first) fun s => decide (s.address ≠ first.address) := by
      by_cases here : first.address ∈ p.snapshots.map address
      · exact consistent.release (live first (.head _) here)
      · have same : p.release first = p := if_neg here
        rw [same]
        refine (Keeps.refl consistent).congr fun s member => ?_
        have apart : s.address ≠ first.address := fun equal => here (equal ▸ mem_map_of_mem member)
        exact (decide_eq_true apart).symm
    have later := ih step.consistent fun s member listed => by
      rw [step.snapshots] at listed ⊢
      obtain ⟨other, kept, same⟩ := mem_map.mp listed
      obtain ⟨stored, apart⟩ := mem_filter.mp kept
      have mine := live s (.tail _ member) (same ▸ mem_map_of_mem stored)
      exact consistent.eq_of_address stored mine same ▸ kept
    refine (step.trans later).congr fun s _ => ?_
    rw [map_cons, ← Bool.decide_and]
    refine decide_eq_decide.mpr ?_
    rw [mem_cons, not_or]

theorem Consistent.releaseAll : p.Keeps p.releaseAll fun _ => false := by
  refine (consistent.release_all fun s member _ => member).congr fun s member => decide_eq_false ?_
  exact fun absent => absent (mem_map_of_mem member)

omit consistent in
theorem release_shut (gone : List PageSnapshot) :
    gone.foldl release { p with closed := true } = { gone.foldl release p with closed := true } := by
  induction gone generalizing p with
  | nil => rfl
  | cons first rest ih =>
    have step : release { p with closed := true } first = { p.release first with closed := true } := by
      unfold release
      split <;> rfl
    rw [foldl_cons, foldl_cons, step, ih]

theorem Consistent.close : p.close.Consistent := by
  have released := consistent.releaseAll
  have none : p.releaseAll.snapshots = [] := by rw [released.snapshots, filter_false]
  have books := released.consistent
  have shut : p.close = { p.releaseAll with closed := true } := release_shut p.snapshots
  rw [shut]
  exact { books with closed := fun _ => none }

theorem Consistent.cleanup (now : Int) : p.Keeps (p.cleanup now) fun s => decide (now < s.expires) := by
  refine (consistent.release_all fun s member _ => mem_of_mem_filter member).congr fun s member => ?_
  refine decide_eq_decide.mpr ?_
  rw [mem_map]
  constructor
  · intro fresh
    by_contra due
    exact fresh ⟨s, mem_filter.mpr ⟨member, decide_eq_true (by omega)⟩, rfl⟩
  · intro young ⟨other, expired, same⟩
    obtain ⟨stored, due⟩ := mem_filter.mp expired
    have due := decide_eq_true_iff.mp due
    rw [consistent.eq_of_address stored member same] at due
    omega

theorem Consistent.tick (reading : Int) : (p.tick reading).Consistent := { consistent with }

theorem Consistent.sweep (reading : Int) :
    (p.sweep reading).Consistent ∧ (∀ s ∈ p.snapshots, p.clock reading < s.expires → s ∈ (p.sweep reading).snapshots) ∧
      (p.sweep reading).options = p.options ∧ (p.sweep reading).closed = p.closed := by
  have swept := (consistent.tick reading).cleanup (p.clock reading)
  have options := congrArg options swept.rest
  have closed := congrArg Pagination.closed swept.rest
  refine ⟨swept.consistent, fun s live young => ?_, options, closed⟩
  rw [Pagination.sweep, swept.snapshots]
  exact mem_filter.mpr ⟨live, decide_eq_true young⟩

theorem Consistent.enterEpoch {epoch : String} (named : epoch ≠ "") :
    (p.enterEpoch epoch).Consistent ∧ (∀ s ∈ p.snapshots, s.fences.epoch = epoch → s ∈ (p.enterEpoch epoch).snapshots) ∧
      (p.enterEpoch epoch).options = p.options ∧ (p.enterEpoch epoch).closed = p.closed ∧ (p.enterEpoch epoch).epoch = epoch := by
  by_cases other : p.epoch ≠ "" ∧ p.epoch ≠ epoch
  · have released := consistent.releaseAll
    have entered : p.enterEpoch epoch = { p.releaseAll with epoch } := by rw [Pagination.enterEpoch, if_pos other]
    have none : p.releaseAll.snapshots = [] := by rw [released.snapshots, filter_false]
    have books := released.consistent
    have options := congrArg options released.rest
    have closed := congrArg Pagination.closed released.rest
    rw [entered]
    refine ⟨{ books with epochs := fun s member => ?_ }, fun s member same => ?_, options, closed, rfl⟩
    · exact absurd (show s ∈ p.releaseAll.snapshots from member) (none ▸ not_mem_nil)
    · exact absurd ((consistent.epochs s member).1.symm.trans same) other.2
  · have entered : p.enterEpoch epoch = { p with epoch } := by rw [Pagination.enterEpoch, if_neg other]
    rw [entered]
    refine ⟨{ consistent with epochs := fun s member => ?_ }, fun s member _ => member, rfl, rfl, rfl⟩
    obtain ⟨mine, nonempty⟩ := consistent.epochs s member
    have same : p.epoch = epoch := by
      by_contra apart
      exact other ⟨nonempty, apart⟩
    exact ⟨mine.trans same, named⟩

end

section Minting

variable {host : PaginationHost} {pending : List String} {draws : List (Option String)}

theorem uniqueToken_fresh {attempts : Nat} {rest : List (Option String)}
    (drawn : p.uniqueToken host pending attempts draws = .ok (token, rest)) : token ∉ pending ∧ p.cursors.get? token = none := by
  fun_induction p.uniqueToken host pending attempts draws with
  | case1 | case2 | case3 => cases drawn
  | case4 | case5 | case6 | case7 =>
    rename_i ih
    exact ih drawn
  | case8 attempts candidate later sized decodes fresh unused =>
    cases drawn
    exact ⟨fresh, Option.not_isSome_iff_eq_none.mp unused⟩

theorem mintTokens_fresh {positions : Nat} {tokens : { tokens : List String // tokens.length = positions }}
    (minted : p.mintTokens host positions pending draws = .ok tokens) :
    tokens.1.Nodup ∧ ∀ token ∈ tokens.1, token ∉ pending ∧ p.cursors.get? token = none := by
  induction positions generalizing pending draws with
  | zero =>
    cases minted
    exact ⟨nodup_nil, nofun⟩
  | succ positions ih =>
    obtain ⟨⟨token, rest⟩, drawn, minted⟩ := Fallible.bind_eq_ok minted
    obtain ⟨later, rest, ⟨⟩⟩ := Fallible.bind_eq_ok minted
    obtain ⟨distinct, fresh⟩ := ih rest
    refine ⟨nodup_cons.mpr ⟨fun again => ?_, distinct⟩, fun other member => ?_⟩
    · exact (fresh token again).1 (mem_append_right _ (.head _))
    · rcases mem_cons.mp member with same | member
      · exact same ▸ uniqueToken_fresh drawn
      · exact ⟨fun earlier => (fresh other member).1 (mem_append_left _ earlier), (fresh other member).2⟩

end Minting

theorem get?_addCursors {index : Nat} {tokens : List String} {cursors : KeyedTable String PageCursor} (distinct : tokens.Nodup)
    {cursor : PageCursor} : (addCursors s index tokens cursors).get? token = some cursor ↔
      (∃ place, tokens[place]? = some token ∧ cursor = ⟨s, (index + place + 1) * s.limit⟩) ∨
        (token ∉ tokens ∧ cursors.get? token = some cursor) := by
  induction tokens generalizing index cursors with
  | nil => simp [addCursors]
  | cons first rest ih =>
    obtain ⟨fresh, distinct⟩ := nodup_cons.mp distinct
    rw [addCursors, ih distinct, KeyedTable.get?_insert]
    constructor
    · rintro (⟨place, found, same⟩ | ⟨absent, found⟩)
      · exact .inl ⟨place + 1, by rwa [getElem?_cons_succ], by rw [same]; congr 2; omega⟩
      · by_cases here : token = first
        · rw [if_pos here] at found
          exact .inl ⟨0, by rw [here, getElem?_cons_zero], (Option.some.inj found).symm⟩
        · rw [if_neg here] at found
          exact .inr ⟨fun member => (mem_cons.mp member).elim here absent, found⟩
    · rintro (⟨place, found, same⟩ | ⟨absent, found⟩)
      · cases place with
        | zero =>
          cases (getElem?_cons_zero).symm.trans found
          exact .inr ⟨fresh, by rw [if_pos rfl, same]⟩
        | succ place =>
          rw [getElem?_cons_succ] at found
          exact .inl ⟨place, found, by rw [same]; congr 2; omega⟩
      · have apart : token ≠ first := fun same => absent (same ▸ mem_cons_self)
        exact .inr ⟨fun member => absent (.tail _ member), by rwa [if_neg apart]⟩

theorem Consistent.retain (consistent : p.Consistent) (address : s.address = p.allocated) (distinct : s.tokens.Nodup)
    (fresh : ∀ token ∈ s.tokens, p.cursors.get? token = none) (epoch : s.fences.epoch = p.epoch) (named : p.epoch ≠ "")
    (identities : s.fences.identities = true)
    (counted : s.bytes = (s.items.map fun item => (item.length : Int)).sum)
    (several : 0 < s.tokens.length)
    (room : p.exhausted s.tokens.length s.bytes = false) (opened : p.closed = false) : (p.retain s).Consistent := by
  have unused : ∀ other ∈ p.snapshots, ∀ token ∈ other.tokens, token ∉ s.tokens := by
    intro other live token owned mine
    obtain ⟨index, held⟩ := mem_iff_getElem?.mp owned
    have found := (consistent.cursors token ⟨other, (index + 1) * other.limit⟩).mpr ⟨live, index, held, rfl⟩
    exact nomatch (fresh token mine).symm.trans found
  simp only [exhausted, several, decide_true, Bool.true_and, Bool.or_eq_false_iff,
    decide_eq_false_iff_not, not_lt, not_le] at room
  obtain ⟨⟨⟨_, snapshots⟩, positions⟩, bytes⟩ := room
  rw [consistent.cursors_length] at positions
  have tokens : (p.retain s).snapshots.flatMap PageSnapshot.tokens = p.snapshots.flatMap PageSnapshot.tokens ++ s.tokens := by
    simp [Pagination.retain]
  exact
    { addresses := by
        rw [Pagination.retain, map_append, nodup_append]
        refine ⟨consistent.addresses, nodup_singleton _, fun one listed other single same => ?_⟩
        obtain ⟨live, member, rfl⟩ := mem_map.mp listed
        have older := consistent.allocated live member
        rw [same, mem_singleton.mp single, address] at older
        exact Nat.lt_irrefl _ older
      allocated := forall_mem_append.mpr ⟨fun other live => Nat.lt_succ_of_lt (consistent.allocated other live),
        forall_mem_singleton.mpr (address ▸ Nat.lt_succ_self _)⟩
      tokens := by
        rw [tokens, nodup_append]
        refine ⟨consistent.tokens, distinct, fun one owned other mine same => ?_⟩
        obtain ⟨live, member, owned⟩ := mem_flatMap.mp owned
        exact unused live member one owned (same ▸ mine)
      cursors := by
        intro token cursor
        change (addCursors s 0 s.tokens p.cursors).get? token = some cursor ↔ cursor.snapshot ∈ p.snapshots ++ [s] ∧ _
        rw [get?_addCursors distinct, mem_append, mem_singleton]
        constructor
        · rintro (⟨place, found, rfl⟩ | ⟨_, found⟩)
          · exact ⟨.inr rfl, place, found, by rw [Nat.zero_add]⟩
          · obtain ⟨live, index, held, offset⟩ := (consistent.cursors token cursor).mp found
            exact ⟨.inl live, index, held, offset⟩
        · rintro ⟨live | mine, index, held, offset⟩
          · refine .inr ⟨unused _ live token (mem_of_getElem? held), ?_⟩
            exact (consistent.cursors token cursor).mpr ⟨live, index, held, offset⟩
          · refine .inl ⟨index, mine ▸ held, ?_⟩
            rw [Nat.zero_add, ← mine, ← offset]
      bytes := by
        rw [Pagination.retain, map_append, sum_append, ← consistent.bytes]
        simp
      counted := forall_mem_append.mpr ⟨consistent.counted, forall_mem_singleton.mpr counted⟩
      epochs := forall_mem_append.mpr ⟨consistent.epochs, forall_mem_singleton.mpr ⟨epoch, named⟩⟩
      identities := forall_mem_append.mpr ⟨consistent.identities, forall_mem_singleton.mpr identities⟩
      snapshotBound := by
        rw [Pagination.retain, length_append, length_singleton]
        push_cast
        omega
      cursorBound := by
        rw [tokens, length_append]
        change ((_ + _ : Nat) : Int) ≤ p.options.maxCursorPositions
        push_cast
        omega
      byteBound := by
        change p.retainedBytes + s.bytes ≤ p.options.maxRetainedBytes
        omega
      closed := fun shut => nomatch opened.symm.trans shut }

end Pagination

end Beads
