import Beads.Create.FreshIds

namespace Beads

open Fallible Text List

namespace CreateStore

variable {store after : CreateStore} {plane : Plane} {id parentId : Id}

/-- Rows stay, an item keeps the plane it is found in, and counters do not fall. -/
structure Grows (before after : CreateStore) : Prop where
  stored : ∀ plane id, before.stored plane id = true → after.stored plane id = true
  routed : ∀ id, before.stored (before.routedPlane id) id = true → after.routedPlane id = before.routedPlane id
  counter : ∀ plane parentId, before.counter plane parentId ≤ after.counter plane parentId

theorem Grows.refl (store : CreateStore) : Grows store store :=
  ⟨fun _ _ found => found, fun _ _ => rfl, fun _ _ => le_rfl⟩

theorem Grows.trans {middle : CreateStore} (first : Grows store middle) (second : Grows middle after) : Grows store after where
  stored plane id found := second.stored plane id (first.stored plane id found)
  routed id found := by
    have kept := first.routed id found
    rw [← kept]
    exact second.routed id (kept ▸ first.stored _ id found)
  counter plane parentId := (first.counter plane parentId).trans (second.counter plane parentId)

theorem routedPlane_eq (same : after.stored .wisp id = store.stored .wisp id) :
    after.routedPlane id = store.routedPlane id := by
  rw [routedPlane, routedPlane, isActiveWisp, isActiveWisp, same]

theorem grows_of_items (items : after.items = store.items)
    (counters : ∀ plane parentId, store.counter plane parentId ≤ after.counter plane parentId) :
    Grows store after where
  stored plane id found := by rwa [CreateStore.stored, items]
  routed id _ := routedPlane_eq (by rw [CreateStore.stored, items]; rfl)
  counter := counters

theorem insertIssueIfNew_stored {opts : BatchCreateOptions} {token : Nat} {table : KeyedTable Id IssueRow} {row : IssueRow}
    {result : InsertResult} (inserted : insertIssueIfNew opts token table id row = .ok result) (other : Id) :
    (result.table.get? other).isSome = (table.get? other).isSome ∨ other = id ∧ (result.table.get? other).isSome = true := by
  have wrote : ∀ value, ((table.insert id value).get? other).isSome = (table.get? other).isSome ∨
      other = id ∧ ((table.insert id value).get? other).isSome = true := by
    intro value
    rw [KeyedTable.get?_insert]
    split
    · rename_i same
      exact .inr ⟨same, rfl⟩
    · exact .inl rfl
  rw [insertIssueIfNew] at inserted
  split at inserted
  · cases inserted
    exact .inl rfl
  · split at inserted
    · split at inserted
      · cases inserted
      · cases inserted
        exact wrote _
    · split at inserted
      · cases inserted
        exact .inl rfl
      · cases inserted
        exact wrote _

variable {context : CreateContext} {request : CreateRequest} {created : CreatedRow}

theorem createRow_grows (ran : store.createRow context request = .ok created) : Grows store created.store := by
  obtain ⟨_, counters, _, ⟨_, same⟩ | ⟨free, result, inserted, written⟩⟩ := createRow_ok ran
  · exact grows_of_items same fun plane parentId => by rw [counter, counter, counters]
  · have kept := insertIssueIfNew_stored inserted
    have rows : ∀ plane id, created.store.stored plane id =
        if plane = request.plane then (result.table.get? id).isSome else store.stored plane id := by
      intro plane id
      rw [stored, written]
      split
      · rename_i own
        rw [own, Function.update_self]
      · rename_i other
        rw [Function.update_of_ne other]
        rfl
    have stays : ∀ plane id, store.stored plane id = true → created.store.stored plane id = true := by
      intro plane id found
      rw [rows]
      split
      · rename_i own
        subst own
        exact (kept id).elim (fun same => same.trans found) And.right
      · exact found
    refine ⟨stays, fun id found => ?_, fun plane parentId => by rw [counter, counter, counters]⟩
    -- A wisp is not created under the id of an issue.
    refine routedPlane_eq ?_
    cases wisp : store.stored .wisp id with
    | true => exact stays .wisp id wisp
    | false =>
      have issue : store.stored .issue id = true := by simpa [routedPlane, isActiveWisp, wisp] using found
      rw [rows]
      split
      · rename_i own
        rw [← own] at free kept
        obtain same | ⟨rfl, _⟩ := kept id
        · exact same.trans wisp
        · exact absurd (free.symm.trans issue) Bool.false_ne_true
      · exact wisp

variable {moments : List CreateMoment} {number : Nat} {child : Id}

theorem createRows_grows {requests : List CreateRequest}
    (ran : createRows context requests store = .ok (after, moments)) : Grows store after := by
  induction requests generalizing store after moments with
  | nil =>
    cases ran
    exact .refl _
  | cons request rest ih =>
    obtain ⟨created, first, others⟩ := bind_eq_ok ran
    obtain ⟨⟨final, later⟩, rows, ⟨⟩⟩ := map_eq_ok others
    exact (createRow_grows first).trans (ih rows)

theorem setCounter_ok (set : store.setCounter plane parentId number = .ok after) :
    number ≤ maxCounter ∧ store.stored plane parentId = true ∧ after.items = store.items ∧
      ∀ other id, after.counter other id = if other = plane ∧ id = parentId then number else store.counter other id := by
  rw [setCounter, ite_error_eq_ok, ite_error_eq_ok] at set
  obtain ⟨fits, owned, ⟨⟩⟩ := set
  refine ⟨Nat.not_lt.mp fits, by simpa using owned, rfl, fun other id => ?_⟩
  unfold counter
  by_cases own : other = plane
  · subst own
    by_cases same : id = parentId <;> simp [same]
  · simp [own]

theorem setCounter_grows (above : store.counter plane parentId ≤ number)
    (set : store.setCounter plane parentId number = .ok after) : Grows store after := by
  obtain ⟨_, _, items, counters⟩ := setCounter_ok set
  refine grows_of_items items fun other id => ?_
  rw [counters]
  split
  · rename_i same
    rw [same.1, same.2]
    exact above
  · exact le_rfl

theorem reconcileChildCounters_grows {accepted : List CreatedRow}
    (reconciled : store.reconcileChildCounters accepted = .ok after) : Grows store after := by
  refine foldlM_preserves (Grows store) (fun parentId _ state next held stepped => ?_) (.refl _) reconciled
  rw [reconcileParent] at stepped
  split at stepped
  · cases stepped
    exact held
  · split at stepped
    · cases stepped
      exact held
    · split at stepped
      · cases stepped
        exact held
      · exact held.trans (setCounter_grows (le_max_left _ _) stepped)

theorem toList_childId (number : Nat) : (childId parentId number).toList = parentId.toList ++ '.' ::
    Nat.toDigits 10 number := by
  simp [childId, Nat.toList_repr]

theorem childId_injective {one other : Nat} (same : childId parentId one = childId parentId other) : one = other := by
  have texts := congrArg String.toList same
  rw [toList_childId, toList_childId, append_cancel_left_eq] at texts
  exact toDigits_injective (cons.inj texts).2

theorem parseHierarchicalId_childId (small : number < 2 ^ 63) :
    parseHierarchicalId (childId parentId number) = some (parentId, (number : Int)) := by
  have dotless : '.' ∉ Nat.toDigits 10 number := not_mem_toDigits (by decide)
  rw [parseHierarchicalId, toList_childId, splitLast_append dotless]
  simp [scanInt64?_toDigits small]

theorem mem_scannedChildren (plain : '\\' ∉ parentId.toList) (found : store.stored plane (childId parentId number) = true) :
    childId parentId number ∈ store.scannedChildren plane parentId := by
  have dotless : (Nat.toDigits 10 number).count '.' = 0 := count_eq_zero.mpr (not_mem_toDigits (by decide))
  have child : like (parentId.toList ++ ['.', '%']) (childId parentId number).toList = true := by
    rw [toList_childId]
    refine like_stem plain ?_
    simp [like, likeEscape, compile, wild, Text.Wild.accepts]
  have grandchild : like (parentId.toList ++ ['.', '%', '.', '%']) (childId parentId number).toList = false := by
    rw [← Bool.not_eq_true]
    intro matched
    rw [toList_childId] at matched
    have dots : (parentId.toList ++ ['.', '%', '.', '%']).count '.' ≤
      (parentId.toList ++ '.' :: Nat.toDigits 10 number).count '.' :=
      count_le_of_like (by decide) (by decide) (by decide) matched
    simp only [count_append, count_cons_self, dotless] at dots
    simp at dots
  exact mem_filter.mpr ⟨mem_ids found, by rw [child, grandchild]; rfl⟩

/-- What `GetNextChildIDTx` needs of the store: every child in the other plane has a number that the
parent's counter or a child in its own plane reaches, and so does every child of a parent whose id
holds an escape character, for which the scan finds none. -/
structure Covered (store : CreateStore) (parentId : Id) : Prop where
  sibling : ∀ number, store.stored (store.routedPlane parentId).sibling (childId parentId number) =
    true → number ≤ store.counter (store.routedPlane parentId) parentId ∨
    ∃ other, number ≤ other ∧ other < 2 ^ 63 ∧ store.stored (store.routedPlane parentId) (childId parentId other) = true
  escaped : '\\' ∈ parentId.toList → ∀ number, store.stored (store.routedPlane parentId) (childId parentId number) = true →
    number ≤ store.counter (store.routedPlane parentId) parentId

theorem counter_le_lastChild : store.counter plane parentId ≤ store.lastChild plane parentId :=
  start_le_highest _ _

theorem Covered.le_lastChild (covered : store.Covered parentId) (small : number < 2 ^ 63)
    (found : store.stored (store.routedPlane parentId) (childId parentId number) = true) :
    number ≤ store.lastChild (store.routedPlane parentId) parentId := by
  by_cases plain : '\\' ∈ parentId.toList
  · exact (covered.escaped plain number found).trans counter_le_lastChild
  · have parsed : (number : Int) ∈
        ((store.scannedChildren (store.routedPlane parentId) parentId).filterMap parseHierarchicalId).map Prod.snd :=
      mem_map.mpr ⟨_, mem_filterMap.mpr ⟨_, mem_scannedChildren plain found, parseHierarchicalId_childId small⟩, rfl⟩
    exact le_highest parsed

section

variable (drawn : store.getNextChildId parentId = .ok (child, after))
include drawn

theorem getNextChildId_ok :
    child = childId parentId (store.lastChild (store.routedPlane parentId) parentId + 1) ∧
      store.setCounter (store.routedPlane parentId) parentId
        (store.lastChild (store.routedPlane parentId) parentId + 1) = .ok after := by
  obtain ⟨_, set, ⟨⟩⟩ := map_eq_ok drawn
  exact ⟨rfl, set⟩

theorem getNextChildId_free (covered : store.Covered parentId) :
    ∀ plane, store.stored plane child = false := by
  obtain ⟨named, set⟩ := getNextChildId_ok drawn
  have small : store.lastChild (store.routedPlane parentId) parentId + 1 < 2 ^ 63 := (setCounter_ok set).1.trans_lt (by decide)
  have own : store.stored (store.routedPlane parentId) child = false := by
    rw [named, ← Bool.not_eq_true]
    exact fun found => Nat.not_succ_le_self _ (covered.le_lastChild small found)
  have other : store.stored (store.routedPlane parentId).sibling child = false := by
    rw [named, ← Bool.not_eq_true]
    intro found
    obtain below | ⟨higher, above, fits, held⟩ := covered.sibling _ found
    · exact Nat.not_succ_le_self _ (below.trans counter_le_lastChild)
    · exact Nat.not_succ_le_self _ (above.trans (covered.le_lastChild fits held))
  intro plane
  cases moved : store.routedPlane parentId <;> cases plane <;> rw [moved] at own other <;> assumption

end

/-- The parent was deleted after a child id had been drawn for it. -/
def Spent (history : List CreateEvent) (parentId : Id) : Prop :=
  ∃ earlier later, history = earlier ++ .deleted parentId :: later ∧ ∃ before child, .drawn before parentId child ∈ earlier

theorem Spent.mem {history : List CreateEvent} (spent : Spent history parentId) : .deleted parentId ∈ history := by
  obtain ⟨earlier, later, rfl, _⟩ := spent
  exact mem_append_right _ (.head _)

theorem Spent.append {history : List CreateEvent} (spent : Spent history parentId)
    (events : List CreateEvent) : Spent (history ++ events) parentId := by
  obtain ⟨earlier, later, rfl, drawn⟩ := spent
  exact ⟨earlier, later ++ events, by rw [append_assoc]; rfl, drawn⟩

/-- Every id that was drawn, and whose parent has kept its row since, is one that the parent's
counter has reached. -/
def Counted (store : CreateStore) (history : List CreateEvent) : Prop :=
  ∀ {before parentId child}, .drawn before parentId child ∈ history → ¬ Spent history parentId →
    store.stored (store.routedPlane parentId) parentId = true ∧
      ∃ number, child = childId parentId number ∧ number ≤ store.counter (store.routedPlane parentId) parentId

variable {history events : List CreateEvent}

theorem deleteIssue_ok (deleted : store.deleteIssue id = .ok after) (plane : Plane) {other : Id} (elsewhere : other ≠ id) :
    after.stored plane other = store.stored plane other ∧ after.counter plane other = store.counter plane other := by
  rw [deleteIssue, else_error_eq_ok] at deleted
  cases deleted.2
  unfold stored counter
  by_cases own : plane = store.routedPlane id
  · subst own
    simp [elsewhere]
  · simp [own]

theorem not_mem_created (before : CreateStore) (parentId child : Id) :
    CreateEvent.drawn before parentId child ∉ moments.map .created := by
  intro member
  obtain ⟨_, _, same⟩ := mem_map.mp member
  exact nomatch same

theorem createIssue_grows (ran : store.createIssue context request = .ok (after, moments)) :
    Grows store after := by
  obtain ⟨created, row, reconciled⟩ := bind_eq_ok ran
  have step := createRow_grows row
  split at reconciled
  · obtain ⟨_, counters, ⟨⟩⟩ := map_eq_ok reconciled
    exact step.trans (reconcileChildCounters_grows counters)
  · cases reconciled
    exact step

theorem createIssues_grows {requests : List CreateRequest}
    (ran : store.createIssues context requests = .ok (after, moments)) : Grows store after := by
  obtain ⟨⟨written, rows⟩, created, reconciled⟩ := bind_eq_ok ran
  obtain ⟨_, counters, ⟨⟩⟩ := map_eq_ok reconciled
  exact (createRows_grows created).trans (reconcileChildCounters_grows counters)

section

variable (counted : store.Counted history)
include counted

variable {before : CreateStore}

theorem Counted.earlier (grows : Grows store after)
    (earlier : .drawn before parentId child ∈ history) (unspent : ¬ Spent (history ++ events) parentId) :
    after.stored (after.routedPlane parentId) parentId = true ∧
      ∃ number, child = childId parentId number ∧ number ≤ after.counter (after.routedPlane parentId) parentId := by
  obtain ⟨held, number, named, below⟩ := counted earlier fun spent => unspent (spent.append events)
  rw [grows.routed parentId held]
  exact ⟨grows.stored _ _ held, number, named, below.trans (grows.counter _ _)⟩

theorem Counted.grow (grows : Grows store after)
    (silent : ∀ before parentId child, .drawn before parentId child ∉ events) : after.Counted (history ++ events) := by
  intro before parentId child member unspent
  obtain earlier | now := mem_append.mp member
  · exact counted.earlier grows earlier unspent
  · exact absurd now (silent _ _ _)

theorem Counted.draw (drawn : store.getNextChildId parentId = .ok (child, after)) :
    after.Counted (history ++ [.drawn store parentId child]) := by
  obtain ⟨rfl, set⟩ := getNextChildId_ok drawn
  obtain ⟨_, owned, _, counters⟩ := setCounter_ok set
  have grows := setCounter_grows (Nat.le_succ_of_le counter_le_lastChild) set
  intro before other child member unspent
  obtain earlier | now := mem_append.mp member
  · exact counted.earlier grows earlier unspent
  · cases mem_singleton.mp now
    rw [grows.routed _ owned]
    refine ⟨grows.stored _ _ owned, _, rfl, ?_⟩
    rw [counters, if_pos ⟨rfl, rfl⟩]

theorem Counted.delete (deleted : store.deleteIssue id = .ok after) :
    after.Counted (history ++ [.deleted id]) := by
  intro before parentId child member unspent
  obtain earlier | now := mem_append.mp member
  · have other : parentId ≠ id := by
      rintro rfl
      exact unspent ⟨history, [], rfl, before, child, earlier⟩
    obtain ⟨held, number, named, below⟩ := counted earlier fun spent => unspent (spent.append _)
    have same := fun plane => deleteIssue_ok deleted plane other
    rw [routedPlane_eq (same .wisp).1, (same _).1, (same _).2]
    exact ⟨held, number, named, below⟩
  · exact nomatch mem_singleton.mp now

theorem Counted.execute {operation : CreateOperation}
    (ran : store.execute operation = .ok (after, events)) : after.Counted (history ++ events) := by
  cases operation with
  | createIssue context request =>
    obtain ⟨_, created, ⟨⟩⟩ := map_eq_ok ran
    exact counted.grow (createIssue_grows created) not_mem_created
  | createIssues context requests =>
    obtain ⟨_, created, ⟨⟩⟩ := map_eq_ok ran
    exact counted.grow (createIssues_grows created) not_mem_created
  | getNextChildId parentId =>
    obtain ⟨_, drawn, ⟨⟩⟩ := map_eq_ok ran
    exact counted.draw drawn
  | delete id =>
    obtain ⟨_, deleted, ⟨⟩⟩ := map_eq_ok ran
    exact counted.delete deleted

theorem Counted.draw_new (covered : store.Covered parentId)
    (unspent : ¬ Spent history parentId) (drawn : store.getNextChildId parentId = .ok (child, after)) :
    (∀ plane, store.stored plane child = false) ∧ ∀ other, .drawn other parentId child ∉ history := by
  refine ⟨getNextChildId_free drawn covered, fun other member => ?_⟩
  obtain ⟨rfl, _⟩ := getNextChildId_ok drawn
  obtain ⟨_, number, named, below⟩ := counted member unspent
  rw [← childId_injective named] at below
  exact Nat.not_succ_le_self _ (below.trans counter_le_lastChild)

omit counted in
theorem execute_drawn {operation : CreateOperation}
    (ran : store.execute operation = .ok (after, events)) (member : .drawn before parentId child ∈ events) :
    events = [.drawn before parentId child] ∧ before = store ∧ store.getNextChildId parentId = .ok (child, after) := by
  cases operation with
  | createIssue context request | createIssues context requests =>
    obtain ⟨_, _, ⟨⟩⟩ := map_eq_ok ran
    exact absurd member (not_mem_created _ _ _)
  | getNextChildId parentId =>
    obtain ⟨_, drawn, ⟨⟩⟩ := map_eq_ok ran
    cases mem_singleton.mp member
    exact ⟨rfl, rfl, drawn⟩
  | delete id =>
    obtain ⟨_, _, ⟨⟩⟩ := map_eq_ok ran
    exact nomatch mem_singleton.mp member

theorem run_drawn {operations : List CreateOperation} {earlier later : List CreateEvent}
    (split : (run operations store).2 = earlier ++ .drawn before parentId child :: later) :
    before.Counted (history ++ earlier) ∧ ∃ after, before.getNextChildId parentId = .ok (child, after) := by
  induction operations generalizing store history earlier with
  | nil =>
    have length := congrArg length split
    simp [run] at length
  | cons operation rest ih =>
    rw [run] at split
    cases ran : store.execute operation with
    | error _ =>
      rw [ran] at split
      exact ih counted split
    | ok result =>
      obtain ⟨after, events⟩ := result
      rw [ran] at split
      -- The draw is an event of this operation, or of a later one.
      obtain ⟨rest', rfl, remaining⟩ | ⟨rest', rfl, remaining⟩ := append_eq_append_iff.mp split
      · obtain ⟨counted, drawn⟩ := ih (counted.execute ran) remaining
        rw [append_assoc] at counted
        exact ⟨counted, drawn⟩
      · cases rest' with
        | nil =>
          have tail : (run rest after).2 = [] ++ .drawn before parentId child :: later := remaining.symm
          obtain ⟨counted, drawn⟩ := ih (counted.execute ran) tail
          simp only [append_nil] at counted
          exact ⟨counted, drawn⟩
        | cons event others =>
          obtain rfl : CreateEvent.drawn before parentId child = event := (cons.inj remaining).1
          obtain ⟨single, rfl, drawn⟩ := execute_drawn ran (mem_append_right _ (.head _))
          obtain rfl : earlier = [] := by
            have length := congrArg length single
            simp at length
            exact eq_nil_of_length_eq_zero (by omega)
          rw [append_nil]
          exact ⟨counted, after, drawn⟩

end

/-- In every run a child id is drawn that names no issue or wisp and was not drawn for the parent
before, as long as the store covers the parent's children and the parent was not deleted after an
earlier draw. -/
theorem run_child_new (operations : List CreateOperation) (store : CreateStore) {before : CreateStore} {child : Id}
    {earlier later : List CreateEvent} (split : (run operations store).2 = earlier ++ .drawn before parentId child :: later)
    (covered : before.Covered parentId) (unspent : ¬ Spent earlier parentId) :
    (∀ plane, before.stored plane child = false) ∧ ∀ other, .drawn other parentId child ∉ earlier := by
  have start : store.Counted [] := nofun
  obtain ⟨counted, after, drawn⟩ := run_drawn start split
  exact counted.draw_new covered unspent drawn

/-- An import of a wisp whose parent is not there yet, then the parent, then its first child. -/
def orphanedWisp : List CreateOperation :=
  let context : CreateContext := { hashSuffix := fun _ _ _ => "x" }
  [.createIssues context [{ id := "bd-1.1", plane := .wisp, row := .only .title "orphan" 1 }],
    .createIssue context { id := "bd-1", row := .only .title "parent" 2 }, .getNextChildId "bd-1"]

theorem run_orphanedWisp_repeats : ∃ before, .drawn before "bd-1" "bd-1.1" ∈
    (run orphanedWisp {}).2 ∧ before.stored .wisp "bd-1.1" = true :=
  ⟨_, mem_of_getElem? (i := 2) rfl, rfl⟩

def twoChildren : List CreateOperation :=
  let context : CreateContext := { hashSuffix := fun _ _ _ => "x" }
  [.createIssue context { id := "bd-1", row := .only .title "parent" 1 }, .getNextChildId "bd-1",
    .createIssue context { id := "bd-1.1", row := .only .title "child" 2 }, .delete "bd-1.1", .getNextChildId "bd-1"]

theorem run_twoChildren_second : ∃ earlier before later,
    (run twoChildren {}).2 = earlier ++ .drawn before "bd-1" "bd-1.2" :: later ∧
      (∀ plane, before.stored plane "bd-1.2" = false) ∧ ∀ other, .drawn other "bd-1" "bd-1.2" ∉ earlier := by
  have ran : (run twoChildren {}).2 = [_, _, _, _] ++ .drawn _ "bd-1" "bd-1.2" :: [] := rfl
  refine ⟨_, _, _, ran, run_child_new twoChildren {} ran ⟨fun number found => ?_, fun escaped => ?_⟩ fun spent => ?_⟩
  · exact nomatch found
  · exact absurd escaped (by decide)
  · have deleted := spent.mem
    simp at deleted

end CreateStore

end Beads
