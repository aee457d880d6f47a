import Beads.Create.Ids

namespace Beads

open Fallible CreateStore Text List

namespace CreateStore

variable {store : CreateStore} {context : CreateContext} {request : CreateRequest} {created : CreatedRow} {idPrefix : String}

variable {id : Id} {counter : KeyedTable String Nat}

theorem stored_eq_false {plane : Plane} : store.stored plane id = false ↔ (store.items plane).get? id = none := by
  rw [stored, Option.isSome_eq_false_iff, Option.isNone_iff_eq_none]

theorem mem_ids {plane : Plane} (found : store.stored plane id = true) : id ∈ store.ids plane := by
  obtain ⟨row, found⟩ := Option.isSome_iff_exists.mp found
  exact mem_map_of_mem (KeyedTable.get?_eq_some.mp found)

theorem toList_counterId (number : Nat) : (counterId idPrefix number).toList = idPrefix.toList ++
    '-' :: Nat.toDigits 10 number := by
  simp [counterId, Nat.toList_repr]

theorem counterSuffix?_counterId {number : Nat} (small : number ≤ maxCounter) :
    counterSuffix? idPrefix (counterId idPrefix number) = some (number : Int) := by
  have dotless : '.' ∉ Nat.toDigits 10 number := not_mem_toDigits (by decide)
  have dashed : (counterId idPrefix number).toList = (idPrefix.toList ++ ['-']) ++ Nat.toDigits 10 number := by
    rw [toList_counterId]
    simp
  have starts : (idPrefix.toList ++ ['-']).isPrefixOf (counterId idPrefix number).toList = true := by
    rw [dashed, isPrefixOf_iff_prefix]
    exact prefix_append _ _
  rw [counterSuffix?, if_pos starts, dashed, drop_left, if_neg dotless]
  exact int64?_toDigits (small.trans_lt (by decide))

theorem highestSuffix_free (plain : '\\' ∉ idPrefix.toList) (small : store.highestSuffix idPrefix + 1 ≤ maxCounter) :
    store.stored .issue (counterId idPrefix (store.highestSuffix idPrefix + 1)) = false := by
  rw [← Bool.not_eq_true]
  intro found
  have matched : like (idPrefix.toList ++ ['-', '%'])
    (counterId idPrefix (store.highestSuffix idPrefix + 1)).toList = true := by
    rw [toList_counterId]
    refine like_stem plain ?_
    simp [like, likeEscape, compile, wild, Text.Wild.accepts]
  have scanned : ((store.highestSuffix idPrefix + 1 : Nat) : Int) ∈
      ((store.ids .issue).filter fun id => like (idPrefix.toList ++ ['-', '%']) id.toList).filterMap (counterSuffix? idPrefix) :=
    mem_filterMap.mpr ⟨_, mem_filter.mpr ⟨mem_ids found, matched⟩, counterSuffix?_counterId small⟩
  have below : store.highestSuffix idPrefix + 1 ≤ store.highestSuffix idPrefix := le_highest scanned
  exact Nat.not_succ_le_self _ below

/-- The number that the counter of a prefix stands at, after its seed. -/
def counterStart (store : CreateStore) (idPrefix : String) : Nat :=
  (store.issueCounter.get? idPrefix).getD (store.highestSuffix idPrefix)

theorem nextCounterId_ok (assigned : store.nextCounterId idPrefix = .ok (id, counter)) :
    id = counterId idPrefix (store.counterStart idPrefix + 1) ∧ store.counterStart idPrefix + 1 ≤ maxCounter := by
  have started : ((store.seedCounterFromExistingIssues idPrefix).get? idPrefix).elim 1 (· + 1) =
    store.counterStart idPrefix + 1 := by
    rw [seedCounterFromExistingIssues, counterStart]
    cases found : store.issueCounter.get? idPrefix with
    | some last => simp [found]
    | none =>
      by_cases seeded : 0 < store.highestSuffix idPrefix
      · simp [seeded]
      · have empty : store.highestSuffix idPrefix = 0 := by omega
        simp [found, empty]
  rw [nextCounterId] at assigned
  simp only [started] at assigned
  obtain ⟨fits, assigned⟩ := else_error_eq_ok.mp assigned
  have same := congrArg Prod.fst (Except.ok.inj assigned)
  exact ⟨same.symm, fits⟩

def Counts (context : CreateContext) (request : CreateRequest) : Prop :=
  context.counterMode = true ∧ request.plane = .issue

theorem assign_counted (unnamed : request.id = "") (counts : Counts context request)
    (assigned : store.assignCreateIssueId context request = .ok (id, counter)) :
    store.nextCounterId (requestedPrefix context.configPrefix request) = .ok (id, counter) := by
  rw [assignCreateIssueId, if_pos unnamed, generateIssueIdInTable, counts.1, counts.2] at assigned
  exact assigned

theorem assign_hashed (unnamed : request.id = "") (hashed : ¬ Counts context request)
    (assigned : store.assignCreateIssueId context request = .ok (id, counter)) : store.stored request.plane id = false := by
  have mode : (request.plane == .issue && context.counterMode) = false := by
    rw [← Bool.not_eq_true, Bool.and_eq_true, beq_iff_eq]
    exact fun both => hashed ⟨both.2, both.1⟩
  rw [assignCreateIssueId, if_pos unnamed, generateIssueIdInTable, mode] at assigned
  simp only [Bool.false_eq_true, if_false] at assigned
  split at assigned
  · rename_i candidate found
    obtain rfl : candidate = id := congrArg Prod.fst (Except.ok.inj assigned)
    have free := List.find?_some found
    exact stored_eq_false.mpr (Option.isNone_iff_eq_none.mp free)
  · cases assigned

theorem createRow_ok (ran : store.createRow context request = .ok created) :
    created.plane = request.plane ∧ created.store.childCounters = store.childCounters ∧
      store.assignCreateIssueId context request = .ok (created.id, created.store.issueCounter) ∧
      (created.outcome = .skipped ∧ created.store.items = store.items ∨
        store.stored request.plane.sibling created.id = false ∧
        ∃ result, insertIssueIfNew context.opts request.token (store.items request.plane) created.id request.row = .ok result ∧
          created.store.items = Function.update store.items request.plane result.table) := by
  rw [createRow] at ran
  have ran := (ite_error_eq_ok.mp ran).2
  obtain ⟨⟨id, counter⟩, assigned, ran⟩ := bind_eq_ok ran
  obtain ⟨_, _, ran⟩ := bind_eq_ok ran
  obtain ⟨skip, checked, ran⟩ := bind_eq_ok ran
  split at ran
  · cases ran
    exact ⟨rfl, rfl, assigned, .inl ⟨rfl, rfl⟩⟩
  · rename_i unskipped
    have apart : store.stored request.plane.sibling id = false := by
      rw [← Bool.not_eq_true]
      intro taken
      have here : stored { store with issueCounter := counter } request.plane.sibling id = true := taken
      rw [checkCrossTableIdCollision, if_pos here] at checked
      split at checked
      · exact unskipped (Except.ok.inj checked).symm
      · exact nomatch checked
    split at ran
    · exact nomatch ran
    · rename_i result inserted
      cases ran
      exact ⟨rfl, rfl, assigned, .inr ⟨apart, result, inserted, rfl⟩⟩

theorem insertIssueIfNew_absent {opts : BatchCreateOptions} {token : Nat}
    {table : KeyedTable Id IssueRow} {other : Id} {row : IssueRow}
    {result : InsertResult} (absent : table.get? id = none) (inserted : insertIssueIfNew opts token table id row = .ok result) :
    result.table.get? other = if other = id then some (row.insertArgs token) else table.get? other := by
  rw [insertIssueIfNew] at inserted
  simp only [absent, Option.isSome_none, Bool.and_false, Bool.false_eq_true, if_false,
    Option.any_none, insertIssueIntoTable] at inserted
  split at inserted <;>
  · cases inserted
    exact KeyedTable.get?_insert

end CreateStore

namespace CreateMoment

variable (moment : CreateMoment)

def requestedPrefix : String := CreateStore.requestedPrefix moment.context.configPrefix moment.request

def Fresh : Prop := ∀ plane, moment.before.stored plane moment.created.id = false

def Kept : Prop :=
  ∀ plane id row, (moment.before.items plane).get? id = some row → (moment.created.store.items plane).get? id = some row

/-- In counter mode nobody has taken the number after the counter's. A counter without a row is
seeded past every stored number; the seed misses the ids of a prefix with an escape character. -/
def CounterFree : Prop :=
  CreateStore.Counts moment.context moment.request →
    match moment.before.issueCounter.get? moment.requestedPrefix with
    | some lastId => moment.before.stored .issue (CreateStore.counterId moment.requestedPrefix (lastId + 1)) = false
    | none => '\\' ∈ moment.requestedPrefix.toList →
        moment.before.stored .issue
          (CreateStore.counterId moment.requestedPrefix (moment.before.highestSuffix moment.requestedPrefix + 1)) = false

def Ran : Prop := moment.before.createRow moment.context moment.request = .ok moment.created

variable {moment}

section

variable (unnamed : moment.request.id = "")
include unnamed

theorem counterFree_iff (counts : CreateStore.Counts moment.context moment.request)
    (ran : moment.Ran) : moment.CounterFree ↔ moment.before.stored .issue moment.created.id = false := by
  obtain ⟨_, _, assigned, _⟩ := createRow_ok ran
  have counted : moment.before.nextCounterId moment.requestedPrefix =
    .ok (moment.created.id, moment.created.store.issueCounter) :=
    assign_counted unnamed counts assigned
  obtain ⟨named, small⟩ := nextCounterId_ok counted
  rw [CounterFree, named]
  rw [counterStart] at small ⊢
  cases found : moment.before.issueCounter.get? moment.requestedPrefix with
  | some lastId => exact ⟨fun free => free counts, fun free _ => free⟩
  | none =>
    rw [found] at small
    refine ⟨fun free => ?_, fun free _ _ => free⟩
    by_cases escaped : '\\' ∈ moment.requestedPrefix.toList
    · exact free counts escaped
    · exact highestSuffix_free escaped small

theorem ownPlane_iff (ran : moment.Ran) :
    moment.CounterFree ↔ moment.before.stored moment.request.plane moment.created.id = false := by
  by_cases counts : CreateStore.Counts moment.context moment.request
  · rw [counts.2]
    exact counterFree_iff unnamed counts ran
  · obtain ⟨_, _, assigned, _⟩ := createRow_ok ran
    exact ⟨fun _ => assign_hashed unnamed counts assigned, fun _ counted => absurd counted counts⟩

theorem fresh_and_kept_iff {isNew : Bool} (accepted : moment.created.outcome = .accepted isNew)
    (ran : moment.Ran) : moment.Fresh ∧ moment.Kept ↔ moment.CounterFree := by
  rw [ownPlane_iff unnamed ran]
  refine ⟨fun both => both.1 _, fun free => ?_⟩
  obtain ⟨_, _, _, skipped | ⟨apart, result, inserted, written⟩⟩ := createRow_ok ran
  · exact absurd (accepted.symm.trans skipped.1) nofun
  · refine ⟨fun plane => ?_, fun plane id row found => ?_⟩
    · cases moved : moment.request.plane <;> cases plane <;> rw [moved] at free apart <;> assumption
    · rw [written]
      by_cases own : plane = moment.request.plane
      · subst own
        have other : id ≠ moment.created.id := by
          rintro rfl
          exact nomatch found.symm.trans (stored_eq_false.mp free)
        rw [Function.update_self, insertIssueIfNew_absent (stored_eq_false.mp free) inserted, if_neg other]
        exact found
      · rw [Function.update_of_ne own]
        exact found

end

end CreateMoment

namespace CreateStore

variable {store : CreateStore} {moment : CreateMoment}

theorem createRows_ran {context : CreateContext} {requests : List CreateRequest}
    {after : CreateStore} {moments : List CreateMoment}
    (ran : createRows context requests store = .ok (after, moments)) : ∀ moment ∈ moments, moment.Ran := by
  induction requests generalizing store after moments with
  | nil =>
    cases ran
    exact nofun
  | cons request rest ih =>
    obtain ⟨created, first, others⟩ := bind_eq_ok ran
    obtain ⟨⟨final, later⟩, rows, ⟨⟩⟩ := map_eq_ok others
    exact forall_mem_cons.mpr ⟨first, ih rows⟩

theorem mem_created {moments : List CreateMoment} :
    CreateEvent.created moment ∈ moments.map .created ↔ moment ∈ moments :=
  mem_map_of_injective fun _ _ same => CreateEvent.created.inj same

theorem execute_ran {after : CreateStore} {operation : CreateOperation} {events : List CreateEvent}
    (ran : store.execute operation = .ok (after, events)) (member : .created moment ∈ events) : moment.Ran := by
  cases operation with
  | createIssue context request =>
    obtain ⟨⟨final, moments⟩, created, ⟨⟩⟩ := map_eq_ok ran
    have listed : moment ∈ moments := mem_created.mp member
    obtain ⟨created, first, reconciled⟩ := bind_eq_ok created
    split at reconciled
    · obtain ⟨_, _, ⟨⟩⟩ := map_eq_ok reconciled
      cases mem_singleton.mp listed
      exact first
    · cases reconciled
      cases mem_singleton.mp listed
      exact first
  | createIssues context requests =>
    obtain ⟨⟨final, moments⟩, created, ⟨⟩⟩ := map_eq_ok ran
    obtain ⟨⟨written, rows⟩, rowed, reconciled⟩ := bind_eq_ok created
    obtain ⟨_, _, ⟨⟩⟩ := map_eq_ok reconciled
    exact createRows_ran rowed moment (mem_created.mp member)
  | getNextChildId parentId | delete id =>
    obtain ⟨_, _, ⟨⟩⟩ := map_eq_ok ran
    exact nomatch mem_singleton.mp member

theorem run_ran {operations : List CreateOperation}
    (member : .created moment ∈ (run operations store).2) : moment.Ran := by
  induction operations generalizing store with
  | nil => cases member
  | cons operation rest ih =>
    rw [run] at member
    split at member
    · exact ih member
    · rename_i after events executed
      obtain here | later := mem_append.mp member
      · exact execute_ran executed here
      · exact ih later

/-- In every run, a create without an id that is accepted gets the id of no row and leaves every row
alone exactly if the counter's next number was not taken. -/
theorem run_fresh_iff (operations : List CreateOperation) (store : CreateStore) {moment : CreateMoment} {isNew : Bool}
    (member : .created moment ∈ (run operations store).2) (unnamed : moment.request.id = "")
    (accepted : moment.created.outcome = .accepted isNew) : moment.Fresh ∧ moment.Kept ↔ moment.CounterFree :=
  moment.fresh_and_kept_iff unnamed accepted (run_ran member)

/-- Four creates in counter mode; the second names the number that the third will get. -/
def takenNumber : List CreateOperation :=
  let context : CreateContext := { counterMode := true, hashSuffix := fun _ _ _ => "x" }
  [.createIssue context { row := .only .title "first" 1 },
    .createIssue context { id := "bd-2", row := .only .title "second" 2 },
    .createIssue context { row := .only .title "third" 3 },
    .createIssue context { row := .only .title "fourth" 4 }]

/-- The fourth create finds the rows of the others stored. -/
theorem run_takenNumber_fourth : ∃ moment, .created moment ∈ (run takenNumber {}).2 ∧
    moment.before.stored .issue "bd-2" = true ∧ moment.created.id = "bd-3" ∧
    moment.Fresh ∧ moment.Kept := by
  refine ⟨_, List.mem_of_getElem? (i := 3) rfl, by decide, by decide, ?_⟩
  exact (run_fresh_iff takenNumber {} (List.mem_of_getElem? (i := 3) rfl) rfl rfl).mpr
    fun _ => rfl

theorem run_takenNumber_overwrites : ∃ moment, .created moment ∈ (run takenNumber {}).2 ∧ moment.request.id = "" ∧
    moment.created.outcome = .accepted false ∧ moment.before.stored .issue moment.created.id =
      true ∧ ¬ moment.Fresh ∧ ¬ moment.Kept := by
  refine ⟨_, List.mem_of_getElem? (i := 2) rfl, rfl, rfl, rfl, fun fresh => ?_, fun kept => ?_⟩
  · exact nomatch fresh .issue
  · have same := kept .issue "bd-2" _ rfl
    exact absurd (congrArg (Option.map fun row => row (.text .title)) same) (by decide)

end CreateStore

end Beads
