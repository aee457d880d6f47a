import Beads.Lifecycle.Outcomes

namespace Beads

open SnapshotTransactions Fallible LifecycleStore LifecycleWrite

open List

abbrev LifecycleSystem : Type := System LifecycleStore LifecycleTask LifecycleCell

/-- The write takes the claim away or gives it to somebody: it sets the status or the assignee, or
deletes the row. -/
def RowWrite.rewritesClaim : RowWrite → Bool
  | .patch clauses => clauses.status.isSome || clauses.assignee.isSome
  | .delete => true

def LifecycleVerb.claimedBy : LifecycleVerb → Option String
  | .claim _ actor => some actor
  | _ => none

/-- The actor whose claim of the row the action commits. A claim that its actor
already holds writes nothing. -/
def claimant (config : LifecycleConfig) (ref : ItemRef) (system : LifecycleSystem) (action : Action) : Option String :=
  (system.committed (lifecycleProtocol config) action).bind fun (transaction, writes) =>
    if (writes.flatMap (LifecycleWrite.onRow ref)).isEmpty then none else transaction.task.verb.claimedBy

def rewritesClaim (config : LifecycleConfig) (ref : ItemRef) (system : LifecycleSystem) (action : Action) : Bool :=
  (system.committed (lifecycleProtocol config) action).any fun (transaction, writes) =>
    transaction.task.verb.claimedBy.isNone && (writes.flatMap (LifecycleWrite.onRow ref)).any RowWrite.rewritesClaim

def claimants (config : LifecycleConfig) (ref : ItemRef) : LifecycleSystem → List Action → List String
  | _, [] => []
  | system, action :: rest =>
    (claimant config ref system action).toList ++
      match system.step (lifecycleProtocol config) action with
      | some next => claimants config ref next rest
      | none => []

/-- The id names a row in each plane, and the two have the same lock token. -/
def LifecycleStore.twinned (store : LifecycleStore) (id : Id) : Bool :=
  (store.row ⟨.issue, id⟩).any fun issue => (store.row ⟨.wisp, id⟩).any fun wisp => wisp.rowLock == issue.rowLock

/-- The action does not commit on an id that was twinned when its transaction began. -/
def untwinned (config : LifecycleConfig) (id : Id) (system : LifecycleSystem) (action : Action) : Bool :=
  (system.committed (lifecycleProtocol config) action).all fun (transaction, _) => !transaction.snapshot.twinned id

namespace LifecycleStore

variable {store : LifecycleStore} {config : LifecycleConfig} {now rowLock : Nat} {id : Id}
  {actor : String} {ref : ItemRef} {writes : List LifecycleWrite}

theorem routed_row_of_not_twinned {oldIssue row : ItemRow} (apart : store.twinned id = false)
    (read : store.getIssue id = some oldIssue)
    (found : store.row (store.routed id) = some row) (locked : row.rowLock = oldIssue.rowLock) : row = oldIssue := by
  cases wisp : store.row ⟨.wisp, id⟩ with
  | none =>
    have durable : store.isActiveWisp id = false := by rw [isActiveWisp, wisp]; rfl
    rw [routed_issue durable, getIssue_durable durable read] at found
    exact (Option.some.inj found).symm
  | some ephemeral =>
    rw [routed_wisp (by rw [isActiveWisp, wisp]; rfl), wisp] at found
    cases issue : store.row ⟨.issue, id⟩ with
    | none =>
      rw [getIssue, issue, wisp] at read
      exact (Option.some.inj found).symm.trans (Option.some.inj read)
    | some durable =>
      -- the row that was read is the issue's, and the other one has another token
      rw [getIssue, issue] at read
      rw [twinned, issue, wisp, Option.any_some, Option.any_some, Option.some.inj found, Option.some.inj read] at apart
      exact absurd locked (beq_eq_false_iff_ne.mp apart)

theorem claimIssue_row (claimed : store.claimIssue config now rowLock id actor = .ok writes)
    (touched : writes.flatMap (onRow ref) ≠ []) :
    ref.id = id ∧ ∃ row, store.row ref = some row ∧ row.status ∈ config.claimableSourceStatuses ∧
      (store.twinned id = false → assigneeOK config row actor = true) ∧
      ∃ oldIssue, writes.flatMap (onRow ref) = [.patch (claimPatch now rowLock oldIssue actor)] := by
  obtain rfl | ⟨oldIssue, read, free, ⟨row, found, locked, claimable⟩, rfl⟩ := claimIssue_ok claimed
  · exact absurd rfl touched
  rw [onRow_cons _ grantLease_onRow] at touched ⊢
  have here : store.routed id = ref := by
    by_contra away
    exact touched (if_neg away)
  subst here
  refine ⟨rfl, row, found, claimable, fun apart => ?_, oldIssue, if_pos rfl⟩
  rw [routed_row_of_not_twinned apart read found locked]
  exact free

end LifecycleStore

theorem claimant_eq_some {config : LifecycleConfig} {ref : ItemRef} {system : LifecycleSystem}
    {action : Action} {actor : String} (claimed : claimant config ref system action = some actor) :
    ∃ transaction writes, system.committed (lifecycleProtocol config) action =
      some (transaction, writes) ∧ (∃ now rowLock oldIssue, writes.flatMap (onRow ref) =
        [.patch (claimPatch now rowLock oldIssue actor)]) ∧
      ∃ row, transaction.snapshot.row ref = some row ∧ row.status ∈ config.claimableSourceStatuses ∧
        (transaction.snapshot.twinned ref.id = false → assigneeOK config row actor = true) := by
  obtain ⟨⟨transaction, writes⟩, taken, named⟩ := Option.bind_eq_some_iff.mp claimed
  dsimp only at named
  split at named
  · cases named
  rename_i touched
  have written : writes.flatMap (onRow ref) ≠ [] := fun none => touched (by rw [none]; rfl)
  obtain ⟨_, executed, _⟩ := System.committed_eq_some taken
  refine ⟨transaction, writes, taken, ?_⟩
  obtain ⟨⟨verb, now, rowLock⟩, snapshot, since⟩ := transaction
  cases verb with
  | claim id claimer =>
    obtain rfl : claimer = actor := Option.some.inj named
    obtain ⟨rfl, row, found, claimable, free, oldIssue, patch⟩ := claimIssue_row (toOption_eq_some executed) written
    exact ⟨⟨_, _, oldIssue, patch⟩, row, found, claimable, free⟩
  | _ => cases named

/-- A snapshot has the rows that nobody has written since. -/
def RowsShown (config : LifecycleConfig) (system : LifecycleSystem) : Prop :=
  ∀ ref, system.Agreeing (lifecycleProtocol config) (.lock ref) fun snapshot head => snapshot.row ref = head.row ref

namespace RowsShown

variable {config : LifecycleConfig} {system next : LifecycleSystem} {action : Action} {ref : ItemRef} {actor : String}

section

variable (shown : RowsShown config system)
include shown

theorem step (stepped : system.step (lifecycleProtocol config) action = some next) :
    RowsShown config next := by
  intro ref
  refine (shown ref).step (fun _ => rfl) Eq.trans (fun _ _ writes store _ apart => ?_) stepped
  have untouched := LifecycleCell.onRow_eq_nil apart
  have written : (store.writeAll writes).row ref = _ := row_writeAll writes
  rw [untouched] at written
  exact written.symm

theorem row_eq {transaction : Transaction LifecycleStore LifecycleTask}
    {writes : List LifecycleWrite} (taken : system.committed (lifecycleProtocol config) action = some (transaction, writes))
    (touched : writes.flatMap (onRow ref) ≠ []) : transaction.snapshot.row ref = system.head.row ref := by
  obtain ⟨running, _, free⟩ := System.committed_eq_some taken
  exact (shown ref transaction running).2 (LifecycleCell.unwritten_lock free touched)

theorem claimant_row (claimed : claimant config ref system action = some actor) :
    ∃ row, system.head.row ref = some row ∧ row.status ∈ config.claimableSourceStatuses ∧
      (untwinned config ref.id system action = true → assigneeOK config row actor = true) := by
  obtain ⟨transaction, writes, taken, patched, row, found, claimable, free⟩ := claimant_eq_some claimed
  have written : writes.flatMap (onRow ref) ≠ [] := fun none => by
    obtain ⟨_, _, _, patch⟩ := patched
    exact absurd (none.symm.trans patch) nofun
  refine ⟨row, (shown.row_eq taken written).symm.trans found, claimable, fun apart => free ?_⟩
  simpa [untwinned, taken] using apart

end

end RowsShown

def InProgress (ref : ItemRef) (system : LifecycleSystem) : Prop :=
  ∃ row, system.head.row ref = some row ∧ row.status = .inProgress

theorem inProgress_notMem_claimable (config : LifecycleConfig) : Status.inProgress ∉ config.claimableSourceStatuses := by
  simp [LifecycleConfig.claimableSourceStatuses]

theorem foldl_keeps_status {rows : List RowWrite} (kept : ∀ write ∈ rows, write.rewritesClaim = false) (row : ItemRow) :
    ∃ after, rows.foldl (fun row write => write.on row) (some row) = some after ∧ after.status = row.status := by
  induction rows generalizing row with
  | nil => exact ⟨row, rfl, rfl⟩
  | cons write rest ih =>
    have first := kept write (.head _)
    cases write with
    | delete => cases first
    | patch clauses =>
      obtain ⟨after, left, same⟩ := ih (fun other member => kept other (.tail _ member)) (clauses.apply row)
      have unset : clauses.status = none := by
        simpa using (Bool.or_eq_false_iff.mp first).1
      refine ⟨after, left, same.trans ?_⟩
      rw [RowPatch.apply, unset]
      rfl

section Intervals

variable {config : LifecycleConfig} {system next : LifecycleSystem} {action : Action} {ref : ItemRef} {actor : String}

theorem claimant_eq_none (shown : RowsShown config system) (progress : InProgress ref system)
    (action : Action) : claimant config ref system action = none := by
  by_contra claimed
  obtain ⟨actor, named⟩ := Option.ne_none_iff_exists'.mp claimed
  obtain ⟨row, found, claimable, _⟩ := shown.claimant_row named
  obtain ⟨current, here, status⟩ := progress
  rw [Option.some.inj (found.symm.trans here), status] at claimable
  exact inProgress_notMem_claimable config claimable

theorem InProgress.step (progress : InProgress ref system) (shown : RowsShown config system)
    (kept : rewritesClaim config ref system action = false)
    (stepped : system.step (lifecycleProtocol config) action = some next) :
    InProgress ref next := by
  obtain ⟨_, same⟩ | ⟨transaction, writes, taken, installed⟩ := System.head_of_step stepped
  · rwa [InProgress, same]
  have unclaimed := claimant_eq_none shown progress action
  obtain ⟨row, found, status⟩ := progress
  have written : next.head.row ref = _ := (congrArg (fun head => head.row ref) installed).trans (row_writeAll writes)
  rw [found] at written
  have each : ∀ write ∈ writes.flatMap (onRow ref), write.rewritesClaim = false := by
    intro write member
    cases verb : transaction.task.verb.claimedBy with
    | none =>
      simp only [rewritesClaim, taken, Option.any_some, verb, Option.isNone_none, Bool.true_and] at kept
      exact (Bool.not_eq_true _).mp (any_eq_false.mp kept write member)
    | some actor =>
      have touched := isEmpty_eq_false_iff.mpr (ne_nil_of_mem member)
      have claimed : claimant config ref system action = some actor := by
        simp only [claimant, taken, Option.bind_some, touched, Bool.false_eq_true, if_false, verb]
      exact absurd (unclaimed.symm.trans claimed) nofun
  obtain ⟨after, left, same⟩ := foldl_keeps_status each row
  exact ⟨after, written.trans left, same.trans status⟩

theorem inProgress_of_claimant (claimed : claimant config ref system action = some actor) (shown : RowsShown config system)
    (stepped : system.step (lifecycleProtocol config) action = some next) : InProgress ref next := by
  obtain ⟨row, found, _⟩ := shown.claimant_row claimed
  obtain ⟨transaction, writes, taken, ⟨now, rowLock, oldIssue, patched⟩, _⟩ := claimant_eq_some claimed
  obtain ⟨none, _⟩ | ⟨_, effect, same, installed⟩ := System.head_of_step stepped
  · exact absurd (none.symm.trans taken) nofun
  obtain rfl : writes = effect := (Prod.mk.inj (Option.some.inj (taken.symm.trans same))).2
  have written : next.head.row ref = _ := (congrArg (fun head => head.row ref) installed).trans (row_writeAll writes)
  rw [found, patched] at written
  exact ⟨_, written, rfl⟩

section

variable {final : LifecycleSystem} {interval : List Action} (shown : RowsShown config system)
  (ran : System.Run (lifecycleProtocol config) (fun system action =>
    rewritesClaim config ref system action = false) system interval final)
include shown ran

theorem claimants_of_inProgress
    (progress : InProgress ref system) : claimants config ref system interval = [] := by
  induction ran with
  | done => rfl
  | next kept stepped _ ih =>
    rw [claimants, claimant_eq_none shown progress _, stepped]
    exact ih (shown.step stepped) (progress.step shown kept stepped)

theorem claimants_length_le_one : (claimants config ref system interval).length ≤ 1 := by
  induction ran with
  | done => exact Nat.zero_le _
  | next kept stepped further ih =>
    rename_i start middle _ action rest
    rw [claimants, stepped]
    cases claimed : claimant config ref start action with
    | none => exact ih (shown.step stepped)
    | some actor =>
      have progress := inProgress_of_claimant claimed shown stepped
      have later := claimants_of_inProgress (shown.step stepped) further progress
      dsimp only
      rw [later]
      exact Nat.le_refl _

end

end Intervals

/-- In every run a claim commits on a row that its actor may claim, and of the claims that commit
before something else rewrites the claim there is at most one. -/
theorem LifecycleStore.concurrently_claims {config : LifecycleConfig} {store : LifecycleStore}
    {tasks : List LifecycleTask} {actions : List Action} {system : LifecycleSystem}
    (ran : System.Run (lifecycleProtocol config) (fun _ _ => True) (store.concurrently tasks) actions system) (ref : ItemRef) :
    (∀ action actor, claimant config ref system action = some actor → ∃ row,
      system.head.row ref = some row ∧ row.status ∈ config.claimableSourceStatuses ∧
      (untwinned config ref.id system action = true →
        row.holder = "" ∨ actorMatches row.holder actor = true ∨ row.holder ∈ config.claimPools)) ∧
    ∀ interval final, System.Run (lifecycleProtocol config) (fun system action => rewritesClaim config ref system action = false)
        system interval final →
      (∀ actor, (claimants config ref system interval).countP (actorMatches actor) ≤ 1) ∧
      ∀ one ∈ claimants config ref system interval, ∀ other ∈ claimants config ref system interval,
        actorMatches one other = true := by
  have shown : RowsShown config system :=
    ran.preserves (fun _ _ _ shown _ stepped => RowsShown.step shown stepped) fun _ _ running => absurd running not_mem_nil
  refine ⟨fun action actor claimed => ?_, fun interval final ran => ?_⟩
  · obtain ⟨row, found, claimable, free⟩ := shown.claimant_row claimed
    refine ⟨row, found, claimable, fun apart => ?_⟩
    simpa [assigneeOK, or_assoc] using free apart
  · have few := claimants_length_le_one shown ran
    refine ⟨fun actor => Nat.le_trans countP_le_length few, fun one first other second => ?_⟩
    cases listed : claimants config ref system interval with
    | nil => exact absurd (listed ▸ first) not_mem_nil
    | cons single rest =>
      obtain rfl : rest = [] := length_eq_zero_iff.mp (by simpa [listed] using few)
      rw [listed] at first second
      rw [mem_singleton.mp first, mem_singleton.mp second]
      exact actorMatches_self single

/-- Two actors begin to claim an issue that nobody holds. -/
def LifecycleStore.racing : Option LifecycleSystem :=
  let store : LifecycleStore :=
    { items := fun plane => if plane = .issue then { entries := [("bd-1", { status := .opened })] } else {}, leases := {} }
  [Action.begin 0, .begin 0].foldlM (System.step (lifecycleProtocol {}))
    (store.concurrently [⟨.claim "bd-1" "ann", 10, fun _ => 1⟩, ⟨.claim "bd-1" "bob", 10, fun _ => 2⟩])

theorem LifecycleStore.racing_claims :
    racing.map (fun system => claimants {} ⟨.issue, "bd-1"⟩ system [.commit 0, .commit 0, .begin 0]) = some ["ann"] ∧
    ∃ system, racing = some system ∧ ∃ row, system.head.row ⟨.issue, "bd-1"⟩ = some row ∧
      row.status ∈ LifecycleConfig.claimableSourceStatuses {} := by
  have evaluated : racing.map (fun system => claimant {} ⟨.issue, "bd-1"⟩ system (.commit 0)) = some (some "ann") := by decide
  obtain ⟨system, reached, claimed⟩ := Option.map_eq_some_iff.mp evaluated
  obtain ⟨row, found, claimable, _⟩ := (concurrently_claims (.of_steps reached) ⟨.issue, "bd-1"⟩).1 _ _ claimed
  exact ⟨by decide, system, reached, row, found, claimable⟩

/-- An issue that is free and a wisp of the same id that is not, both with the token of a row that
was never rewritten. -/
def LifecycleStore.twins : LifecycleStore where
  items
    | .issue => { entries := [("bd-1", { status := .opened })] }
    | .wisp => { entries := [("bd-1", { status := .opened, assignee := some "bob" })] }
  leases := {}

theorem LifecycleStore.twin_stolen : ∃ system, System.Run (lifecycleProtocol {}) (fun _ _ => True)
      (twins.concurrently [⟨.claim "bd-1" "ann", 10, fun _ => 1⟩]) [.begin 0] system ∧
    claimant {} ⟨.wisp, "bd-1"⟩ system (.commit 0) = some "ann" ∧
    ∃ row, system.head.row ⟨.wisp, "bd-1"⟩ = some row ∧ row.holder = "bob" ∧ actorMatches "bob" "ann" = false :=
  ⟨_, .of_steps rfl, by decide, _, rfl, rfl, by decide⟩

end Beads
