import Beads.Lifecycle.Outcomes

namespace Beads

open SnapshotTransactions Fallible LifecycleWrite LifecycleCell LifecycleStore IssueUpdates List

/-- Every lease belongs to an issue in progress whose assignee is its holder. -/
def LifecycleStore.Live (store : LifecycleStore) : Prop :=
  ∀ id lease, store.leases.get? id = some lease →
    ∃ row, store.row ⟨.issue, id⟩ = some row ∧ row.status = .inProgress ∧ actorMatches row.holder lease.holder = true

/-- The head has the snapshot's claim on the issue and no lease that the snapshot lacks. -/
structure Anchored (id : Id) (snapshot head : LifecycleStore) : Prop where
  claim : (snapshot.row ⟨.issue, id⟩).map (fun row => (row.status, row.holder)) =
    (head.row ⟨.issue, id⟩).map fun row => (row.status, row.holder)
  unleased : snapshot.leases.get? id = none → head.leases.get? id = none

def HeldAlike (id : Id) (snapshot head : LifecycleStore) : Prop :=
  (snapshot.leases.get? id).map Lease.holder = (head.leases.get? id).map Lease.holder

def IssueUpdates.Printable (updates : IssueUpdates) : Prop :=
  ∀ printed stored, updates.assignee = some (.other printed stored) → stored.getD "" = printed

def LifecycleVerb.Printable : LifecycleVerb → Prop
  | .update _ updates _ => updates.Printable
  | _ => True

/-- The writes on the row and on the lease of one issue, with what the
transaction has seen of them. -/
inductive Slice (snapshot : LifecycleStore) (id : Id) : List RowWrite → List LeaseWrite → Prop where
  | quiet {leases : List LeaseWrite} (each : ∀ write ∈ leases, write.quiet = true) : Slice snapshot id [] leases
  /-- The lease is refreshed under another spelling of its holder. -/
  | respelled {held : List LeaseWrite} {leaseExpiresAt heartbeatAt : Nat}
    {grantedNode : Option String} {actor : String} {lease : Lease}
      (each : ∀ write ∈ held, write.quiet = true) (stored : snapshot.leases.get? id = some lease)
      (own : actorMatches lease.holder actor = true) :
      Slice snapshot id [] (held ++ [.refresh leaseExpiresAt heartbeatAt grantedNode (some actor)])
  | ended {rows : List RowWrite} {leases : List LeaseWrite} (written : rows ≠ []) (each : ∀ write ∈ leases, write = .delete)
      (gone : leases = [] → snapshot.leases.get? id = none) : Slice snapshot id rows leases
  | kept {clauses : RowPatch} {row : ItemRow} (stored : snapshot.row ⟨.issue, id⟩ = some row)
      (same : ∀ other : ItemRow, other.status = row.status → other.holder = row.holder →
        (clauses.apply other).status = row.status ∧ (clauses.apply other).holder = row.holder) :
      Slice snapshot id [.patch clauses] []
  | granted {clauses : RowPatch} {row : ItemRow} {held : List LeaseWrite} {grant : LeaseWrite} {actor : String}
      (stored : snapshot.row ⟨.issue, id⟩ = some row)
      (claimed : ∀ other : ItemRow, other.status = row.status → other.holder = row.holder →
        (clauses.apply other).status = .inProgress ∧ actorMatches (clauses.apply other).holder actor = true)
      (each : ∀ write ∈ held, write.quiet = true) (holds : ∀ before lease, grant.on before = some lease → lease.holder = actor) :
      Slice snapshot id [.patch clauses] (held ++ [grant])

variable {leases : List LeaseWrite} {before : Option Lease} {lease : Lease} {row : ItemRow}

theorem foldl_quiet (each : ∀ write ∈ leases, write.quiet = true)
    (after : leases.foldl (fun lease write => write.on lease) before = some lease) :
    ∃ stored, before = some stored ∧ stored.holder = lease.holder := by
  induction leases generalizing before with
  | nil => exact ⟨lease, after, rfl⟩
  | cons write rest ih =>
    obtain ⟨middle, found, same⟩ := ih (fun other member => each other (.tail _ member)) after
    have quiet := each write (.head _)
    match write, quiet with
    | .refresh _ _ _ none, _ =>
      obtain ⟨stored, here, rfl⟩ := Option.map_eq_some_iff.mp found
      exact ⟨stored, here, same⟩
    | .delete, _ => cases found

theorem foldl_delete (each : ∀ write ∈ leases, write = .delete)
    (gone : leases = [] → before = none) : leases.foldl (fun lease write => write.on lease) before = none := by
  induction leases generalizing before with
  | nil => exact gone rfl
  | cons write rest ih =>
    refine ih (fun other member => each other (.tail _ member)) fun _ => ?_
    rw [each write (.head _)]
    rfl

theorem foldl_not_insert (granted : ∀ lease, .insert lease ∉ leases) :
    leases.foldl (fun lease write => write.on lease) none = none := by
  induction leases with
  | nil => rfl
  | cons write rest ih =>
    have absent : write.on none = none := by
      cases write with
      | insert lease => exact absurd (.head _) (granted lease)
      | regrant lease | refresh leaseExpiresAt heartbeatAt grantedNode holder | delete => rfl
    rw [foldl_cons, absent]
    exact ih fun lease member => granted lease (.tail _ member)

theorem foldl_refresh (each : ∀ write ∈ leases, ∃ leaseExpiresAt heartbeatAt grantedNode,
      write = .refresh leaseExpiresAt heartbeatAt grantedNode none) :
    (leases.foldl (fun lease write => write.on lease) before).map Lease.holder = before.map Lease.holder := by
  induction leases generalizing before with
  | nil => rfl
  | cons write rest ih =>
    obtain ⟨leaseExpiresAt, heartbeatAt, grantedNode, rfl⟩ := each write (.head _)
    rw [foldl_cons, ih fun other member => each other (.tail _ member), LeaseWrite.on, Option.map_map]
    rfl

namespace Slice

variable {snapshot head : LifecycleStore} {id : Id} {rows : List RowWrite} {leases : List LeaseWrite}

theorem anchored_row (anchored : Anchored id snapshot head) (stored : snapshot.row ⟨.issue, id⟩ = some row) :
    ∃ current, head.row ⟨.issue, id⟩ = some current ∧ current.status = row.status ∧ current.holder = row.holder := by
  have claim := anchored.claim
  rw [stored] at claim
  obtain ⟨current, found, same⟩ := Option.map_eq_some_iff.mp claim.symm
  exact ⟨current, found, (Prod.mk.inj same).1, (Prod.mk.inj same).2⟩

theorem live (slice : Slice snapshot id rows leases) (live : head.Live) (anchored : rows ≠ [] → Anchored id snapshot head)
    (alike : ∀ leaseExpiresAt heartbeatAt grantedNode actor,
      .refresh leaseExpiresAt heartbeatAt grantedNode (some actor) ∈ leases → HeldAlike id snapshot head)
    (left : leases.foldl (fun lease write => write.on lease) (head.leases.get? id) = some lease) :
    ∃ row, rows.foldl (fun row write => write.on row) (head.row ⟨.issue, id⟩) = some row ∧
      row.status = .inProgress ∧ actorMatches row.holder lease.holder = true := by
  cases slice with
  | quiet each =>
    obtain ⟨stored, found, same⟩ := foldl_quiet each left
    rw [← same]
    exact live id stored found
  | respelled each stored own =>
    rw [foldl_append] at left
    obtain ⟨middle, found, rfl⟩ := Option.map_eq_some_iff.mp left
    obtain ⟨current, here, _⟩ := foldl_quiet each found
    have held := alike _ _ _ _ (mem_append_right _ (.head _))
    rw [HeldAlike, stored, here] at held
    obtain ⟨row, found, status, holding⟩ := live id current here
    refine ⟨row, found, status, ?_⟩
    rw [actorMatches_iff] at holding own ⊢
    exact holding.trans ((congrArg canonicalActor (Option.some.inj held)).symm.trans own)
  | ended written each gone =>
    rw [foldl_delete each fun empty => (anchored written).unleased (gone empty)] at left
    cases left
  | kept stored same =>
    obtain ⟨current, found, status, holder⟩ := anchored_row (anchored (cons_ne_nil _ _)) stored
    obtain ⟨row, here, progress, holding⟩ := live id lease left
    obtain rfl : current = row := Option.some.inj (found.symm.trans here)
    obtain ⟨statusKept, holderKept⟩ := same current status holder
    refine ⟨_, by rw [foldl_cons, found]; rfl, statusKept.trans (status.symm.trans progress), ?_⟩
    rw [holderKept, ← holder]
    exact holding
  | granted stored claimed each holds =>
    obtain ⟨current, found, status, holder⟩ := anchored_row (anchored (cons_ne_nil _ _)) stored
    obtain ⟨progress, holding⟩ := claimed current status holder
    rw [foldl_append] at left
    refine ⟨_, by rw [foldl_cons, found]; rfl, progress, ?_⟩
    rw [holds _ lease left]
    exact holding

theorem not_insert (slice : Slice snapshot id [] leases) : .insert lease ∉ leases := by
  intro member
  cases slice with
  | quiet each => exact absurd (each _ member) nofun
  | respelled each =>
    cases mem_append.mp member with
    | inl held => exact absurd (each _ held) nofun
    | inr last => exact absurd (mem_singleton.mp last) nofun
  | ended written => exact absurd rfl written

theorem of_deletes (each : ∀ write ∈ leases, write = .delete)
    (gone : rows ≠ [] → leases = [] → snapshot.leases.get? id = none) : Slice snapshot id rows leases := by
  by_cases untouched : rows = []
  · subst untouched
    exact .quiet fun write member => each write member ▸ rfl
  · exact .ended untouched each (gone untouched)

end Slice

namespace LifecycleWrite

def target : LifecycleWrite → Id
  | .row ref _ => ref.id
  | .lease id _ => id

theorem onRow_of_ne {ref : ItemRef} (write : LifecycleWrite) (away : write.target ≠ ref.id) : write.onRow ref = [] := by
  cases write with
  | lease id write => rfl
  | row other write => exact if_neg fun same => away (congrArg ItemRef.id same)

theorem onLease_of_ne {id : Id} (write : LifecycleWrite) (away : write.target ≠ id) : write.onLease id = [] := by
  cases write with
  | row other write => rfl
  | lease other write => exact if_neg away

end LifecycleWrite

def Sliced (snapshot : LifecycleStore) (id : Id) (writes : List LifecycleWrite) : Prop :=
  Slice snapshot id (writes.flatMap (LifecycleWrite.onRow ⟨.issue, id⟩)) (writes.flatMap (LifecycleWrite.onLease id))

namespace LifecycleStore

variable {store : LifecycleStore} {config : LifecycleConfig} {now rowLock : Nat} {id target : Id}
  {actor : String} {writes : List LifecycleWrite}

theorem sliced_elsewhere (away : ∀ write ∈ writes, write.target ≠ id) : Sliced store id writes := by
  have rows : writes.flatMap (onRow ⟨.issue, id⟩) = [] :=
    flatMap_eq_nil_iff.mpr fun write member => write.onRow_of_ne (away write member)
  have leases : writes.flatMap (onLease id) = [] :=
    flatMap_eq_nil_iff.mpr fun write member => write.onLease_of_ne (away write member)
  rw [Sliced, rows, leases]
  exact .quiet nofun

theorem sliced_nil : Sliced store id [] := sliced_elsewhere (forall_mem_nil _)

theorem mem_deleteLease {write : LifecycleWrite} :
    write ∈ store.deleteLease id ↔ (store.leases.get? id).isSome ∧ write = .lease id .delete := by
  rw [deleteLease, mem_ite_nil_right, mem_singleton]

theorem sliced_of_deletes (each : ∀ write, .lease id write ∈ writes → write = .delete)
    (deleted : ∀ write, .row ⟨.issue, id⟩ write ∈ writes → (store.leases.get? id).isSome →
    .lease id .delete ∈ writes) : Sliced store id writes := by
  refine .of_deletes (fun write member => each write (mem_onLease.mp member)) fun written empty => ?_
  obtain ⟨write, member⟩ := exists_mem_of_ne_nil _ written
  refine Option.not_isSome_iff_eq_none.mp fun leased => ?_
  have listed := mem_onLease.mpr (deleted write (mem_onRow.mp member) leased)
  rw [empty] at listed
  cases listed

theorem sliced_ending {write : RowWrite} : Sliced store id (.row (store.routed target) write :: store.deleteLease target) := by
  refine sliced_of_deletes (fun write member => ?_) fun other member leased => .tail _ (mem_deleteLease.mpr ?_)
  · cases (mem_deleteLease.mp ((mem_cons.mp member).resolve_left nofun)).2
    rfl
  · obtain here | deletes := mem_cons.mp member
    · obtain rfl : id = target := congrArg ItemRef.id (LifecycleWrite.row.inj here).1
      exact ⟨leased, rfl⟩
    · cases (mem_deleteLease.mp deletes).2

theorem map_lease_onLease (held : List LeaseWrite) : (held.map (.lease id)).flatMap (onLease id) = held := by
  simp [flatMap_map, onLease]

theorem QuietOn.append {rest : List LifecycleWrite} (first : QuietOn id writes)
    (second : QuietOn id rest) : QuietOn id (writes ++ rest) := by
  obtain ⟨held, rfl, quiet⟩ := first
  obtain ⟨more, rfl, others⟩ := second
  refine ⟨held ++ more, map_append.symm, fun write member => ?_⟩
  exact (mem_append.mp member).elim (quiet write) (others write)

theorem QuietOn.named (quiet : QuietOn id writes) : ∀ write ∈ writes, write.target = id := by
  obtain ⟨held, rfl, _⟩ := quiet
  intro write member
  obtain ⟨_, _, rfl⟩ := mem_map.mp member
  rfl

theorem QuietOn.sliced (quiet : QuietOn id writes) : Sliced store id writes := by
  obtain ⟨held, rfl, each⟩ := quiet
  rw [Sliced, map_lease_onRow, map_lease_onLease]
  exact .quiet each

theorem sliced_granting {clauses : RowPatch} (stored : store.row ⟨.issue, id⟩ = some row)
    (claimed : ∀ other : ItemRow, other.status = row.status → other.holder = row.holder →
      (clauses.apply other).status = .inProgress ∧
        actorMatches (clauses.apply other).holder actor = true) (quiet : QuietOn id writes) :
    Sliced store id (writes ++ [.row ⟨.issue, id⟩ (.patch clauses), store.upsertLease config now id actor]) := by
  obtain ⟨held, rfl, each⟩ := quiet
  simp only [Sliced, upsertLease, flatMap_append, map_lease_onRow, map_lease_onLease, flatMap_cons,
    flatMap_nil, onRow, onLease, if_true, append_nil, nil_append]
  refine .granted stored claimed each fun before lease left => ?_
  split at left
  · obtain ⟨_, _, rfl⟩ := Option.map_eq_some_iff.mp left
    rfl
  · exact Option.some.inj left ▸ rfl

theorem claimIssue_sliced (claimed : store.claimIssue config now rowLock target actor = .ok writes) : Sliced store id writes := by
  obtain rfl | ⟨oldIssue, read, _, _, rfl⟩ := claimIssue_ok claimed
  · exact sliced_nil
  by_cases here : target = id
  · subst here
    cases durable : store.isActiveWisp target with
    | true =>
      rw [grantLease, durable, routed_wisp durable]
      exact .quiet (forall_mem_nil _)
    | false =>
      rw [grantLease, durable, routed_issue durable]
      have holder (other : ItemRow) : ((claimPatch now rowLock oldIssue actor).apply other).holder = actor := rfl
      have granted : Sliced store target ([] ++ [.row ⟨.issue, target⟩ (.patch (claimPatch now rowLock oldIssue actor)),
          store.upsertLease config now target actor]) :=
        sliced_granting (getIssue_durable durable read)
          (fun other _ _ => ⟨rfl, (holder other).symm ▸ actorMatches_self actor⟩) .nil
      exact granted
  · refine sliced_elsewhere fun write member => ?_
    simp only [grantLease, upsertLease, mem_cons] at member
    obtain rfl | granted := member
    · exact here
    · split at granted
      · cases granted
      · exact mem_singleton.mp granted ▸ here

variable {updates : IssueUpdates}

theorem manageLeaseOnUpdate_kept {oldIssue : ItemRow} (kept : updates.manageLeaseOnUpdate oldIssue = false) :
    updates.status = none ∧ updates.assignee = none ∨ updates.landedStatus oldIssue = none ∨
      updates.landedStatus oldIssue = some oldIssue.status ∧ oldIssue.status = .inProgress ∧
        updates.newAssignee oldIssue ≠ "" ∧ updates.newAssignee oldIssue = oldIssue.holder := by
  rw [manageLeaseOnUpdate] at kept
  split at kept
  · rename_i untouched
    simp only [Bool.and_eq_true, Option.isNone_iff_eq_none] at untouched
    exact .inl untouched
  split at kept
  · rename_i unreadable
    exact .inr (.inl unreadable)
  · rename_i status landed
    simp only [Bool.not_eq_false', Bool.and_eq_true, beq_iff_eq, bne_iff_ne] at kept
    obtain ⟨⟨⟨rfl, named⟩, progress⟩, same⟩ := kept
    exact .inr (.inr ⟨progress ▸ landed, progress, named, same⟩)

theorem setClauses_kept {oldIssue : ItemRow} {refuses : Bool} (printable : updates.Printable)
    (checked : updates.check config target oldIssue refuses = .ok ()) (kept : updates.manageLeaseOnUpdate oldIssue = false)
    (other : ItemRow) (status : other.status = oldIssue.status) (holder : other.holder = oldIssue.holder) :
    ((updates.setClauses oldIssue now rowLock).apply other).status = oldIssue.status ∧
      ((updates.setClauses oldIssue now rowLock).apply other).holder = oldIssue.holder := by
  obtain ⟨_, readable, _⟩ := bind_eq_ok checked
  simp only [RowPatch.apply, setClauses, ItemRow.holder] at holder ⊢
  obtain ⟨noStatus, noAssignee⟩ | unreadable | ⟨landed, _, named, same⟩ := manageLeaseOnUpdate_kept kept
  · rw [newStatus, noStatus, noAssignee]
    exact ⟨status, holder⟩
  · simp only [landedStatus] at unreadable
    simp only [crossesIntoDoneCategory] at readable
    split at unreadable <;> simp_all
  · constructor
    · simp only [landedStatus, newStatus] at landed ⊢
      split at landed <;> simp_all
    · simp only [newAssignee, ItemRow.holder] at named same
      split at named
      · simp_all
      · exact absurd rfl named
      · simp_all [TextValue.stored]
      · rename_i printed stored given
        simp only [given, Option.map_some, Option.getD_some, TextValue.stored] at same ⊢
        rw [printable printed stored given]
        exact same

theorem updateIssue_sliced {refuses : Bool} (printable : updates.Printable)
    (updated : store.updateIssue config now rowLock target updates refuses = .ok writes) : Sliced store id writes := by
  obtain ⟨oldIssue, read, _, ⟨_, rfl⟩ | ⟨checked, rfl⟩⟩ := updateIssue_ok updated
  · exact sliced_nil
  cases kept : (updates.discardNoop oldIssue).manageLeaseOnUpdate oldIssue with
  | true =>
    rw [if_pos rfl]
    exact sliced_ending
  | false =>
    rw [if_neg Bool.false_ne_true]
    by_cases here : store.routed target = ⟨.issue, id⟩
    · have same : target = id := congrArg ItemRef.id here
      subst same
      have durable : store.isActiveWisp target = false := by
        by_contra wisp
        rw [routed_wisp ((Bool.not_eq_false _).mp wisp)] at here
        cases here
      have stored := getIssue_durable durable read
      have discarded : (updates.discardNoop oldIssue).Printable := fun printed value given =>
        printable printed value (Option.filter_eq_some_iff.mp given).1
      rw [here, Sliced, flatMap_singleton, flatMap_singleton, onRow, if_pos rfl]
      exact .kept stored (setClauses_kept discarded checked kept)
    · rw [Sliced, flatMap_singleton, flatMap_singleton, onRow, if_neg here]
      exact .quiet (forall_mem_nil _)

section

variable (stored : store.row ⟨.issue, id⟩ = some row) (own : actorMatches row.holder actor = true)
  (progress : row.status = .inProgress) (quiet : QuietOn id writes)
include stored own progress quiet

theorem rearm_sliced : Sliced store id (writes ++ store.rearm config now rowLock id actor) :=
  sliced_granting stored (fun _ status holder => ⟨status.trans progress, holder.symm ▸ own⟩) quiet

theorem renewClaimed_sliced : Sliced store id (writes ++ store.renewClaimed config now rowLock id actor) := by
  rw [renewClaimed]
  split
  · rename_i lease found
    split
    · rename_i spelled
      obtain ⟨held, rfl, each⟩ := quiet
      rw [Sliced, flatMap_append, flatMap_append, map_lease_onRow, map_lease_onLease]
      simp only [flatMap_singleton, onRow, onLease, if_true, append_nil]
      exact .respelled each found spelled
    · exact rearm_sliced stored own progress quiet
  · exact rearm_sliced stored own progress quiet

end

theorem renewClaimed_target {write : LifecycleWrite}
    (member : write ∈ store.renewClaimed config now rowLock id actor) : write.target = id := by
  have rearmed : ∀ write ∈ store.rearm config now rowLock id actor, write.target = id := fun write member => by
    obtain rfl | rfl := mem_pair.mp member <;> rfl
  rw [renewClaimed] at member
  split at member
  · split at member
    · rw [mem_singleton.mp member]
      rfl
    · exact rearmed write member
  · exact rearmed write member

theorem renewLease_sliced {refusal : Option LifecycleError}
    (renewed : store.renewLease config now rowLock target actor = .ok (writes, refusal)) : Sliced store id writes := by
  have held := renewHeld_quiet store config now target actor
  have orphan := deleteOrphan_quiet store target actor
  obtain ⟨rest, rfl, outcome⟩ := renewLease_ok renewed
  by_cases here : target = id
  · subst here
    obtain rfl | rfl | ⟨row, found, own, progress, rfl⟩ := outcome
    · exact (held.append .nil).sliced
    · exact (held.append orphan).sliced
    · exact renewClaimed_sliced found own progress held
  · refine sliced_elsewhere fun write member same => here (Eq.trans ?_ same)
    cases mem_append.mp member with
    | inl first => exact (held.named write first).symm
    | inr second =>
      obtain rfl | rfl | ⟨_, _, _, _, rfl⟩ := outcome
      · cases second
      · exact (orphan.named write second).symm
      · exact (renewClaimed_target second).symm

theorem reclaimExpiredLeases_sliced {rowLock : Id → Nat} {cutoff : Nat} {filter : ReclaimFilter} :
    Sliced store id (store.reclaimExpiredLeases config now rowLock cutoff filter) := by
  refine sliced_of_deletes (fun write member => ?_) fun write member _ => ?_
  · obtain ⟨stale, _, here⟩ := mem_flatMap.mp member
    cases (mem_pair.mp here).resolve_right nofun
    rfl
  · obtain ⟨stale, listed, here⟩ := mem_flatMap.mp member
    cases (mem_pair.mp here).resolve_left nofun
    exact mem_flatMap.mpr ⟨id, listed, .head _⟩

theorem deleteIssues_sliced {ids : List Id} : Sliced store id (store.deleteIssues ids) := by
  refine sliced_of_deletes (fun write member => ?_) fun write member leased => ?_
  · obtain ⟨deleted, _, here⟩ := mem_flatMap.mp member
    split at here
    · cases mem_singleton.mp here
    · obtain row | lease := mem_append.mp here
      · cases mem_singleton.mp (mem_ite_nil_right.mp row).2
      · cases (mem_deleteLease.mp lease).2
        rfl
  · obtain ⟨deleted, listed, here⟩ := mem_flatMap.mp member
    refine mem_flatMap.mpr ⟨deleted, listed, ?_⟩
    split at here
    · cases mem_singleton.mp here
    · obtain row | lease := mem_append.mp here
      · cases mem_singleton.mp (mem_ite_nil_right.mp row).2
        rw [if_neg ‹_›]
        exact mem_append_right _ (mem_deleteLease.mpr ⟨leased, rfl⟩)
      · cases (mem_deleteLease.mp lease).2

end LifecycleStore

open LifecycleStore in
theorem LifecycleTask.execute_sliced {config : LifecycleConfig} {task : LifecycleTask}
    {store : LifecycleStore} {writes : List LifecycleWrite} (printable : task.verb.Printable)
    (executed : task.execute config store = .ok writes) (id : Id) : Sliced store id writes := by
  obtain ⟨verb, now, rowLock⟩ := task
  cases verb with
  | claim target actor => exact claimIssue_sliced executed
  | unclaim target actor force =>
    obtain ⟨oldIssue, released⟩ := unclaimIssue_ok executed
    exact (release_ok released).2 ▸ sliced_ending
  | unclaimIfAssignee target expected =>
    obtain ⟨oldIssue, released⟩ := unclaimIssueIfAssignee_ok executed
    exact (release_ok released).2 ▸ sliced_ending
  | close target reason session =>
    obtain rfl | rfl := closeIssue_ok executed
    · exact sliced_nil
    · exact sliced_ending
  | reopen target =>
    obtain rfl | rfl := reopenIssue_ok executed
    · exact sliced_nil
    · exact sliced_ending
  | update target updates refuses => exact updateIssue_sliced printable executed
  | renewLease target actor =>
    obtain ⟨⟨renewed, refusal⟩, found, rfl⟩ := map_eq_ok executed
    exact renewLease_sliced found
  | reclaim cutoff filter => exact Except.ok.inj executed ▸ reclaimExpiredLeases_sliced
  | delete ids => exact Except.ok.inj executed ▸ deleteIssues_sliced

section Snapshots

variable {config : LifecycleConfig} {id : Id} {writes : List LifecycleWrite} {task : LifecycleTask}
  {snapshot : LifecycleStore}

theorem Anchored.refl (id : Id) (store : LifecycleStore) : Anchored id store store :=
  ⟨rfl, fun none => none⟩

theorem Anchored.trans {one two three : LifecycleStore} (first : Anchored id one two)
    (second : Anchored id two three) : Anchored id one three :=
  ⟨first.claim.trans second.claim, fun none => second.unleased (first.unleased none)⟩

theorem Anchored.frame (store : LifecycleStore) (printable : task.verb.Printable)
    (executed : task.execute config snapshot = .ok writes)
    (apart : ∀ theirs ∈ writes.flatMap written, (lock ⟨.issue, id⟩).clash theirs = false) :
    Anchored id store (store.writeAll writes) := by
  have untouched := onRow_eq_nil apart
  have sliced := task.execute_sliced printable executed id
  rw [Sliced, untouched] at sliced
  refine ⟨?_, fun absent => ?_⟩
  · rw [row_writeAll, untouched]
    rfl
  · rw [lease_writeAll, absent]
    exact foldl_not_insert fun lease => sliced.not_insert

theorem HeldAlike.frame (store : LifecycleStore)
    (apart : ∀ theirs ∈ writes.flatMap LifecycleCell.written, (LifecycleCell.lease id (some .holder)).clash theirs = false) :
    HeldAlike id store (store.writeAll writes) := by
  rw [HeldAlike, lease_writeAll]
  refine (foldl_refresh fun write member => ?_).symm
  have clean (cell : LifecycleCell) (written : cell ∈ LifecycleCell.written (.lease id write)) :=
    apart cell (mem_flatMap_of_mem (mem_onLease.mp member) written)
  cases write with
  | insert lease | regrant lease | delete => simp [LifecycleCell.written, LifecycleCell.clash] at clean
  | refresh leaseExpiresAt heartbeatAt grantedNode holder =>
    cases holder with
    | none => exact ⟨_, _, _, rfl⟩
    | some actor =>
      have clash := clean (.lease id (some .holder)) (by simp [LifecycleCell.written])
      simp [LifecycleCell.clash] at clash

end Snapshots

/-- What the transactions of a system keep: the leases are live, and a snapshot shows the claims
that nobody has written since. -/
structure Leased (config : LifecycleConfig) (system : System LifecycleStore LifecycleTask LifecycleCell) : Prop where
  live : system.head.Live
  printable : ∀ task ∈ system.tasks, task.verb.Printable
  anchored : ∀ id, system.Agreeing (lifecycleProtocol config) (.lock ⟨.issue, id⟩) (Anchored id)
  alike : ∀ id, system.Agreeing (lifecycleProtocol config) (.lease id (some .holder)) (HeldAlike id)

namespace Leased

variable {config : LifecycleConfig} {system next : System LifecycleStore LifecycleTask LifecycleCell}

variable {transaction : Transaction LifecycleStore LifecycleTask}

section

variable (leased : Leased config system)
include leased

theorem task_printable (running : transaction ∈ system.running) : transaction.task.verb.Printable :=
  leased.printable _ (mem_append_right _ (mem_map_of_mem running))

theorem commit_live {writes : List LifecycleWrite} (running : transaction ∈ system.running)
    (executed : transaction.task.execute config transaction.snapshot = .ok writes)
    (free : system.conflicts (lifecycleProtocol config) transaction.since writes = false) :
    (system.head.writeAll writes).Live := by
  intro id lease left
  rw [lease_writeAll] at left
  rw [row_writeAll]
  have sliced := transaction.task.execute_sliced (leased.task_printable running) executed id
  refine sliced.live leased.live (fun touched => ?_) (fun leaseExpiresAt heartbeatAt grantedNode actor member => ?_) left
  · exact (leased.anchored id transaction running).2 (unwritten_lock free touched)
  · refine (leased.alike id transaction running).2 (System.unwritten_of_not_conflicts free ?_)
    exact mem_flatMap_of_mem (mem_onLease.mp member) (by simp [written])

theorem step {action : Action} (stepped : system.step (lifecycleProtocol config) action = some next) :
    Leased config next where
  live := by
    cases action with
    | begin index =>
      obtain ⟨task, _, rfl⟩ := System.step_begin stepped
      exact leased.live
    | commit index =>
      obtain ⟨transaction, writes, found, executed, ⟨_, rfl⟩ | ⟨free, rfl⟩⟩ := System.step_commit stepped
      · exact leased.live
      · exact leased.commit_live (mem_of_getElem? found) (toOption_eq_some executed) free
  printable task member := leased.printable task (System.mem_tasks_of_step (fun _ => rfl) stepped member)
  anchored id := (leased.anchored id).step (Anchored.refl id) Anchored.trans
    (fun _ running _ store executed => Anchored.frame store (leased.task_printable running) (toOption_eq_some executed)) stepped
  alike id := (leased.alike id).step (fun _ => rfl) Eq.trans (fun _ _ _ store _ => HeldAlike.frame store) stepped

end

end Leased

/-- Every lease that a run leaves belongs to a live claim, if every update's assignee is stored as
it is printed. -/
theorem LifecycleStore.concurrently_live {config : LifecycleConfig} {store : LifecycleStore} {tasks : List LifecycleTask}
    {actions : List Action} {final : System LifecycleStore LifecycleTask LifecycleCell}
    (live : store.Live) (printable : ∀ task ∈ tasks, task.verb.Printable)
    (ran : System.Run (lifecycleProtocol config) (fun _ _ => True) (store.concurrently tasks)
      actions final) : final.head.Live := by
  have start : Leased config (store.concurrently tasks) :=
    { live
      printable := fun task member => printable task (by simpa [concurrently, System.tasks] using member)
      anchored := fun _ _ running => absurd running List.not_mem_nil
      alike := fun _ _ running => absurd running List.not_mem_nil }
  exact (ran.preserves (fun _ _ _ leased _ stepped => leased.step stepped) start).live

/-- An issue that nobody holds, in a store without leases. -/
def LifecycleStore.unclaimed : LifecycleStore where
  items
    | .issue => ⟨[("bd-1", { status := .opened })], List.nodup_singleton "bd-1"⟩
    | .wisp => {}
  leases := {}

theorem LifecycleStore.unclaimed_live : unclaimed.Live := fun _ _ found => absurd found nofun

/-- A claim is handed on while its holder sends a heartbeat, which is replayed and refused. -/
def LifecycleStore.handedOn : Option (System LifecycleStore LifecycleTask LifecycleCell) :=
  [Action.begin 0, .commit 0, .begin 0, .begin 0, .commit 1, .commit 0, .begin 0, .commit 0].foldlM
    (System.step (lifecycleProtocol {})) (unclaimed.concurrently [⟨.claim "bd-1" "ann", 10, fun _ => 1⟩,
      ⟨.renewLease "bd-1" "ann", 20, fun _ => 2⟩, ⟨.update "bd-1" { assignee := some (.text "bob") } false, 20, fun _ => 3⟩])

theorem LifecycleStore.handedOn_live : ∃ final, handedOn = some final ∧ final.head.Live := by
  have taken : handedOn.isSome = true := by decide
  obtain ⟨final, reached⟩ := Option.isSome_iff_exists.mp taken
  refine ⟨final, reached, concurrently_live unclaimed_live (fun task member => ?_) (.of_steps reached)⟩
  simp only [List.mem_cons, List.not_mem_nil, or_false] at member
  obtain rfl | rfl | rfl := member
  · trivial
  · trivial
  · exact fun printed stored given => absurd given nofun

/-- The assignee is cleared by a nil pointer to a string, which `fmt.Sprint` prints as the name of
the actor who holds the claim. -/
theorem LifecycleStore.nilPointer_orphans : unclaimed.Live ∧ ∃ actions final,
    System.Run (lifecycleProtocol {}) (fun _ _ => True)
    (unclaimed.concurrently [⟨.claim "bd-1" "<nil>", 10, fun _ => 1⟩,
      ⟨.update "bd-1" { assignee := some (.other "<nil>" none) } false, 20, fun _ => 2⟩]) actions final ∧ ¬ final.head.Live := by
  refine ⟨unclaimed_live, [.begin 0, .commit 0, .begin 0, .commit 0], _, .of_steps rfl, fun live => ?_⟩
  obtain ⟨row, found, _, held⟩ := live "bd-1" ⟨"<nil>", 10, 310, 10, ""⟩ rfl
  have unassigned : row.holder = "" := by
    rw [← Option.some.inj found]
    rfl
  rw [unassigned] at held
  exact absurd held (by decide)

end Beads
