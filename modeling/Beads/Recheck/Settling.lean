import Beads.Data.AssocList
import Beads.Recheck.Shrinking

namespace Beads

open SnapshotTransactions Tables BlockedRecheck

open List hiding Disjoint isEmpty_iff

variable {ref : ItemRef} {store snapshot head : Store} {effect : Effect} {bits base : Bits}
  {task : Task} {transaction : Transaction Store Task} {pending : BlockedRecheck}
  {system next : System Store Task Cell} {session : Session} {action : Action} {index : Nat}

/-- What the transaction recomputed, and what it leaves of a column it is installed on. -/
structure Ran (session : Session) (store : Store) (edit : Edit) (effect : Effect) (bits : Bits) : Prop where
  recomputed : (edit.change.apply store.toTables).recomputeSeeds session false edit.affected store.isBlocked = some bits
  change : effect.change = edit.change
  installed : ∀ base ref, (edit.change.apply store.toTables).stored ref = true →
    effect.bits base ref = if bits ref = store.isBlocked ref then base ref else bits ref

theorem Store.transact_ran {edit : Edit} (done : store.transact session edit = some effect) :
    (∃ bits, Ran session store edit effect bits) ∧ effect.recheck = note {} edit.exclude edit.affected := by
  obtain ⟨bits, recomputed, rfl⟩ := Option.map_eq_some_iff.mp done
  refine ⟨⟨bits, recomputed, rfl, fun base ref present => ?_⟩, rfl⟩
  simp only [Effect.bits, flips, AssocList.lookup_map_pair, mem_filter, mem_refs, present, true_and, bne_iff_ne]
  by_cases same : bits ref = store.isBlocked ref <;> simp [same]

namespace BlockedRecheck

theorem mem_listed_note {edit : Edit} : ref ∈ (note {} edit.exclude edit.affected).listed ↔
    ref ∈ edit.affected.listed ∧ ref.id ∉ edit.exclude := by
  obtain ⟨plane, id⟩ := ref
  cases plane <;> simp [listed, seeds, note, Seeds.listed, Seeds.start, idsOf, mem_appendRecheckIds]

theorem seeds_nodup (recheck : BlockedRecheck) (plane : Plane) : (recheck.seeds.queue plane).Nodup := by
  cases plane with
  | issue => exact recheck.issuesDistinct
  | wisp => exact recheck.wispsDistinct

theorem listed_of_isEmpty {recheck : BlockedRecheck} (empty : recheck.isEmpty = true) : recheck.listed = ∅ := by
  simp only [isEmpty, Bool.and_eq_true, List.isEmpty_iff] at empty
  refine Set.eq_empty_of_forall_notMem fun ref member => ?_
  obtain ⟨plane, id⟩ := ref
  cases plane <;> simp [listed, seeds, Seeds.listed, Seeds.start, idsOf, empty] at member

end BlockedRecheck

theorem Effect.mem_followUp :
    (∃ task ∈ effect.followUp, ref ∈ task.listed) ↔ ref ∈ effect.recheck.listed := by
  unfold followUp
  split
  · rename_i empty
    simp [listed_of_isEmpty empty]
  · simp [Task.listed]

theorem Effect.eq_of_mem_followUp (member : task ∈ effect.followUp) : task = .recheck effect.recheck := by
  unfold followUp at member
  split at member
  · cases member
  · exact mem_singleton.mp member

def Task.edit (tables : Tables) : Task → Edit
  | .write action => tables.edit action
  | .recheck pending => { affected := pending.seeds }

theorem Task.execute_ran (done : task.execute session store = some effect) : ∃ bits,
    Ran session store (task.edit store.toTables) effect bits := by
  cases task with
  | write action => exact (Store.transact_ran done).1
  | recheck pending =>
    obtain ⟨inner, transacted, rfl⟩ := Option.map_eq_some_iff.mp done
    obtain ⟨bits, ran⟩ := (Store.transact_ran transacted).1
    exact ⟨bits, ran.recomputed, ran.change, ran.installed⟩

theorem Task.edit_nodup {tables : Tables} (apart : tables.Apart) (task : Task) (plane : Plane) :
    ((task.edit tables).affected.queue plane).Nodup := by
  cases task with
  | write action => exact (tables.edit_sound apart action).nodup plane
  | recheck pending => exact pending.seeds_nodup plane

structure Shrinks (system : System Store Task Cell) : Prop where
  acyclic : system.head.ParentChildAcyclic
  apart : system.head.Apart
  snapshots : ∀ transaction ∈ system.running, transaction.snapshot.ParentChildAcyclic ∧
    transaction.snapshot.Apart ∧ Tables.Within system.head.toTables transaction.snapshot.toTables

namespace Shrinks

variable (shrinks : Shrinks system)
include shrinks

theorem begin : Shrinks (system.begin index task) := by
  refine ⟨shrinks.acyclic, shrinks.apart, forall_mem_append.mpr ⟨shrinks.snapshots, forall_mem_singleton.mpr ?_⟩⟩
  exact ⟨shrinks.acyclic, shrinks.apart, .refl _⟩

theorem retry : Shrinks (system.retry index task) :=
  ⟨shrinks.acyclic, shrinks.apart, fun other member => shrinks.snapshots other (mem_of_mem_eraseIdx member)⟩

theorem commit : Shrinks (system.commit (recheckProtocol session) index effect) := by
  have smaller := effect.change.apply_within system.head.toTables
  refine ⟨smaller.acyclic shrinks.acyclic, smaller.apart shrinks.apart, fun other member => ?_⟩
  obtain ⟨acyclic, apart, within⟩ := shrinks.snapshots other (mem_of_mem_eraseIdx member)
  exact ⟨acyclic, apart, smaller.trans within⟩

theorem step (stepped : system.step (recheckProtocol session) action = some next) : Shrinks next := by
  cases action with
  | begin index =>
    obtain ⟨task, _, rfl⟩ := System.step_begin stepped
    exact shrinks.begin
  | commit index =>
    obtain ⟨transaction, effect, _, _, ⟨_, rfl⟩ | ⟨_, rfl⟩⟩ := System.step_commit stepped
    · exact shrinks.retry
    · exact shrinks.commit

theorem executes (member : transaction ∈ system.running)
    (createFastPathsDisabled : Bool) : ∃ passes, ∀ fuel, passes < fuel → ∃ effect,
      transaction.task.execute ⟨fuel, createFastPathsDisabled⟩ transaction.snapshot = some effect := by
  obtain ⟨acyclic, apart, _⟩ := shrinks.snapshots transaction member
  let edit := transaction.task.edit transaction.snapshot.toTables
  have after := (edit.change.apply_within _).acyclic acyclic
  have collects : edit.affected.Collects edit.affected.listed := ⟨transaction.task.edit_nodup apart, rfl⟩
  obtain ⟨passes, returns⟩ :=
    recomputeSeeds_returns after collects false createFastPathsDisabled transaction.snapshot.isBlocked
  refine ⟨passes, fun fuel enough => ?_⟩
  obtain ⟨bits, recomputed⟩ := returns fuel enough
  cases shape : transaction.task with
  | write action | recheck pending =>
    simp only [edit, shape, Task.edit] at recomputed
    exact ⟨_, by simp only [Task.execute, Store.transact, recomputed]; rfl⟩

end Shrinks

def Store.Right (store : Store) (ref : ItemRef) : Prop :=
  store.isBlocked ref = true ↔ store.ShouldBeBlocked ref

def Tables.ClosedBelow (tables : Tables) (listed : Set ItemRef) : Prop :=
  ∀ ref above, Relation.ReflTransGen tables.ParentChild ref above → above ∈ listed → tables.active ref = true → ref ∈ listed

structure Settles (snapshot head : Store) (listed : Set ItemRef) (ref : ItemRef) : Prop where
  above : snapshot.active ref = true → ∀ above,
    Relation.ReflTransGen snapshot.network.parent ref above → above ∉ listed → snapshot.Right above
  bit : head.isBlocked ref = snapshot.isBlocked ref
  answer : snapshot.ShouldBeBlocked ref ↔ head.ShouldBeBlocked ref

/-- What a write has to meet to commit. It is contained, as it would have to be alone; and an item
that its recheck leaves out has the bit that the write read and is listed by no recheck that is
running. -/
structure UnblockingWrite.Keeps (write : UnblockingWrite) (snapshot head : Store)
    (running : List (Transaction Store Task)) : Prop where
  contained : write.Contained snapshot.toTables head.toTables
  unshared : ∀ ref : ItemRef, ref.id ∈ (snapshot.edit write).exclude →
    ((snapshot.edit write).change.apply head.toTables).stored ref = true →
    (head.isBlocked ref = true → snapshot.isBlocked ref = true) ∧ ∀ transaction ∈ running, ref ∉ transaction.task.listed

def Disciplined (system : System Store Task Cell) : Action → Prop
  | .begin index => ∀ task, system.waiting[index]? = some task → ∀ transaction ∈ system.running,
      Disjoint task.listed transaction.task.listed
  | .commit index => ∀ transaction write, system.running[index]? = some transaction →
      transaction.task = .write write → write.Keeps transaction.snapshot system.head system.running

structure Settling (system : System Store Task Cell) : Prop extends Shrinks system where
  closed : ∀ task ∈ system.tasks, system.head.ClosedBelow task.listed
  disjoint : system.running.Pairwise fun one other => Disjoint one.task.listed other.task.listed
  covered : ∀ ref, system.head.stored ref = true → system.head.Right ref ∨ ∃ task ∈ system.tasks, ref ∈ task.listed
  fresh : ∀ transaction ∈ system.running, ∀ ref ∈ transaction.task.listed,
    system.head.stored ref = true → (∃ task ∈ system.waiting, ref ∈ task.listed) ∨
      Settles transaction.snapshot system.head transaction.task.listed ref

theorem Tables.ClosedBelow.within {small large : Tables} {listed : Set ItemRef} (closed : large.ClosedBelow listed)
    (smaller : Within small large) : small.ClosedBelow listed := by
  intro ref above chain member active
  refine closed ref above ?_ member (smaller.active ref active)
  exact Relation.ReflTransGen.mono (fun _ _ edge => smaller.parentChild edge) ref above chain

theorem Ran.kept {edit : Edit} (ran : Ran session snapshot edit effect bits)
    (present : (edit.change.apply snapshot.toTables).stored ref = true)
    (free : ref ∉ edit.affected.listed) : effect.bits base ref = base ref := by
  rw [ran.installed base ref present, if_pos (recomputeSeeds_frame ran.recomputed free)]

theorem Settles.right (settles : Settles snapshot head pending.listed ref)
    (acyclic : snapshot.ParentChildAcyclic) (present : snapshot.stored ref = true) (listed : ref ∈ pending.listed)
    (ran : Ran session snapshot { affected := pending.seeds } effect bits) :
    effect.bits head.isBlocked ref = true ↔ head.ShouldBeBlocked ref := by
  have recomputed := ran.recomputed
  have result : bits ref = true ↔ snapshot.ShouldBeBlocked ref := by
    cases active : snapshot.active ref with
    | true => exact recomputeSeeds_agrees_at acyclic recomputed present (settles.above active)
    | false =>
      refine iff_of_false ?_ fun blocked => Bool.eq_false_iff.mp active blocked.1
      simp [recomputeSeeds_inactive recomputed present listed active]
  rw [ran.installed _ ref present, settles.bit, ← settles.answer, ← result]
  split
  · rename_i same
    rw [same]
  · rfl

namespace Settling

theorem retry (settling : Settling system)
    (found : system.running[index]? = some transaction) : Settling (system.retry index transaction.task) where
  toShrinks := settling.toShrinks.retry
  closed task member := settling.closed task ((System.mem_tasks_retry found task).mp member)
  disjoint := settling.disjoint.sublist (eraseIdx_sublist _ _)
  covered ref present := by
    refine (settling.covered ref present).imp_right fun ⟨task, member, listed⟩ => ?_
    exact ⟨task, (System.mem_tasks_retry found task).mpr member, listed⟩
  fresh other member ref listed present := by
    refine (settling.fresh other (mem_of_mem_eraseIdx member) ref listed present).imp_left fun ⟨task, waits, lists⟩ => ?_
    exact ⟨task, mem_append_left _ waits, lists⟩

section

variable (settling : Settling system) (found : system.waiting[index]? = some task)
  (permitted : ∀ transaction ∈ system.running, Disjoint task.listed transaction.task.listed)
include settling found permitted

theorem settles_begin (listed : ref ∈ task.listed) (present : system.head.stored ref = true) :
    (∃ other ∈ system.waiting.eraseIdx index, ref ∈ other.listed) ∨ Settles system.head system.head task.listed ref := by
  by_cases shared : ∃ other ∈ system.waiting.eraseIdx index, ref ∈ other.listed
  · exact .inl shared
  · refine .inr ⟨fun active above chain unlisted => ?_, rfl, Iff.rfl⟩
    have stored : system.head.stored above = true := by
      cases chain with
      | refl => exact present
      | tail _ edge => exact edge.2
    refine (settling.covered above stored).resolve_right fun ⟨other, member, covers⟩ => ?_
    -- Whoever lists the item above lists this one too.
    have also : ref ∈ other.listed := by
      refine settling.closed other member ref above ?_ covers active
      exact Relation.ReflTransGen.mono (fun _ _ edge => edge.1) ref above chain
    cases mem_append.mp member with
    | inl waits =>
      cases (System.mem_of_found found).mp waits with
      | inl same => exact unlisted (same ▸ covers)
      | inr remains => exact shared ⟨other, remains, also⟩
    | inr runs =>
      obtain ⟨transaction, running, rfl⟩ := mem_map.mp runs
      exact Set.disjoint_left.mp (permitted transaction running) listed also

theorem begin : Settling (system.begin index task) where
  toShrinks := settling.toShrinks.begin
  closed other member := settling.closed other ((System.mem_tasks_begin found other).mp member)
  disjoint := by
    refine pairwise_append.mpr ⟨settling.disjoint, pairwise_singleton _ _, fun one running other new => ?_⟩
    obtain rfl := mem_singleton.mp new
    exact (permitted one running).symm
  covered ref present := by
    refine (settling.covered ref present).imp_right fun ⟨other, member, listed⟩ => ?_
    exact ⟨other, (System.mem_tasks_begin found other).mpr member, listed⟩
  fresh transaction member ref listed present := by
    cases mem_append.mp member with
    | inl old =>
      refine (settling.fresh transaction old ref listed present).imp_left fun ⟨other, waits, lists⟩ => ?_
      cases (System.mem_of_found found).mp waits with
      | inl same => exact absurd listed (Set.disjoint_left.mp (permitted transaction old) (same ▸ lists))
      | inr remains => exact ⟨other, remains, lists⟩
    | inr new =>
      obtain rfl := mem_singleton.mp new
      exact settling.settles_begin found permitted listed present

end

theorem recorded_closed {edit : Edit} {after : Tables} (sound : edit.Sound snapshot.toTables)
    (shrunk : Tables.Within after (edit.change.apply snapshot.toTables)) :
    after.ClosedBelow (note {} edit.exclude edit.affected).listed := by
  intro ref above chain member active
  rw [mem_listed_note] at member ⊢
  refine ⟨?_, fun excluded => Bool.eq_false_iff.mp (sound.excluded ref excluded) (shrunk.active ref active)⟩
  clear active
  induction chain using Relation.ReflTransGen.head_induction_on with
  | refl => exact member.1
  | head edge _ ih => exact sound.below _ _ (shrunk.parentChild edge) ih

theorem unrecorded {write : UnblockingWrite} (keeps : write.Keeps snapshot head running) (apart : snapshot.Apart)
    (within : Tables.Within head.toTables snapshot.toTables) (ran : Ran session snapshot (snapshot.edit write) effect bits)
    (ref : ItemRef) (present : (effect.change.apply head.toTables).stored ref = true)
    (free : ref ∉ (note {} (snapshot.edit write).exclude (snapshot.edit write).affected).listed) :
    (effect.bits head.isBlocked ref = head.isBlocked ref ∧
        (head.ShouldBeBlocked ref ↔ (effect.change.apply head.toTables).ShouldBeBlocked ref)) ∨
      ((effect.bits head.isBlocked ref = true ↔ (effect.change.apply head.toTables).ShouldBeBlocked ref) ∧
        ∀ transaction ∈ running, ref ∉ transaction.task.listed) := by
  have sound := snapshot.edit_sound apart write
  have smaller := (snapshot.edit write).change.apply_mono within
  rw [ran.change] at present ⊢
  have there := smaller.stored ref present
  by_cases affected : ref ∈ (snapshot.edit write).affected.listed
  · -- The item itself whose status was written: it is closed, and cleared if the write saw it marked.
    have excluded : ref.id ∈ (snapshot.edit write).exclude := by
      by_contra kept
      exact free (mem_listed_note.mpr ⟨affected, kept⟩)
    obtain ⟨read, unlisted⟩ := keeps.unshared ref excluded present
    have inactive := sound.excluded ref excluded
    have cleared := recomputeSeeds_inactive ran.recomputed there affected inactive
    refine .inr ⟨iff_of_false ?_ fun blocked => Bool.eq_false_iff.mp inactive (smaller.active ref blocked.1), unlisted⟩
    rw [ran.installed _ ref there, cleared]
    cases before : snapshot.isBlocked ref with
    | true => simp
    | false => simpa [before] using read
  · exact .inl ⟨ran.kept there affected, edit_contained within keeps.contained ref present affected⟩

section

variable (settling : Settling system) (found : system.running[index]? = some transaction)
include settling found

theorem disjoint_of_found {other : Transaction Store Task} (remains : other ∈ system.running.eraseIdx index) :
    Disjoint transaction.task.listed other.task.listed := by
  have symmetric : ∀ {one other : Transaction Store Task}, Disjoint one.task.listed other.task.listed →
      Disjoint other.task.listed one.task.listed := fun apart => apart.symm
  have moved := ((System.perm_of_found found).pairwise_iff symmetric).mpr settling.disjoint
  exact (pairwise_cons.mp moved).1 other remains

/-- A commit whose rechecks are listed downwards. An item outside of them waits for another recheck,
or the commit leaves its bit and its answer, or it is right and no other recheck that is running
lists it. -/
theorem commit_of_outside (closed : (effect.change.apply system.head.toTables).ClosedBelow effect.recheck.listed)
    (outside : ∀ ref, (effect.change.apply system.head.toTables).stored ref = true →
      ref ∉ effect.recheck.listed → (∃ task ∈ system.waiting, ref ∈ task.listed) ∨
      (ref ∉ transaction.task.listed ∧ effect.bits system.head.isBlocked ref = system.head.isBlocked ref ∧
        (system.head.ShouldBeBlocked ref ↔ (effect.change.apply system.head.toTables).ShouldBeBlocked ref)) ∨
      ((effect.bits system.head.isBlocked ref = true ↔ (effect.change.apply system.head.toTables).ShouldBeBlocked ref) ∧
        ∀ other ∈ system.running.eraseIdx index, ref ∉ other.task.listed)) :
    Settling (system.commit (recheckProtocol session) index effect) := by
  have smaller := effect.change.apply_within system.head.toTables
  have waits : ∀ {ref}, (∃ task ∈ system.waiting, ref ∈ task.listed) ∨ ref ∈ effect.recheck.listed →
      ∃ task ∈ system.waiting ++ effect.followUp, ref ∈ task.listed := by
    rintro ref (⟨task, member, lists⟩ | recorded)
    · exact ⟨task, mem_append_left _ member, lists⟩
    · obtain ⟨task, member, lists⟩ := Effect.mem_followUp.mpr recorded
      exact ⟨task, mem_append_right _ member, lists⟩
  refine ⟨settling.toShrinks.commit, ?_, settling.disjoint.sublist (eraseIdx_sublist _ _), ?_, ?_⟩
  · intro task member
    obtain (old | new) | runs := (mem_append.mp member).imp_left mem_append.mp
    · exact (settling.closed task (mem_append_left _ old)).within smaller
    · obtain rfl := Effect.eq_of_mem_followUp new
      exact closed
    · have old : task ∈ system.tasks := mem_append_right _ (((eraseIdx_sublist _ _).map _).subset runs)
      exact (settling.closed task old).within smaller
  · intro ref present
    by_cases recorded : ref ∈ effect.recheck.listed
    · obtain ⟨task, member, lists⟩ := waits (.inr recorded)
      exact .inr ⟨task, mem_append_left _ member, lists⟩
    obtain waiting | ⟨foreign, bit, answer⟩ | right := outside ref present recorded
    · obtain ⟨task, member, lists⟩ := waits (.inl waiting)
      exact .inr ⟨task, mem_append_left _ member, lists⟩
    · refine (settling.covered ref (smaller.stored ref present)).imp (fun right => ?_)
        fun ⟨task, member, lists⟩ => ⟨task, ?_, lists⟩
      · exact (iff_of_eq (congrArg (· = true) bit)).trans (right.trans answer)
      · exact (System.mem_tasks_commit found member).resolve_left fun own => foreign (own ▸ lists)
    · exact .inl right.1
  · intro other member ref lists present
    by_cases recorded : ref ∈ effect.recheck.listed
    · exact .inl (waits (.inr recorded))
    obtain waiting | ⟨_, bit, answer⟩ | right := outside ref present recorded
    · exact .inl (waits (.inl waiting))
    · refine (settling.fresh other (mem_of_mem_eraseIdx member) ref lists (smaller.stored ref present)).imp
        (fun waiting => waits (.inl waiting)) fun settles => ?_
      exact ⟨settles.above, bit.trans settles.bit, settles.answer.trans answer⟩
    · exact absurd lists (right.2 other member)

theorem commit_recheck (shape : transaction.task = .recheck pending)
    (executed : transaction.task.execute session transaction.snapshot = some effect) :
    Settling (system.commit (recheckProtocol session) index effect) := by
  have running := mem_of_getElem? found
  obtain ⟨acyclic, _, within⟩ := settling.snapshots transaction running
  obtain ⟨bits, ran⟩ := Task.execute_ran executed
  have listed : transaction.task.listed = pending.listed := by rw [shape]; rfl
  rw [shape] at ran executed
  have silent : effect.recheck.listed = ∅ := by
    obtain ⟨inner, _, rfl⟩ := Option.map_eq_some_iff.mp executed
    exact listed_of_isEmpty rfl
  refine settling.commit_of_outside found (silent ▸ fun _ _ _ member _ => absurd member (Set.notMem_empty _)) ?_
  rw [ran.change]
  intro ref present _
  by_cases own : ref ∈ pending.listed
  · refine (settling.fresh transaction running ref (listed ▸ own) present).imp_right fun settles => .inr ⟨?_, ?_⟩
    · exact (listed ▸ settles).right acyclic (within.stored ref present) own ran
    · exact fun other member => Set.disjoint_left.mp (settling.disjoint_of_found found member) (listed ▸ own)
  · exact .inr (.inl ⟨listed ▸ own, ran.kept (within.stored ref present) own, Iff.rfl⟩)

theorem commit_write {write : UnblockingWrite} (shape : transaction.task = .write write)
    (keeps : write.Keeps transaction.snapshot system.head system.running)
    (executed : transaction.task.execute session transaction.snapshot = some effect) :
    Settling (system.commit (recheckProtocol session) index effect) := by
  obtain ⟨acyclic, apart, within⟩ := settling.snapshots transaction (mem_of_getElem? found)
  obtain ⟨bits, ran⟩ := Task.execute_ran executed
  have nothing : transaction.task.listed = ∅ := by rw [shape]; rfl
  rw [shape] at ran executed
  have recorded := (Store.transact_ran executed).2
  refine settling.commit_of_outside found ?_ fun ref present free => .inr ?_
  · rw [recorded, ran.change]
    exact recorded_closed (transaction.snapshot.edit_sound apart write)
      ((transaction.snapshot.edit write).change.apply_mono within)
  · rw [recorded] at free
    refine (unrecorded keeps apart within ran ref present free).imp (fun same => ?_) fun right => ?_
    · exact ⟨nothing ▸ Set.notMem_empty ref, same⟩
    · exact ⟨right.1, fun other member => right.2 other (mem_of_mem_eraseIdx member)⟩

end

theorem step (settling : Settling system) (permitted : Disciplined system action)
    (stepped : system.step (recheckProtocol session) action = some next) : Settling next := by
  cases action with
  | begin index =>
    obtain ⟨task, found, rfl⟩ := System.step_begin stepped
    exact settling.begin found (permitted task found)
  | commit index =>
    obtain ⟨transaction, effect, found, executed, ⟨_, rfl⟩ | ⟨_, rfl⟩⟩ := System.step_commit stepped
    · exact settling.retry found
    · cases shape : transaction.task with
      | write write => exact settling.commit_write found shape (permitted transaction write found shape) executed
      | recheck pending => exact settling.commit_recheck found shape executed

theorem start (writes : List UnblockingWrite) (acyclic : store.ParentChildAcyclic) (apart : store.Apart)
    (consistent : store.countIsBlockedInconsistencies store.isBlocked = 0) : Settling (store.concurrently writes) where
  acyclic := acyclic
  apart := apart
  snapshots _ member := absurd member not_mem_nil
  closed task member := by
    obtain ⟨write, _, rfl⟩ := mem_map.mp ((mem_append.mp member).resolve_right not_mem_nil)
    exact fun _ _ _ member => absurd member (Set.notMem_empty _)
  disjoint := List.Pairwise.nil
  covered ref present := .inl ((consistent_iff_settled acyclic).mp consistent ref present)
  fresh _ member := absurd member not_mem_nil

end Settling

/-- Concurrent unblocking writes and their rechecks. Every transaction that runs returns, given
enough passes. A run ends with a consistent column once every recheck has committed, if no two
rechecks of one item ran at the same time and every write that committed kept to what it would have
to alone. -/
theorem Store.unblockingWrites_consistent (session : Session) (store : Store)
    (writes : List UnblockingWrite) (acyclic : store.ParentChildAcyclic) (apart : store.Apart)
    (consistent : store.countIsBlockedInconsistencies store.isBlocked = 0) :
    (∀ actions system, System.Run (recheckProtocol session) (fun _ _ => True) (store.concurrently writes) actions system →
      ∀ transaction ∈ system.running, ∀ createFastPathsDisabled, ∃ passes, ∀ fuel, passes < fuel → ∃ effect,
        transaction.task.execute ⟨fuel, createFastPathsDisabled⟩ transaction.snapshot = some effect) ∧
    ∀ actions system, System.Run (recheckProtocol session) Disciplined (store.concurrently writes) actions system →
      system.Finished → system.head.countIsBlockedInconsistencies system.head.isBlocked = 0 := by
  have initial := Settling.start writes acyclic apart consistent
  constructor
  · intro actions system ran transaction member createFastPathsDisabled
    have shrinks := ran.preserves (fun _ _ _ shrinks _ stepped => shrinks.step stepped) initial.toShrinks
    exact shrinks.executes member createFastPathsDisabled
  · intro actions system ran finished
    have settling := ran.preserves (fun _ _ _ settling permitted stepped => settling.step permitted stepped) initial
    refine (Tables.consistent_iff_settled settling.acyclic).mpr fun ref present => ?_
    refine (settling.covered ref present).resolve_right fun ⟨task, member, _⟩ => ?_
    rw [finished.tasks] at member
    exact not_mem_nil member

def Task.isWrite : Task → Bool
  | .write _ => true
  | .recheck _ => false

namespace Disciplined

section

variable (writes : (system.running.all fun transaction => transaction.task.isWrite) = true)
include writes

theorem listed_of_writes (member : transaction ∈ system.running) : transaction.task.listed = ∅ := by
  have write := all_eq_true.mp writes transaction member
  cases shape : transaction.task with
  | write action => rfl
  | recheck pending => simp [shape, Task.isWrite] at write

theorem begin : Disciplined system (.begin index) := by
  intro task _ transaction member
  rw [listed_of_writes writes member]
  exact Set.disjoint_empty _

end

section

variable (found : system.running[index]? = some transaction)
include found

theorem commit_recheck
    (shape : transaction.task = .recheck pending) : Disciplined system (.commit index) := by
  intro other write here write_shape
  rw [Option.some.inj (found.symm.trans here), write_shape] at shape
  exact Task.noConfusion shape

theorem commit_close {id : Id} (shape : transaction.task = .write (.close id))
    (read : ∀ plane, system.head.isBlocked ⟨plane, id⟩ = transaction.snapshot.isBlocked ⟨plane, id⟩)
    (writes : (system.running.all fun transaction => transaction.task.isWrite) = true) : Disciplined system (.commit index) := by
  intro other write here write_shape
  rw [← Option.some.inj (found.symm.trans here)] at write_shape ⊢
  obtain rfl : write = .close id := Task.write.inj (write_shape.symm.trans shape)
  refine ⟨trivial, fun ref excluded _ => ⟨fun marked => ?_, fun running member => ?_⟩⟩
  · have named : ref.id = id := by
      simp only [edit, closeIssue] at excluded
      split at excluded
      · exact mem_singleton.mp excluded
      · cases excluded
    subst named
    exact (read ref.plane).symm.trans marked
  · rw [listed_of_writes writes member]
    exact Set.notMem_empty ref

end

end Disciplined

namespace Store

/-- `bd-p` is blocked by `bd-a` and `bd-b`, and `bd-q` by `bd-b` and `bd-d`;
`bd-c` is a child of both. -/
def sharedChild : Store where
  items
    | .issue => [⟨"bd-a", .opened⟩, ⟨"bd-b", .opened⟩, ⟨"bd-d", .opened⟩, ⟨"bd-p", .opened⟩, ⟨"bd-q", .opened⟩, ⟨"bd-c", .opened⟩]
    | .wisp => []
  dependencies
    | .issue => [⟨"bd-p", .item ⟨.issue, "bd-a"⟩, .blocks, {}, none⟩, ⟨"bd-p", .item ⟨.issue, "bd-b"⟩, .blocks, {}, none⟩,
        ⟨"bd-q", .item ⟨.issue, "bd-b"⟩, .blocks, {}, none⟩, ⟨"bd-q", .item ⟨.issue, "bd-d"⟩, .blocks, {}, none⟩,
        ⟨"bd-c", .item ⟨.issue, "bd-p"⟩, .parentChild, {}, none⟩, ⟨"bd-c", .item ⟨.issue, "bd-q"⟩, .parentChild, {}, none⟩]
    | .wisp => []
  isBlocked ref := ref == ⟨.issue, "bd-p"⟩ || ref == ⟨.issue, "bd-q"⟩ || ref == ⟨.issue, "bd-c"⟩

theorem sharedChild_acyclic : sharedChild.ParentChildAcyclic :=
  acyclic_of_ranked (fun ref => if ref.id == "bd-c" then 1 else 0) (by decide)

theorem sharedChild_apart : sharedChild.Apart := fun _ both => absurd both.2 nofun

/-- Two racing closes: each sees the blocker that the other closes, and the
rechecks clear `bd-p`. -/
theorem sharedChild_settled : ∃ system : System Store Task Cell, system.Finished ∧
    system.head.isBlocked ⟨.issue, "bd-p"⟩ = false ∧ system.head.countIsBlockedInconsistencies system.head.isBlocked = 0 := by
  have settled := (unblockingWrites_consistent ⟨4, false⟩ sharedChild [.close "bd-a", .close "bd-b"] sharedChild_acyclic
    sharedChild_apart (by decide)).2
  exact ⟨_, ⟨rfl, rfl⟩, rfl, settled
    [.begin 0, .begin 0, .commit 0, .commit 0, .begin 0, .commit 0, .begin 0, .commit 0] _
    (.next (.begin rfl) rfl (.next (.begin rfl) rfl (.next (.commit_close rfl rfl (by decide) rfl) rfl
      (.next (.commit_close rfl rfl (by decide) rfl) rfl (.next (.begin rfl) rfl (.next (.commit_recheck rfl rfl) rfl
      (.next (.begin rfl) rfl (.next (.commit_recheck rfl rfl) rfl .done)))))))) ⟨rfl, rfl⟩⟩

/-- Three racing closes. The recheck of the close of `bd-b` runs first and changes nothing; those of
`bd-a` and `bd-d` run side by side, and each keeps `bd-c` marked for the parent that the other one
clears. -/
theorem sharedChild_left_stale : sharedChild.ParentChildAcyclic ∧ sharedChild.Apart ∧
    sharedChild.countIsBlockedInconsistencies sharedChild.isBlocked = 0 ∧
    ∃ actions system, System.Run (recheckProtocol ⟨4, false⟩) (fun _ _ => True)
        (sharedChild.concurrently [.close "bd-a", .close "bd-b", .close "bd-d"]) actions system ∧
      system.Finished ∧ system.head.countIsBlockedInconsistencies system.head.isBlocked = 1 :=
  ⟨sharedChild_acyclic, sharedChild_apart, by decide,
    [.begin 0, .begin 0, .begin 0, .commit 1, .begin 0, .commit 2, .commit 0, .commit 0, .begin 0,
      .begin 0, .commit 0, .commit 0],
    _, .of_steps rfl, ⟨rfl, rfl⟩, by decide⟩

end Store

end Beads
