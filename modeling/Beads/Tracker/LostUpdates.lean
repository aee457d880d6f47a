import Beads.Tracker.PushHash

/-! `last_sync` is both the bound of the next fetch and the test for a local modification. -/

namespace Beads.Tracker

variable {κ : Type} {engine : Engine κ} {course : Course κ} {opts : SyncOptions} {s t : State κ}

def Engine.Exact (engine : Engine κ) : Prop :=
  ∀ contentEqual ∈ engine.contentEqual, ∀ one other, contentEqual one other = true ↔ one = other

structure Course.Calm (course : Course κ) : Prop where
  edits : ∀ call, course.edits call = []
  answers : ∀ call, course.fails call = false

theorem Course.Calm.reach (calm : course.Calm) (s : State κ) (call : Call) : s.reach course call = s := by
  rw [State.reach, calm.edits call]
  rfl

def State.Logged (s : State κ) : Prop := ∀ side reported, .replaced side true reported ∈ s.log → reported = true

variable {reported : Bool}

theorem State.Logged.cons (logged : s.Logged) {log : List (Observation κ)} {side : Side} {pending : Bool}
    (same : log = .replaced side pending reported :: s.log) (told : pending = true → reported = true) :
    ∀ side reported, .replaced side true reported ∈ log → reported = true := by
  intro other told' listed
  rw [same] at listed
  obtain here | before := List.mem_cons.mp listed
  · cases here
    exact told rfl
  · exact logged other told' before

structure State.Agrees (s : State κ) : Prop where
  content : s.extIssue.content = s.issue.content
  localSettled : s.localSettled = s.issue.edits
  extSettled : s.extSettled = s.extIssue.edits
  issue_le : s.issue.updatedAt ≤ s.now
  ext_le : s.extIssue.updatedAt ≤ s.now
  logged : s.Logged

theorem State.Agrees.localPending (agrees : s.Agrees) : s.localPending = false := by
  simp [State.localPending, agrees.localSettled]

theorem State.Agrees.extPending (agrees : s.Agrees) : s.extPending = false := by
  simp [State.extPending, agrees.extSettled]

/-- Between two runs: what is pending is what was edited after `last_sync`. -/
structure State.Synced (s : State κ) : Prop where
  local_le : s.localSettled ≤ s.issue.edits
  ext_le : s.extSettled ≤ s.extIssue.edits
  issue_le_now : s.issue.updatedAt ≤ s.now
  ext_le_now : s.extIssue.updatedAt ≤ s.now
  content : s.localPending = false → s.extPending = false → s.extIssue.content = s.issue.content
  modified : ∀ lastSync, s.lastSync = some lastSync → (s.localPending = true ↔ lastSync < s.issue.updatedAt)
  changed : ∀ lastSync, s.lastSync = some lastSync → (s.extPending = true ↔ lastSync < s.extIssue.updatedAt)
  newer : s.localPending = true → s.extPending = false → s.extIssue.updatedAt < s.issue.updatedAt
  logged : s.Logged

theorem State.Agrees.synced (agrees : s.Agrees)
    (stamped : ∀ lastSync, s.lastSync = some lastSync → s.issue.updatedAt ≤ lastSync ∧
      s.extIssue.updatedAt ≤ lastSync) : s.Synced where
  local_le := agrees.localSettled.le
  ext_le := agrees.extSettled.le
  issue_le_now := agrees.issue_le
  ext_le_now := agrees.ext_le
  content _ _ := agrees.content
  modified lastSync known := by
    rw [agrees.localPending]
    simpa using (stamped lastSync known).1
  changed lastSync known := by
    rw [agrees.extPending]
    simpa using (stamped lastSync known).2
  newer pending := nomatch agrees.localPending.symm.trans pending
  logged := agrees.logged

open State

theorem State.Synced.agrees (synced : s.Synced) (local' : s.localPending = false) (ext : s.extPending = false) : s.Agrees where
  content := synced.content local' ext
  localSettled := le_antisymm synced.local_le (by simpa [localPending] using local')
  extSettled := le_antisymm synced.ext_le (by simpa [extPending] using ext)
  issue_le := synced.issue_le_now
  ext_le := synced.ext_le_now
  logged := synced.logged

theorem lt_nextSecond (now : Nat) : now < nextSecond now := by
  unfold nextSecond
  omega

theorem State.Agrees.stamp (agrees : s.Agrees) (calm : course.Calm) (real : opts.dryRun = false) :
    (stampLastSync opts course s).Synced := by
  have ticked : (stampLastSync opts course s).Agrees := by
    unfold stampLastSync
    simp only [calm.reach, calm.answers, real]
    exact ⟨agrees.content, agrees.localSettled, agrees.extSettled, agrees.issue_le.trans (by simp [tick]; omega),
      agrees.ext_le.trans (by simp [tick]; omega), agrees.logged⟩
  refine ticked.synced fun lastSync known => ?_
  have before : (stampLastSync opts course s).now ≤ lastSync := by
    unfold stampLastSync at known ⊢
    simp only [calm.reach, calm.answers, real] at known ⊢
    cases known
    exact (lt_nextSecond _).le
  exact ⟨ticked.issue_le.trans before, ticked.ext_le.trans before⟩

theorem stamp_content (opts : SyncOptions) (course : Course κ) (calm : course.Calm) (s : State κ) :
    (stampLastSync opts course s).issue = s.issue ∧ (stampLastSync opts course s).extIssue = s.extIssue := by
  unfold stampLastSync
  simp only [calm.reach, calm.answers]
  split <;> exact ⟨rfl, rfl⟩

theorem recordPushHash_eq (engine : Engine κ) (course : Course κ) (content : κ) (s : State κ) :
    ∃ hash, recordPushHash engine course content s = { s with pushHash := hash } := by
  unfold recordPushHash
  dsimp only
  split
  · exact ⟨s.pushHash, rfl⟩
  · exact ⟨_, rfl⟩

/-- Both sides agree on the content. -/
def Holds (content : κ) (after : State κ) : Prop := after.Agrees ∧ after.issue.content = content

theorem pushed_updateIssue (calm : course.Calm) (local_le : s.issue.updatedAt ≤ s.now)
    (logged : s.Logged) (told : s.extPending = true → reported = true) :
    Holds s.issue.content (updateIssue engine course reported s.issue s) := by
  unfold updateIssue
  simp only [calm.reach, calm.answers]
  obtain ⟨hash, recorded⟩ := recordPushHash_eq engine course s.issue.content
    (s.overwriteExt s.issue reported (course.delay .pushWrite))
  simp only [Bool.false_eq_true, if_false, recorded]
  refine ⟨⟨rfl, rfl, rfl, ?_, le_rfl, logged.cons rfl told⟩, rfl⟩
  simp only [overwriteExt, tick]
  omega

theorem pushed_batchPush (calm : course.Calm) (answered : course.batchSkips = false)
    (logged : s.Logged) (told : s.extPending = true → reported = true) :
    Holds s.issue.content (batchPush course reported s.issue s) := by
  unfold batchPush relink
  simp only [calm.reach, calm.answers, answered, Bool.or_self, Bool.false_eq_true, if_false]
  refine ⟨⟨rfl, rfl, rfl, le_rfl, ?_, logged.cons rfl told⟩, rfl⟩
  simp only [overwriteExt, tick]
  omega

structure Pushable (engine : Engine κ) (course : Course κ) (s : State κ) : Prop where
  local_le : s.localSettled ≤ s.issue.edits
  extSettled : s.extSettled = s.extIssue.edits
  issue_le : s.issue.updatedAt ≤ s.now
  ext_le : s.extIssue.updatedAt ≤ s.now
  logged : s.Logged
  edited : s.localPending = true → storedPushHashMatches engine course s s.issue.content = false ∧
    s.extIssue.updatedAt < s.issue.updatedAt
  content : s.localPending = false → s.extIssue.content = s.issue.content

theorem Pushable.agrees (pushable : Pushable engine course s) (clean : s.localPending = false) : s.Agrees where
  content := pushable.content clean
  localSettled := le_antisymm pushable.local_le (by simpa [localPending] using clean)
  extSettled := pushable.extSettled
  issue_le := pushable.issue_le
  ext_le := pushable.ext_le
  logged := pushable.logged

theorem State.Agrees.pushable (agrees : s.Agrees) : Pushable engine course s where
  local_le := agrees.localSettled.le
  extSettled := agrees.extSettled
  issue_le := agrees.issue_le
  ext_le := agrees.ext_le
  logged := agrees.logged
  edited pending := nomatch agrees.localPending.symm.trans pending
  content _ := agrees.content

theorem State.Synced.pushable (synced : s.Synced) (clean : s.extPending = false)
    (unhashed : s.localPending = true →
      storedPushHashMatches engine course s s.issue.content = false) : Pushable engine course s where
  local_le := synced.local_le
  extSettled := le_antisymm synced.ext_le (by simpa [extPending] using clean)
  issue_le := synced.issue_le_now
  ext_le := synced.ext_le_now
  logged := synced.logged
  edited pending := ⟨unhashed pending, synced.newer pending clean⟩
  content settled := synced.content settled clean

theorem pushed_pushIssue (exact' : engine.Exact) (calm : course.Calm) (pushable : Pushable engine course s) :
    Holds s.issue.content (pushIssue engine course reported s.issue s) := by
  have clean : s.extPending = false := by simp [extPending, pushable.extSettled]
  have updated : Holds s.issue.content (updateIssue engine course reported s.issue s.read) :=
    pushed_updateIssue calm pushable.issue_le pushable.logged fun pending => nomatch clean.symm.trans pending
  unfold pushIssue
  split
  · rename_i stored
    have agrees := pushable.agrees (Bool.eq_false_iff.mpr fun pending => nomatch stored.symm.trans (pushable.edited pending).1)
    refine ⟨{ agrees with logged := fun side reported listed => ?_ }, rfl⟩
    exact agrees.logged side reported ((List.mem_cons.mp listed).resolve_left nofun)
  simp only [calm.reach, calm.answers, Bool.false_eq_true, if_false]
  split
  · rename_i contentEqual hook
    split
    · rename_i same
      obtain ⟨hash, recorded⟩ := recordPushHash_eq engine course s.issue.content (s.read.agree s.issue s.extIssue)
      rw [recorded]
      have content := (exact' contentEqual hook _ _).mp same
      exact ⟨⟨content.symm, rfl, rfl, pushable.issue_le, pushable.ext_le, pushable.logged⟩, rfl⟩
    · exact updated
  · split
    · exact updated
    · rename_i notOlder
      have agrees := pushable.agrees (Bool.eq_false_iff.mpr fun pending => notOlder (pushable.edited pending).2)
      exact ⟨{ agrees with }, rfl⟩

/-- The options let the issue through, and a batch push does not leave it alone. -/
structure Sends (engine : Engine κ) (opts : SyncOptions) (course : Course κ) (s : State κ) : Prop where
  eligible : engine.eligible opts course s.issue.content = true
  answered : engine.batch ≠ .none → course.batchSkips = false

theorem pushed_doPush (exact' : engine.Exact) (calm : course.Calm) (real : opts.dryRun = false)
    {skip : Bool} (pushable : Pushable engine course s)
    (sends : s.localPending = true → skip = false ∧ opts.createOnly = false ∧ Sends engine opts course s) :
    Holds s.issue.content (doPush engine opts course skip false reported s) := by
  have clean : s.extPending = false := by simp [extPending, pushable.extSettled]
  have untouched : s.localPending = false → Holds s.issue.content s := fun settled => ⟨pushable.agrees settled, rfl⟩
  unfold doPush
  simp only [calm.reach, real, Bool.false_eq_true, if_false]
  split
  · rename_i left
    refine untouched (Bool.eq_false_iff.mpr fun pending => ?_)
    obtain ⟨unskipped, updates, sent⟩ := sends pending
    simp [unskipped, updates, sent.eligible] at left
  split
  · rename_i batch
    by_cases answered : course.batchSkips = false
    · exact pushed_batchPush calm answered pushable.logged fun pending => nomatch clean.symm.trans pending
    · have settled := Bool.eq_false_iff.mpr fun pending => answered ((sends pending).2.2.answered batch)
      unfold batchPush
      simp only [calm.reach, calm.answers, Bool.eq_true_of_not_eq_false answered, Bool.or_true, if_true]
      exact untouched settled
  · exact pushed_pushIssue exact' calm pushable

theorem pushed_doPush_of_agrees (exact' : engine.Exact) (calm : course.Calm) (real : opts.dryRun = false) {skip : Bool}
    (agrees : s.Agrees) : Holds s.issue.content (doPush engine opts course skip false reported s) :=
  pushed_doPush exact' calm real agrees.pushable fun pending => nomatch agrees.localPending.symm.trans pending

theorem pushed_doPush_forced (calm : course.Calm) (real : opts.dryRun = false)
    (sends : Sends engine opts course s) (local_le : s.issue.updatedAt ≤ s.now)
    (logged : s.Logged) : Holds s.issue.content (doPush engine opts course false true true s) := by
  unfold doPush
  simp only [calm.reach, real, sends.eligible, Bool.not_true, Bool.and_false, Bool.or_self,
    Bool.false_eq_true, if_false, if_true]
  split
  · exact pushed_batchPush calm (sends.answered ‹_›) logged fun _ => rfl
  · exact pushed_updateIssue calm local_le logged fun _ => rfl

theorem fetchIssue_calm (calm : course.Calm) (lastSync : Option Nat) (issue : LocalIssue κ)
    (s : State κ) : fetchIssue engine opts course lastSync issue s = (none, s) ∨
      ∃ hydrated, fetchIssue engine opts course lastSync issue s = (some (s.extIssue, hydrated), s.read) := by
  unfold fetchIssue
  simp only [calm.reach, calm.answers, Bool.false_eq_true, if_false]
  split
  · exact .inl rfl
  split
  · exact .inr ⟨_, rfl⟩
  split
  · exact .inr ⟨_, rfl⟩
  split
  · exact .inr ⟨_, rfl⟩
  · exact .inl rfl

section

variable [DecidableEq κ]

/-- The tracker returns the issue if it was edited there, and the import takes it. -/
def Engine.imports (engine : Engine κ) (opts : SyncOptions) (content : κ) : Bool :=
  engine.shouldImport content && (if opts.issueIds = [] then engine.inState opts.state content
    else opts.issueIds.any engine.names)

variable {lastSync : Option Nat} {allowOverwrite hydrated : Bool} {searched : LocalIssue κ} {content : κ}

theorem pulled_importIssue (calm : course.Calm) (real : opts.dryRun = false)
    (taken : engine.shouldImport s.extIssue.content = true)
    (issue_le : s.issue.updatedAt ≤ s.now) (ext_le : s.extIssue.updatedAt ≤ s.now) (logged : s.Logged)
    (unguarded : (lastSync.any (fun lastSync => decide (lastSync < s.issue.updatedAt)) &&
      !allowOverwrite && !hydrated) = false) (told : s.localPending = true → reported = true) :
    Holds s.extIssue.content (importIssue engine opts course lastSync allowOverwrite reported searched
      s.extIssue hydrated s).2 := by
  unfold importIssue
  simp only [calm.reach, calm.answers, Bool.false_eq_true, if_false, unguarded, taken, Bool.not_true, real]
  split
  · rename_i same
    exact ⟨⟨same.symm, rfl, rfl, issue_le, ext_le, logged⟩, same⟩
  · refine ⟨⟨rfl, rfl, rfl, le_rfl, ?_, logged.cons rfl told⟩, rfl⟩
    simp only [overwriteIssue, tick]
    omega

/-- On sides that agree there is nothing to write. -/
theorem State.Agrees.importIssue (calm : course.Calm) (agrees : s.Agrees) :
    Holds s.extIssue.content (importIssue engine opts course lastSync allowOverwrite reported
      searched s.extIssue hydrated s).2 := by
  unfold Tracker.importIssue
  simp only [calm.reach, calm.answers, Bool.false_eq_true, if_false, agrees.content, if_true]
  split
  · exact ⟨agrees, rfl⟩
  split
  · exact ⟨agrees, rfl⟩
  · exact ⟨⟨agrees.content, rfl, rfl, agrees.issue_le, agrees.ext_le, agrees.logged⟩, rfl⟩

section

variable (calm : course.Calm) (real : opts.dryRun = false) (synced : s.Synced)
include calm real synced

/-- A pull of an issue that was edited at the tracker and that no guard holds back. -/
theorem pulled_doPull_changed (imports : engine.imports opts s.extIssue.content = true)
    (changed : ∀ lastSync, s.lastSync = some lastSync → lastSync < s.extIssue.updatedAt)
    (unguarded : (s.lastSync.any (fun lastSync => decide (lastSync < s.issue.updatedAt)) && !allowOverwrite) = false)
    (told : s.localPending = true → reported = true) :
    Holds s.extIssue.content (doPull engine opts course allowOverwrite reported s).2 := by
  obtain ⟨taken, listed⟩ := Bool.and_eq_true_iff.mp imports
  have fetched : fetchIssue engine opts course s.lastSync s.issue s = (some (s.extIssue, false), s.read) := by
    unfold fetchIssue
    simp only [calm.reach, calm.answers, Bool.false_eq_true, if_false]
    by_cases all : opts.issueIds = []
    · have later : s.lastSync.all (fun lastSync => decide (lastSync < s.extIssue.updatedAt)) = true := by
        cases known : s.lastSync with
        | none => rfl
        | some lastSync => exact decide_eq_true (changed lastSync known)
      rw [if_pos all] at listed
      simp [all, later, listed]
    · rw [if_neg all] at listed
      simp [all, listed]
  have imported : Holds s.read.extIssue.content
      (importIssue engine opts course s.lastSync allowOverwrite reported s.issue s.read.extIssue false s.read).2 :=
    pulled_importIssue calm real taken synced.issue_le_now synced.ext_le_now synced.logged
      ((Bool.and_true _).trans unguarded) told
  unfold doPull
  simp only [calm.reach, calm.answers, Bool.false_eq_true, if_false, fetched]
  exact imported

theorem pulled_doPull (clean : s.localPending = false)
    (imports : s.extPending = true → engine.imports opts s.extIssue.content = true) :
    Holds s.extIssue.content (doPull engine opts course allowOverwrite reported s).2 := by
  cases pending : s.extPending with
  | true =>
    refine pulled_doPull_changed calm real synced (imports pending) (fun lastSync known =>
      (synced.changed lastSync known).mp pending) ?_
      fun edited => nomatch clean.symm.trans edited
    cases known : s.lastSync with
    | none => rfl
    | some lastSync =>
      have unmodified : ¬lastSync < s.issue.updatedAt := (synced.modified lastSync known).not.mp (Bool.eq_false_iff.mp clean)
      simp [unmodified]
  | false =>
    have agrees := synced.agrees clean pending
    unfold doPull
    simp only [calm.reach, calm.answers, Bool.false_eq_true, if_false]
    have fetched : fetchIssue engine opts course s.lastSync s.issue s = (none, s) ∨ _ := fetchIssue_calm calm _ _ s
    obtain missed | ⟨hydrated, found⟩ := fetched
    · rw [missed]
      exact ⟨agrees, agrees.content.symm⟩
    · rw [found]
      have still : s.read.Agrees := { agrees with }
      exact still.importIssue calm

end

end

/-- The run moves `last_sync` past no edit that it leaves behind. -/
structure Transfers (engine : Engine κ) (s : State κ) (opts : SyncOptions) (course : Course κ) : Prop where
  calm : course.Calm
  real : opts.dryRun = false
  /-- A pull goes over the local issue without a look at it where it has no `last_sync` or takes the
  ref for a new one. -/
  pull : opts.pulls = true → s.localPending = true → opts.pushes = true ∧
    ∃ lastSync, s.lastSync = some lastSync ∧
      (opts.issueIds = [] → (s.extPending && engine.inState opts.state s.extIssue.content) = false →
        externalRefChangedAfter course.history engine.externalRef s.issue lastSync = false)
  push : opts.pushes = true → s.extPending = true → opts.pulls = true
  imported : s.extPending = true → (s.localPending = true → ¬ LocalPreferred opts s) →
    engine.imports opts s.extIssue.content = true
  sent : s.localPending = true → (s.extPending = true → LocalPreferred opts s) → Sends engine opts course s
  updated : s.localPending = true → s.extPending = false → opts.createOnly = false ∧
    storedPushHashMatches engine course s s.issue.content = false

/-- An edit comes after the `last_sync` of the run before it. -/
def Orderly (engine : Engine κ) (s : State κ) : Step κ → Prop
  | .edit edit => ∀ lastSync, s.lastSync = some lastSync → lastSync ≤ s.now + edit.delay
  | .sync opts course => Transfers engine s opts course

theorem synced_edit (synced : s.Synced) {edit : Edit κ}
    (after : ∀ lastSync, s.lastSync = some lastSync → lastSync ≤ s.now + edit.delay) :
    (s.edit edit).Synced := by
  have issue_le := synced.issue_le_now
  have ext_le := synced.ext_le_now
  have locals := synced.local_le
  have exts := synced.ext_le
  unfold State.edit
  cases edit.side with
  | beads =>
    refine ⟨?_, synced.ext_le, le_rfl, ?_, fun clean => ?_, fun lastSync known =>
      ?_, synced.changed, fun _ _ => ?_, synced.logged⟩
    · exact locals.trans (Nat.le_succ _)
    · simp only [State.tick]
      omega
    · simp [State.localPending, State.tick, Nat.lt_succ_of_le locals] at clean
    · exact iff_of_true (decide_eq_true (Nat.lt_succ_of_le locals)) (Nat.lt_succ_of_le (after lastSync known))
    · simp only [State.tick]
      omega
  | tracker =>
    have pending : State.extPending { s.tick edit.delay with
        extIssue := ⟨edit.content, (s.tick edit.delay).now, s.extIssue.edits + 1⟩ } = true := by
      simp [State.extPending, State.tick, Nat.lt_succ_of_le exts]
    refine ⟨synced.local_le, ?_, ?_, le_rfl, fun _ clean => ?_, synced.modified,
      fun lastSync known => ?_, fun _ clean => ?_, synced.logged⟩
    · exact exts.trans (Nat.le_succ _)
    · simp only [State.tick]
      omega
    · exact nomatch pending.symm.trans clean
    · exact iff_of_true pending (Nat.lt_succ_of_le (after lastSync known))
    · exact nomatch pending.symm.trans clean

/-- What an orderly run leaves: both sides agree on the content of the one that was edited. -/
structure Carried (s after : State κ) : Prop where
  synced : after.Synced
  local_ : s.localPending = true → s.extPending = false → after.extIssue.content = s.issue.content ∧
    after.issue.content = s.issue.content
  ext : s.localPending = false → after.issue.content = s.extIssue.content ∧ after.extIssue.content = s.extIssue.content

theorem carried_of_push (calm : course.Calm) (real : opts.dryRun = false) {after : State κ} (holds : Holds s.issue.content after)
    (same : s.localPending = false → s.issue.content = s.extIssue.content) : Carried s (stampLastSync opts course after) := by
  obtain ⟨issue, ext⟩ := stamp_content opts course calm after
  obtain ⟨agrees, kept⟩ := holds
  refine ⟨agrees.stamp calm real, fun _ _ => ?_, fun clean => ?_⟩
  · rw [issue, ext]
    exact ⟨agrees.content.trans kept, kept⟩
  · rw [issue, ext, ← same clean]
    exact ⟨kept, agrees.content.trans kept⟩

theorem carried_of_pull (calm : course.Calm) (real : opts.dryRun = false) (clean : s.localPending = false) {after : State κ}
    (holds : Holds s.extIssue.content after) : Carried s (stampLastSync opts course after) := by
  obtain ⟨issue, ext⟩ := stamp_content opts course calm after
  obtain ⟨agrees, pulled⟩ := holds
  refine ⟨agrees.stamp calm real, fun pending => (nomatch clean.symm.trans pending), fun _ => ?_⟩
  rw [issue, ext]
  exact ⟨pulled, agrees.content.trans pulled⟩

variable [DecidableEq κ]

theorem synced_conflict (transfers : Transfers engine s opts course) (synced : s.Synced) (edited : s.localPending = true)
    (changed : s.extPending = true) : (sync engine opts course s).Synced := by
  have calm := transfers.calm
  have real := transfers.real
  have pulls : opts.pulls = true := by
    by_contra none
    exact none (transfers.push (SyncOptions.pushes_of_not_pulls (Bool.eq_false_iff.mpr none)) changed)
  obtain ⟨pushes, lastSync, known, listed⟩ := transfers.pull pulls edited
  have modified := (synced.modified lastSync known).mp edited
  have newer := (synced.changed lastSync known).mp changed
  by_cases preferred : LocalPreferred opts s
  · have wins : LocalWins engine opts course s lastSync := by
      refine ⟨pulls, pushes, fun call _ => ⟨calm.edits call, calm.answers call⟩, known, modified, newer, preferred, ?_⟩
      exact fun all closed => listed all (by rw [closed, Bool.and_false])
    have sends : Sends engine opts course s.read := { transfers.sent edited fun _ => preferred with }
    unfold sync
    simp only [pulls, pushes, Bool.and_self, if_true, wins.detected, wins.forced, keepLocal, wins.spared, Bool.or_self]
    have pushed : Holds s.read.issue.content (doPush engine opts course false true true s.read) :=
      pushed_doPush_forced calm real sends synced.issue_le_now synced.logged
    exact pushed.1.stamp calm real
  · have detected : detectConflicts course s = (some ⟨s.issue.updatedAt, s.extIssue.updatedAt⟩, s.read) := by
      unfold detectConflicts
      rw [known]
      simp [calm.reach, calm.answers, modified, newer]
    have verdict : resolveConflicts opts.conflictResolution (some ⟨s.issue.updatedAt, s.extIssue.updatedAt⟩) = keepExternal := by
      cases resolution : opts.conflictResolution with
      | local_ => exact absurd (.inl resolution) preferred
      | external => rfl
      | timestamp => exact if_neg fun newer => preferred (.inr ⟨resolution, newer⟩)
    have pulled : Holds s.read.extIssue.content (doPull engine opts course true true s.read).2 := by
      refine pulled_doPull_changed calm real { synced with } (transfers.imported changed
        fun _ => preferred) (fun stamp same => ?_)
        (by simp) fun _ => rfl
      obtain rfl : lastSync = stamp := Option.some.inj (known.symm.trans same)
      exact newer
    unfold sync doPush
    simp only [pulls, pushes, Bool.and_self, if_true, detected, verdict, keepExternal,
      Option.isSome_some, calm.reach, Bool.true_or]
    exact pulled.1.stamp calm real

section

variable (exact' : engine.Exact) (transfers : Transfers engine s opts course) (synced : s.Synced)
include exact' transfers synced

theorem carried_clean (clean : s.localPending = false) : Carried s (sync engine opts course s) := by
  have calm := transfers.calm
  have real := transfers.real
  -- An issue that was not modified since the last sync is in no conflict.
  have detected : detectConflicts course s = (none, s) := by
    unfold detectConflicts
    cases known : s.lastSync with
    | none => rfl
    | some lastSync =>
      have unmodified := (synced.modified lastSync known).not.mp (Bool.eq_false_iff.mp clean)
      simp [calm.reach, not_lt.mp unmodified]
  unfold sync
  simp only [detected, ite_self, resolveConflicts, Option.isSome_none, Bool.false_or]
  cases pulls : opts.pulls with
  | true =>
    have pulled : Holds s.extIssue.content (doPull engine opts course false false s).2 :=
      pulled_doPull calm real synced clean fun pending => transfers.imported pending fun edited => nomatch clean.symm.trans edited
    generalize doPull engine opts course false false s = outcome at pulled ⊢
    simp only [if_true]
    split
    · have still : Holds outcome.2.issue.content (doPush engine opts course outcome.1 false false outcome.2) :=
        pushed_doPush_of_agrees exact' calm real pulled.1
      exact carried_of_pull calm real clean (pulled.2 ▸ still)
    · exact carried_of_pull calm real clean pulled
  | false =>
    have pushes := SyncOptions.pushes_of_not_pulls pulls
    have settled : s.extPending = false :=
      Bool.eq_false_iff.mpr fun pending => nomatch pulls.symm.trans (transfers.push pushes pending)
    simp only [pushes, if_true, Bool.false_eq_true, if_false]
    have agrees := synced.agrees clean settled
    exact carried_of_push calm real (pushed_doPush_of_agrees exact' calm real agrees) fun _ => agrees.content.symm

theorem carried_edited
    (edited : s.localPending = true) (clean : s.extPending = false) : Carried s (sync engine opts course s) := by
  have calm := transfers.calm
  have real := transfers.real
  have pushes : opts.pushes = true := by
    cases pulls : opts.pulls with
    | true => exact (transfers.pull pulls edited).1
    | false => exact SyncOptions.pushes_of_not_pulls pulls
  obtain ⟨updates, unhashed⟩ := transfers.updated edited clean
  have here : Pushable engine course s := synced.pushable clean fun _ => unhashed
  have sends := transfers.sent edited fun changed => nomatch clean.symm.trans changed
  have unchanged : s.localPending = false → s.issue.content = s.extIssue.content :=
    fun settled => nomatch settled.symm.trans edited
  unfold sync
  cases pulls : opts.pulls with
  | false =>
    simp only [pushes, Bool.false_and, Bool.false_eq_true, if_false, if_true, resolveConflicts, Option.isSome_none, Bool.or_self]
    exact carried_of_push calm real (pushed_doPush exact' calm real here fun _ => ⟨rfl, updates, sends⟩) unchanged
  | true =>
    obtain ⟨_, lastSync, known, linked⟩ := transfers.pull pulls edited
    have modified := (synced.modified lastSync known).mp edited
    have older := (synced.changed lastSync known).not.mp (Bool.eq_false_iff.mp clean)
    have detected : detectConflicts course s = (none, s.read) := by
      unfold detectConflicts
      rw [known]
      simp [calm.reach, calm.answers, not_le.mpr modified, older]
    have spared : doPull engine opts course false false s.read = (false, s.read) := by
      refine doPull_guarded known (calm.answers _) (fun call _ t => calm.reach t call)
        (fun call _ => calm.answers call) modified ?_
      exact fun all => .inr (linked all (by rw [clean, Bool.false_and]))
    simp only [pushes, Bool.and_self, if_true, detected, resolveConflicts, Option.isSome_none, spared, Bool.or_self]
    have pushed : Holds s.read.issue.content (doPush engine opts course false false false s.read) :=
      pushed_doPush exact' calm real { here with } fun _ => ⟨rfl, updates, { sends with }⟩
    exact carried_of_push calm real pushed unchanged

theorem synced_sync : (sync engine opts course s).Synced := by
  cases edited : s.localPending with
  | false => exact (carried_clean exact' transfers synced edited).synced
  | true =>
    cases changed : s.extPending with
    | false => exact (carried_edited exact' transfers synced edited changed).synced
    | true => exact synced_conflict transfers synced edited changed

end

theorem synced_step (exact' : engine.Exact) (s : State κ) (taken : Step κ) (synced : s.Synced)
    (orderly : Orderly engine s taken) : (step engine s taken).Synced := by
  cases taken with
  | edit edit => exact synced_edit synced orderly
  | sync opts course => exact synced_sync exact' orderly synced

structure State.Start (s : State κ) : Prop where
  agrees : s.Agrees
  stamped : ∀ lastSync, s.lastSync = some lastSync → s.issue.updatedAt ≤ lastSync ∧ s.extIssue.updatedAt ≤ lastSync

/-- On an orderly history no pending edit is replaced without a report, and a bidirectional run
carries an edit that was made on one side to the other. -/
theorem orderly_run_transfers (exact' : engine.Exact) {start : State κ} (linked : start.Start)
    (steps : List (Step κ)) (along : Along engine (Orderly engine) steps start) :
    (∀ side reported, .replaced side true reported ∈ (run engine steps start).log → reported = true) ∧
    ∀ opts course, opts.pulls = true → opts.pushes = true → Orderly engine (run engine steps start) (.sync opts course) →
      ((run engine steps start).localPending = true → (run engine steps start).extPending = false →
        (sync engine opts course (run engine steps start)).extIssue.content = (run engine steps start).issue.content ∧
        (sync engine opts course (run engine steps start)).issue.content = (run engine steps start).issue.content) ∧
      ((run engine steps start).extPending = true → (run engine steps start).localPending = false →
        (sync engine opts course (run engine steps start)).issue.content = (run engine steps start).extIssue.content ∧
        (sync engine opts course (run engine steps start)).extIssue.content = (run engine steps start).extIssue.content) := by
  have synced : (run engine steps start).Synced := run_keeps (synced_step exact') (linked.agrees.synced linked.stamped) along
  refine ⟨synced.logged, fun opts course _ _ transfers => ⟨fun edited clean => ?_, fun _ clean => ?_⟩⟩
  · exact (carried_edited exact' transfers synced edited clean).local_ edited clean
  · exact (carried_clean exact' transfers synced clean).ext clean

def timed : Engine Nat where
  contentEqual := some (· == ·)
  contentHash := none
  targetScope := []
  externalRef := "github:42".toList

theorem timed_exact : timed.Exact := by
  rintro _ ⟨⟩ one other
  exact beq_iff_eq

def inSync : State Nat := ⟨⟨0, 0, 0, 0⟩, ⟨0, 0, 0⟩, some (10 ^ 9), none, 10 ^ 9, 0, 0, some 0, []⟩

theorem inSync_start : inSync.Start where
  agrees := ⟨rfl, rfl, rfl, by decide, by decide, nofun⟩
  stamped := by
    rintro _ ⟨⟩
    decide

def bidirectional : SyncOptions := { pull := true, push := true }

def inTurn : List (Step Nat) :=
  [.edit ⟨.beads, 1, 10 ^ 10⟩, .sync bidirectional undisturbed, .edit ⟨.tracker, 2, 10 ^ 10⟩]

theorem inTurn_transferred : (run timed inTurn inSync).extPending = true ∧
    (sync timed bidirectional undisturbed (run timed inTurn inSync)).issue.content = 2 := by
  have calm : undisturbed.Calm := ⟨fun _ => rfl, fun _ => rfl⟩
  have along : Along timed (Orderly timed) inTurn inSync := by
    refine ⟨?_, ⟨calm, rfl, ?_, fun _ _ => rfl, ?_, fun _ _ => ⟨by decide, fun _ => rfl⟩,
      fun _ _ => ⟨rfl, by decide⟩⟩, ?_, trivial⟩
    · rintro _ ⟨⟩
      decide
    · exact fun _ _ => ⟨rfl, _, rfl, fun _ _ => by decide⟩
    · exact fun pending => absurd pending (by decide)
    · rintro _ ⟨⟩
      decide
  have next : Orderly timed (run timed inTurn inSync) (.sync bidirectional undisturbed) := by
    refine ⟨calm, rfl, fun _ pending => ?_, fun _ _ => rfl, fun _ _ => by decide, fun pending => ?_, fun pending => ?_⟩ <;>
      exact absurd pending (by decide)
  refine ⟨by decide, ?_⟩
  exact (((orderly_run_transfers timed_exact inSync_start inTurn along).2 bidirectional undisturbed
    rfl rfl next).2 (by decide) (by decide)).1

/-- A run during which the issue is edited on one side, after it was searched for and before
`last_sync` is written. -/
def editedWhileRunning (side : Side) : Step Nat :=
  .sync bidirectional { undisturbed with edits := fun call => if call = .stamp then [⟨side, 1, 0⟩] else [] }

/-- The edit made here is replaced by the next one of the tracker without a report; the one made
there never arrives. -/
theorem editedWhileRunning_lost : .replaced .beads true false ∈
      (run timed [editedWhileRunning .beads, .edit ⟨.tracker, 2, 10 ^ 10⟩, .sync bidirectional undisturbed] inSync).log ∧
    (run timed [editedWhileRunning .tracker] inSync).extPending = true ∧
      (run timed [editedWhileRunning .tracker] inSync).localPending = false ∧
    (run timed [editedWhileRunning .tracker, .sync bidirectional undisturbed] inSync).issue.content = 0 :=
  ⟨by decide, by decide, by decide, by decide⟩

end Beads.Tracker
