import Beads.Tracker.Sync

/-! A push that finds the hash of the local content stored leaves the tracker alone. -/

namespace Beads.Tracker

variable {κ : Type} {engine : Engine κ} {course : Course κ} {opts : SyncOptions} {s t u : State κ}

/-- The hash is injective and no content goes without one; contents that are taken for equal are. -/
structure Engine.Hashes (engine : Engine κ) : Prop where
  injective : ∀ contentHash ∈ engine.contentHash, Function.Injective contentHash
  present : ∀ contentHash ∈ engine.contentHash, ∀ content, contentHash content ≠ []
  equal : ∀ contentEqual ∈ engine.contentEqual, ∀ one other, contentEqual one other = true → one = other

theorem Engine.Hashes.pushCacheValue_inj (hashes : engine.Hashes) {one other : κ} (hashed : engine.pushCacheValue one ≠ [])
    (same : engine.pushCacheValue one = engine.pushCacheValue other) : one = other := by
  have marked : engine.pushCacheValue other ≠ [] := same ▸ hashed
  cases hook : engine.contentHash with
  | none => exact absurd (by rw [Engine.pushCacheValue, hook]) hashed
  | some contentHash =>
    simp only [Engine.pushCacheValue, hook] at same hashed marked
    split at hashed
    · exact absurd rfl hashed
    split at marked
    · exact absurd rfl marked
    rename_i some some'
    rw [if_neg some, if_neg some'] at same
    have colon : ∀ rest : List Char, CanonicalJson.Ended (':' :: rest) := by
      rintro rest c ⟨⟩
      rfl
    have lengths := (CanonicalJson.toDigits_append_inj (colon _) (colon _) (List.append_cancel_left same)).2
    exact hashes.injective contentHash hook (List.append_cancel_right (List.cons.inj lengths).2)

theorem Engine.Hashes.pushCacheValue_nil (hashes : engine.Hashes) {one : κ}
    (none : engine.pushCacheValue one = []) (other : κ) : engine.pushCacheValue other = [] := by
  cases hook : engine.contentHash with
  | none => rw [Engine.pushCacheValue, hook]
  | some contentHash =>
    simp only [Engine.pushCacheValue, hook] at none ⊢
    split at none
    · rename_i absent
      rw [if_pos (.inr (absent.resolve_left (hashes.present contentHash hook one)))]
    · simp at none

def State.Sound (s : State κ) : Prop := ∀ content seen, .skipped content seen ∈ s.log → seen = some content

structure Fresh (engine : Engine κ) (s : State κ) : Prop where
  hash : ∀ content, engine.pushCacheValue content ≠ [] →
    s.pushHash = some (engine.pushCacheValue content) → s.seen = some content
  batched : engine.batch ≠ .none → s.pushHash = none
  sound : s.Sound

def Course.TrackerQuiet (course : Course κ) : Prop := ∀ call, ∀ edit ∈ course.edits call, edit.side = .beads

/-- `t` comes after `s` with the push hash untouched. While the tracker is quiet, its content is all
there is to read. -/
structure Reads (course : Course κ) (s t : State κ) : Prop where
  pushHash : t.pushHash = s.pushHash
  skipped : ∀ content seen, .skipped content seen ∈ t.log → .skipped content seen ∈ s.log
  content : course.TrackerQuiet → t.extIssue.content = s.extIssue.content
  seen : course.TrackerQuiet → t.seen = s.seen ∨ t.seen = some s.extIssue.content

namespace Reads

theorem refl (s : State κ) : Reads course s s :=
  ⟨rfl, fun _ _ => id, fun _ => rfl, fun _ => .inl rfl⟩

theorem trans (first : Reads course s t) (second : Reads course t u) : Reads course s u where
  pushHash := second.pushHash.trans first.pushHash
  skipped content seen logged := first.skipped content seen (second.skipped content seen logged)
  content quiet := (second.content quiet).trans (first.content quiet)
  seen quiet := by
    rw [← first.content quiet]
    exact (second.seen quiet).elim (fun same => same ▸ first.content quiet ▸ first.seen quiet) .inr

theorem of_edit {edit : Edit κ} (quiet : course.TrackerQuiet → edit.side = .beads) : Reads course s (s.edit edit) := by
  unfold State.edit
  cases side : edit.side with
  | beads => exact ⟨rfl, fun _ _ => id, fun _ => rfl, fun _ => .inl rfl⟩
  | tracker => exact ⟨rfl, fun _ _ => id, fun still => (nomatch (quiet still).symm.trans side), fun _ => .inl rfl⟩

theorem reach (s : State κ) (call : Call) : Reads course s (s.reach course call) := by
  have edits : ∀ edits : List (Edit κ), (∀ edit ∈ edits, course.TrackerQuiet → edit.side = .beads) →
      ∀ s : State κ, Reads course s (edits.foldl State.edit s) := by
    intro edits quiet
    induction edits with
    | nil => exact refl
    | cons first rest ih =>
      obtain ⟨here, later⟩ := List.forall_mem_cons.mp quiet
      exact fun s => (of_edit here).trans (ih later (s.edit first))
  exact edits _ (fun edit made quiet => quiet call edit made) s

theorem read (s : State κ) : Reads course s s.read :=
  ⟨rfl, fun _ _ => id, fun _ => rfl, fun _ => .inr rfl⟩

theorem overwriteIssue (s : State κ) (ext : ExtIssue κ) (reported : Bool) (delay : Nat) :
    Reads course s (s.overwriteIssue ext reported delay) := by
  refine ⟨rfl, fun content seen logged => ?_, fun _ => rfl, fun _ => .inl rfl⟩
  exact (List.mem_cons.mp logged).resolve_left nofun

theorem sound (reads : Reads course s t) (sound : s.Sound) : t.Sound :=
  fun content seen logged => sound content seen (reads.skipped content seen logged)

end Reads

open Reads

theorem reads_detectConflicts (course : Course κ) (s : State κ) : Reads course s (detectConflicts course s).2 := by
  unfold detectConflicts
  split
  · exact .refl s
  dsimp only
  split
  · exact .reach s _
  split
  · exact (reach s _).trans (.reach _ _)
  · exact ((reach s _).trans (.reach _ _)).trans (.read _)

theorem reads_fetchIssue (lastSync : Option Nat) (issue : LocalIssue κ) (s : State κ) :
    Reads course s (fetchIssue engine opts course lastSync issue s).2 := by
  unfold fetchIssue
  dsimp only
  split
  · exact .refl s
  split
  · split
    · exact .reach s _
    · exact (reach s _).trans (.read _)
  split
  · exact (reach s _).trans (.read _)
  split
  · exact ((reach s _).trans (.reach _ _)).trans (.read _)
  · exact .reach s _

section

variable [DecidableEq κ] {lastSync : Option Nat} {allowOverwrite reported : Bool} {searched : LocalIssue κ}

theorem reads_importIssue (ext : ExtIssue κ) (hydrated : Bool) (s : State κ) :
    Reads course s (importIssue engine opts course lastSync allowOverwrite reported searched ext hydrated s).2 := by
  unfold importIssue
  split
  · exact .refl s
  dsimp only
  generalize (if course.fails .pullRead then searched else (s.reach course .pullRead).issue) = existing
  split
  · exact .reach s _
  split
  · exact (reach s _).trans ⟨rfl, fun _ _ => id, fun _ => rfl, fun _ => .inl rfl⟩
  split
  · exact .reach s _
  split
  · exact (reach s _).trans (.reach _ _)
  · exact ((reach s _).trans (.reach _ _)).trans (.overwriteIssue _ _ _ _)

theorem reads_doPull (s : State κ) : Reads course s (doPull engine opts course allowOverwrite reported s).2 := by
  unfold doPull
  dsimp only
  have fetched : Reads course (s.reach course .pullSearch) (fetchIssue engine opts course
      (if course.fails .pullStamp then none else s.lastSync) (s.reach course .pullSearch).issue (s.reach course .pullSearch)).2 :=
    reads_fetchIssue _ _ _
  split <;> rename_i outcome <;> rw [outcome] at fetched
  · exact (reach s _).trans fetched
  · exact ((reach s _).trans fetched).trans (reads_importIssue _ _ _)

end

/-- Reading the tracker cannot make the stored hash stale. -/
def Steady (course : Course κ) (s : State κ) : Prop :=
  s.pushHash = none ∨ s.seen = some s.extIssue.content ∧ course.TrackerQuiet

theorem Steady.reads (steady : Steady course s) (reads : Reads course s t) : Steady course t := by
  refine steady.imp (fun none => reads.pushHash.trans none) fun ⟨seen, quiet⟩ => ⟨?_, quiet⟩
  rw [reads.content quiet]
  exact (reads.seen quiet).elim (fun same => same.trans seen) id

theorem Fresh.reads (fresh : Fresh engine s) (steady : Steady course s) (reads : Reads course s t) : Fresh engine t := by
  refine ⟨fun content hashed stored => ?_, reads.pushHash ▸ fresh.batched, reads.sound fresh.sound⟩
  rw [reads.pushHash] at stored
  obtain none | ⟨seen, quiet⟩ := steady
  · exact nomatch none.symm.trans stored
  · have current := fresh.hash content hashed stored
    exact (reads.seen quiet).elim (fun same => same.trans current) fun same => same.trans (seen.symm.trans current)

theorem Fresh.reach (fresh : Fresh engine s) (course : Course κ) (call : Call) : Fresh engine (s.reach course call) := by
  have seen : ∀ (edits : List (Edit κ)) (s : State κ), (edits.foldl State.edit s).seen = s.seen := by
    intro edits
    induction edits with
    | nil => exact fun _ => rfl
    | cons first rest ih =>
      intro s
      rw [List.foldl_cons, ih]
      unfold State.edit
      split <;> rfl
  have reads : Reads course s (s.reach course call) := .reach s call
  refine ⟨fun content hashed stored => ?_, reads.pushHash ▸ fresh.batched, reads.sound fresh.sound⟩
  rw [reads.pushHash] at stored
  exact (seen _ s).trans (fresh.hash content hashed stored)

theorem Fresh.skip {content : κ} (fresh : Fresh engine s) (stored : storedPushHashMatches engine course s content = true) :
    Fresh engine { s with log := .skipped content s.seen :: s.log } := by
  simp only [storedPushHashMatches, Bool.and_eq_true, bne_iff_ne, beq_iff_eq] at stored
  have seen := fresh.hash _ stored.1.1 stored.2
  refine ⟨fresh.hash, fresh.batched, fun content last logged => ?_⟩
  obtain here | before := List.mem_cons.mp logged
  · cases here
    exact seen
  · exact fresh.sound content last before

theorem Fresh.of_unhashed (unhashed : s.pushHash = none) (sound : s.Sound) : Fresh engine s :=
  ⟨fun _ _ stored => (nomatch unhashed.symm.trans stored), fun _ => unhashed, sound⟩

section

variable (single : engine.batch = .none)
include single

theorem fresh_recordPushHash (hashes : engine.Hashes) (recorded : course.fails .record = false) {content : κ} (sound : s.Sound)
    (seen : s.seen = some content) : Fresh engine (recordPushHash engine course content s) := by
  unfold recordPushHash
  dsimp only
  split
  · rename_i none
    have none := none.resolve_right (by simp [recorded])
    exact ⟨fun other hashed => absurd (hashes.pushCacheValue_nil none other) hashed, fun batch => absurd single batch, sound⟩
  · refine ⟨fun other hashed stored => ?_, fun batch => absurd single batch, sound⟩
    rw [hashes.pushCacheValue_inj hashed (Option.some.inj stored).symm]
    exact seen

variable {reported : Bool}

theorem fresh_updateIssue (hashes : engine.Hashes) (recorded : course.fails .record = false) {issue : LocalIssue κ}
    (sound : s.Sound) (lost : course.fails .pushWrite = true → Fresh engine s) :
    Fresh engine (updateIssue engine course reported issue s) := by
  unfold updateIssue
  split
  · exact (lost ‹_›).reach course _
  · refine fresh_recordPushHash single hashes recorded (fun content seen logged => ?_) rfl
    have before := (List.mem_cons.mp logged).resolve_left nofun
    exact (reach s _).sound sound content seen before

variable (hashes : engine.Hashes) (recorded : course.fails .record = false) (fresh : Fresh engine s)
  (covered : Steady course s ∨ course.fails .pushWrite = false ∧ engine.contentEqual.isSome = true)
include hashes recorded fresh covered

theorem fresh_pushIssue {issue : LocalIssue κ} : Fresh engine (pushIssue engine course reported issue s) := by
  unfold pushIssue
  split
  · exact fresh.skip ‹_›
  dsimp only
  have reached := fresh.reach course .pushFetch
  have read : Reads course (s.reach course .pushFetch) (s.reach course .pushFetch).read := .read _
  have steady_read : Steady course s → Fresh engine (s.reach course .pushFetch).read :=
    fun steady => reached.reads (steady.reads (.reach s _)) read
  split
  · exact fresh_updateIssue single hashes recorded reached.sound fun _ => reached
  split
  · rename_i contentEqual hook
    split
    · rename_i same
      refine fresh_recordPushHash single hashes recorded (read.sound reached.sound) ?_
      change some _ = _
      rw [hashes.equal contentEqual hook _ _ same]
    · refine fresh_updateIssue single hashes recorded (read.sound reached.sound) fun failing => ?_
      exact steady_read (covered.resolve_right fun written => nomatch written.1.symm.trans failing)
  · rename_i hook
    have kept := steady_read (covered.resolve_right fun compared => by simp [hook] at compared)
    split
    · exact fresh_updateIssue single hashes recorded kept.sound fun _ => kept
    · exact kept

end

theorem fresh_batchPush (unhashed : s.pushHash = none) (sound : s.Sound) {issue : LocalIssue κ} :
    Fresh engine (batchPush course reported issue s) := by
  have before : Reads course s (s.reach course .pushWrite) := .reach s _
  have reached := before.pushHash.trans unhashed
  unfold batchPush relink
  dsimp only
  split
  · exact .of_unhashed reached (before.sound sound)
  have written : Fresh engine ((s.reach course .pushWrite).overwriteExt issue reported (course.delay .pushWrite)) := by
    refine .of_unhashed reached fun content seen logged => ?_
    exact before.sound sound content seen ((List.mem_cons.mp logged).resolve_left nofun)
  have linked := written.reach course .relink
  split
  · exact linked
  · exact ⟨linked.hash, linked.batched, linked.sound⟩

theorem fresh_doPush (hashes : engine.Hashes) (recorded : course.fails .record = false) (fresh : Fresh engine s)
    (covered : Steady course s ∨ course.fails .pushWrite = false ∧ engine.contentEqual.isSome = true) {skip force : Bool} :
    Fresh engine (doPush engine opts course skip force reported s) := by
  have reached := fresh.reach course .pushSearch
  unfold doPush previewPush
  dsimp only
  split
  · exact reached
  split
  · split
    · exact reached.skip (And.right (And.right ‹_›))
    · exact reached
  split
  · exact fresh_batchPush (reached.batched ‹_›) reached.sound
  have single : engine.batch = .none := not_not.mp ‹_›
  split
  · exact fresh_updateIssue single hashes recorded reached.sound fun _ => reached
  · exact fresh_pushIssue single hashes recorded reached (covered.imp_left fun steady => steady.reads (.reach s _))

theorem Fresh.stamp (fresh : Fresh engine s) : Fresh engine (stampLastSync opts course s) := by
  have reached := fresh.reach course .stamp
  unfold stampLastSync
  split <;> exact ⟨reached.hash, reached.batched, reached.sound⟩

def guardedCalls : List Call :=
  [.detectSearch, .detectFetch, .pullStamp, .pullSearch, .pullFetch, .pullRead]

def LocalPreferred (opts : SyncOptions) (s : State κ) : Prop :=
  opts.conflictResolution = .local_ ∨ opts.conflictResolution = .timestamp ∧ s.extIssue.updatedAt < s.issue.updatedAt

structure LocalWins (engine : Engine κ) (opts : SyncOptions) (course : Course κ) (s : State κ) (lastSync : Nat) : Prop where
  pulls : opts.pulls = true
  pushes : opts.pushes = true
  calm : ∀ call ∈ guardedCalls, course.edits call = [] ∧ course.fails call = false
  stamped : s.lastSync = some lastSync
  modified : lastSync < s.issue.updatedAt
  changed : lastSync < s.extIssue.updatedAt
  preferred : LocalPreferred opts s
  /-- An issue that the search leaves out for its state is not pulled as one with a new ref. -/
  listed : opts.issueIds = [] → engine.inState opts.state s.extIssue.content = false →
    externalRefChangedAfter course.history engine.externalRef s.issue lastSync = false

/-- A pull that is bound to fetch the issue as it is, or not at all, spares one that was modified
since the last sync. -/
theorem doPull_guarded [DecidableEq κ] {lastSync : Nat} {reported : Bool}
    (stamped : s.lastSync = some lastSync) (stampRead : course.fails .pullStamp = false)
    (reach : ∀ call ∈ [Call.pullSearch, .pullFetch, .pullRead], ∀ t : State κ, t.reach course call = t)
    (answers : ∀ call ∈ [Call.pullFetch, .pullRead], course.fails call = false) (modified : lastSync < s.issue.updatedAt)
    (listed : opts.issueIds = [] → lastSync < s.extIssue.updatedAt ∧ engine.inState opts.state s.extIssue.content = true ∨
      externalRefChangedAfter course.history engine.externalRef s.issue lastSync = false) :
    doPull engine opts course false reported s.read = (false, s.read) := by
  have stamped : s.read.lastSync = some lastSync := stamped
  have modified : lastSync < s.read.issue.updatedAt := modified
  have fetched : fetchIssue engine opts course (some lastSync) s.read.issue s.read = (none, s.read) ∨
      fetchIssue engine opts course (some lastSync) s.read.issue s.read = (some (s.extIssue, false), s.read) := by
    unfold fetchIssue
    simp only [reach .pullFetch (by decide), answers .pullFetch (by decide), Option.all_some, Option.any_some]
    split
    · exact .inl rfl
    split
    · exact .inr rfl
    rename_i all
    split
    · exact .inr rfl
    rename_i missed
    refine .inl (if_neg fun renewed => missed ?_)
    obtain ⟨changed, within⟩ := (listed (not_not.mp all)).resolve_right fun same => nomatch same.symm.trans renewed
    exact Bool.and_eq_true_iff.mpr ⟨decide_eq_true changed, within⟩
  unfold doPull importIssue
  simp only [stampRead, reach .pullSearch (by decide), reach .pullRead (by decide), answers .pullRead (by decide), stamped]
  obtain missed | found := fetched
  · simp [missed]
  · simp [found, modified]

namespace LocalWins

variable {lastSync : Nat}

section

variable (wins : LocalWins engine opts course s lastSync)
include wins

theorem reach (call : Call) (guarded : call ∈ guardedCalls) (t : State κ) : t.reach course call = t := by
  rw [State.reach, (wins.calm call guarded).1]
  rfl

theorem detected : detectConflicts course s = (some ⟨s.issue.updatedAt, s.extIssue.updatedAt⟩, s.read) := by
  unfold detectConflicts
  rw [wins.stamped]
  simp [wins.reach .detectSearch (by decide), wins.reach .detectFetch (by decide), (wins.calm .detectSearch (by decide)).2,
    (wins.calm .detectFetch (by decide)).2, wins.modified, wins.changed]

theorem forced :
    resolveConflicts opts.conflictResolution (some ⟨s.issue.updatedAt, s.extIssue.updatedAt⟩) = keepLocal := by
  obtain resolution | ⟨resolution, newer⟩ := wins.preferred
  · rw [resolution]
    rfl
  · rw [resolution]
    exact if_pos newer

theorem spared [DecidableEq κ] (reported : Bool) : doPull engine opts course false reported s.read = (false, s.read) := by
  have within : ∀ call ∈ [Call.pullSearch, .pullFetch, .pullRead], call ∈ guardedCalls := by decide
  refine doPull_guarded wins.stamped (wins.calm .pullStamp (by decide)).2 (fun call member =>
    wins.reach call (within call member))
    (fun call member => (wins.calm call (within call (.tail _ member))).2) wins.modified fun all => ?_
  cases open' : engine.inState opts.state s.extIssue.content with
  | true => exact .inl ⟨wins.changed, rfl⟩
  | false => exact .inr (wins.listed all open')

end

end LocalWins

theorem SyncOptions.pushes_of_not_pulls (pulls : opts.pulls = false) : opts.pushes = true := by
  simp only [SyncOptions.pulls, Bool.or_eq_false_iff] at pulls
  simp [SyncOptions.pushes, pulls.1]

/-- A push that does not look at the tracker goes through to it. -/
structure Forces (engine : Engine κ) (opts : SyncOptions) (course : Course κ) (s : State κ) : Prop where
  real : opts.dryRun = false
  eligible : engine.eligible opts course (s.reach course .pushSearch).issue.content = true

/-- Nothing that the run reads makes a stored hash stale: there is none, the tracker's issue is as
the engine last saw it, or what was read is overwritten in the same run. -/
def Refreshes (engine : Engine κ) (s : State κ) : Step κ → Prop
  | .edit _ => True
  | .sync opts course => course.fails .record = false ∧
      (Steady course s ∨ course.fails .pushWrite = false ∧
        (opts.pulls = false ∧ engine.contentEqual.isSome = true ∨ Forces engine opts course s.read ∧
          ∃ lastSync, LocalWins engine opts course s lastSync))

variable [DecidableEq κ]

section

variable (hashes : engine.Hashes)
include hashes

theorem fresh_sync_forced (recorded : course.fails .record = false) (fresh : Fresh engine s)
    (written : course.fails .pushWrite = false) (forces : Forces engine opts course s.read)
    {lastSync : Nat} (wins : LocalWins engine opts course s lastSync) :
    Fresh engine (sync engine opts course s) := by
  unfold sync
  simp only [wins.pulls, wins.pushes, Bool.and_self, if_true, wins.detected, wins.forced, keepLocal, wins.spared, Bool.or_self]
  refine Fresh.stamp ?_
  have before : Reads course s (s.read.reach course .pushSearch) := (read s).trans (.reach s.read .pushSearch)
  have sound := before.sound fresh.sound
  unfold doPush
  simp only [forces.real, forces.eligible, Bool.not_true, Bool.and_false, Bool.or_self, Bool.false_eq_true, if_false, if_true]
  split
  · exact fresh_batchPush (before.pushHash.trans (fresh.batched ‹_›)) sound
  · exact fresh_updateIssue (not_not.mp ‹_›) hashes recorded sound fun failing => nomatch written.symm.trans failing

theorem fresh_sync (recorded : course.fails .record = false) (fresh : Fresh engine s)
    (covered : Steady course s ∨ course.fails .pushWrite = false ∧ opts.pulls = false ∧
    engine.contentEqual.isSome = true) : Fresh engine (sync engine opts course s) := by
  unfold sync
  refine Fresh.stamp ?_
  obtain steady | ⟨written, pushOnly, compared⟩ := covered
  · have detected : Reads course s (if opts.pulls && opts.pushes then detectConflicts course s else (none, s)).2 := by
      split
      · exact reads_detectConflicts course s
      · exact .refl s
    generalize (if opts.pulls && opts.pushes then detectConflicts course s else (none, s)) = outcome at detected ⊢
    have pulled : Reads course outcome.2 (if opts.pulls then doPull engine opts course
        (resolveConflicts opts.conflictResolution outcome.1).allowPullOverwrite outcome.1.isSome
          outcome.2 else (false, outcome.2)).2 := by
      split
      · exact reads_doPull _
      · exact .refl _
    have reads := detected.trans pulled
    split
    · exact fresh_doPush hashes recorded (fresh.reads steady reads) (.inl (steady.reads reads))
    · exact fresh.reads steady reads
  · simp only [pushOnly, SyncOptions.pushes_of_not_pulls pushOnly, Bool.false_and, Bool.false_eq_true, if_false, if_true]
    exact fresh_doPush hashes recorded fresh (.inr ⟨written, compared⟩)

theorem fresh_step (s : State κ) (taken : Step κ) (fresh : Fresh engine s)
    (refreshes : Refreshes engine s taken) : Fresh engine (step engine s taken) := by
  cases taken with
  | edit edit =>
    unfold step State.edit
    dsimp only
    split <;> exact ⟨fresh.hash, fresh.batched, fresh.sound⟩
  | sync opts course =>
    obtain ⟨recorded, steady | ⟨written, pushOnly | ⟨forces, lastSync, wins⟩⟩⟩ := refreshes
    · exact fresh_sync hashes recorded fresh (.inl steady)
    · exact fresh_sync hashes recorded fresh (.inr ⟨written, pushOnly⟩)
    · exact fresh_sync_forced hashes recorded fresh written forces wins

end

/-- On a history without stored hash in the beginning and with a fresh one ever after, a push is
skipped only if the tracker has the local content as far as the engine knows. -/
theorem skipped_push_seen (hashes : engine.Hashes) {start : State κ}
    (unhashed : start.pushHash = none) (unlogged : start.log = [])
    (steps : List (Step κ)) (along : Along engine (Refreshes engine) steps start) {content : κ} {seen : Option κ}
    (skipped : .skipped content seen ∈ (run engine steps start).log) : seen = some content := by
  have fresh : Fresh engine start := by
    refine .of_unhashed unhashed fun content seen logged => ?_
    rw [unlogged] at logged
    exact nomatch logged
  exact (run_keeps (fresh_step hashes) fresh along).sound content seen skipped

def digits : Engine Nat where
  contentEqual := some (· == ·)
  contentHash := some (Nat.toDigits 10)
  targetScope := "repo".toList
  externalRef := "github:42".toList

theorem digits_hashes : digits.Hashes where
  injective := by
    rintro _ ⟨⟩ one other same
    exact Text.toDigits_injective same
  present := by
    rintro _ ⟨⟩ content
    exact Nat.toDigits_ne_nil
  equal := by
    rintro _ ⟨⟩ one other same
    exact beq_iff_eq.mp same

def undisturbed : Course Nat where
  edits _ := []
  fails _ := false
  delay _ := 0
  history := .recorded "github:42".toList

def linked : State Nat := ⟨⟨0, 0, 0, 0⟩, ⟨0, 0, 0⟩, none, none, 0, 0, 0, some 0, []⟩

def pushOnly : SyncOptions := { push := true }

def pullOnly : SyncOptions := { pull := true }

def pushedTwice : List (Step Nat) :=
  [.edit ⟨.beads, 1, 0⟩, .sync pushOnly undisturbed, .sync pushOnly undisturbed]

theorem pushedTwice_seen : .skipped 1 (some 1) ∈ (run digits pushedTwice linked).log ∧ some 1 = some 1 := by
  have quiet : undisturbed.TrackerQuiet := nofun
  have along : Along digits (Refreshes digits) pushedTwice linked := by
    refine ⟨trivial, ⟨rfl, .inl (.inl rfl)⟩, ⟨rfl, .inl (.inr ⟨by decide, quiet⟩)⟩, trivial⟩
  exact ⟨by decide, skipped_push_seen digits_hashes rfl rfl pushedTwice along (by decide)⟩

def editedBack : List (Step Nat) :=
  [.edit ⟨.beads, 1, 0⟩, .sync pushOnly undisturbed, .edit ⟨.tracker, 2, 10 ^ 10⟩,
    .sync pullOnly undisturbed, .edit ⟨.beads, 1, 10 ^ 10⟩, .sync pushOnly undisturbed]

theorem editedBack_stale : digits.Hashes ∧ .skipped 1 (some 2) ∈ (run digits editedBack linked).log ∧
    (run digits editedBack linked).issue.content = 1 ∧ (run digits editedBack linked).extIssue.content = 2 :=
  ⟨digits_hashes, by decide, by decide, by decide⟩

end Beads.Tracker
