import Beads.Merge.Settled

namespace Beads

open Interruption TableConflicts List

variable {γ : Type} {engine : DoltEngine γ} {fails : DoltStatement → Bool} {s before : DoltState γ} {working : WorkingSet γ}
  {merge : MergeEffect γ} {mergeErr : Option String} {preMergeClean : Bool} {strategy : String}

/-- A statement other than the listing of the conflicts fails. -/
def Interrupted (fails : DoltStatement → Bool) : Prop := ∃ statement, fails statement = true ∧ statement ≠ .listConflicts

variable {failed : DoltState γ → Prop} {ran : Unit → DoltState γ → Prop} {α : Type}

theorem ends_validateViolations {entries : List TableViolations} {done : Bool → DoltState γ → Prop}
    (answered : done (entries.all repairable) s) (lost : (∃ table, fails (.violationRows table) = true) → failed s) :
    Ends (validateViolations fails entries) done failed s := by
  induction entries with
  | nil => exact answered
  | cons entry rest ih =>
    rw [all_cons, repairable] at answered
    rw [validateViolations]
    cases known : fkCascadeTables.contains entry.table with
    | false =>
      rw [known] at answered
      exact answered
    | true =>
      refine ends_bind (ends_ask (fun _ => ?_) fun failing => lost ⟨_, failing⟩)
      rw [known] at answered
      cases only : violationsAreIssueFKOnly entry.violations with
      | false =>
        rw [only] at answered
        exact answered
      | true =>
        rw [only] at answered
        exact ih answered

theorem DoltRoot.intact_cascade {root : DoltRoot γ} {table child : TableName}
    (intact : child = table ∨ root.Intact child) : (root.cascade table).Intact child := by
  intro row member
  change row ∈ (if child = table then _ else _) at member
  split at member
  · change root.dangling row = false
    simpa using (mem_filter.mp member).2
  · exact (intact.resolve_left ‹_›) row member

theorem passes_resolveConflicts (references : engine.KeepsReferences) {entry : TableConflicts} {rest : List TableConflicts}
    (facing : Facing before s entry rest) (named : entry.table ≠ "") :
    Passes before s (· = rest) (resolveConflicts engine fails (conflictTable entry) strategy) := by
  rw [conflictTable, if_neg named, resolveConflicts]
  split
  · exact facing.midway
  split
  · exact passes_resolveWhole references facing
  split
  · exact passes_resolveWhole references facing
  · exact facing.midway

section

variable (midway : Midway before s)
include midway

theorem ends_repairTable {entry : TableViolations}
    (repaired : ∀ after, Midway before after → after.working.conflicts = s.working.conflicts →
      after.working.violations = s.working.violations.filter
    (fun other => other.table != entry.table) → ran () after) (lost : ∀ after, Midway before after →
    Interrupted fails → failed after) : Ends (repairTable fails entry) ran failed s := by
  have cascaded : Midway before { s with working := { s.working with root := s.working.root.cascade entry.table } } := by
    refine ⟨midway.opened, fun table synced => (midway.recorded table synced).imp_left fun intact => ?_⟩
    exact DoltRoot.intact_cascade (.inr intact)
  refine ends_bind (ends_exec (fun _ => ?_) fun failing => lost s midway ⟨_, failing, nofun⟩)
  refine ends_bind (ends_exec (fun _ => ?_) fun failing => lost _ cascaded ⟨_, failing, nofun⟩)
  have cleared : Midway before { s with working := { s.working with
      root := s.working.root.cascade entry.table
      violations := s.working.violations.filter fun other => other.table != entry.table } } := by
    refine ⟨midway.opened, fun table synced => ?_⟩
    by_cases here : table = entry.table
    · exact .inl (DoltRoot.intact_cascade (.inl here))
    · refine (midway.recorded table synced).imp (fun intact => DoltRoot.intact_cascade (.inr intact)) ?_
      rintro ⟨other, listed, rfl⟩
      exact ⟨other, mem_filter.mpr ⟨listed, by simpa using here⟩, rfl⟩
  exact ends_exec (fun _ => repaired _ cleared rfl rfl) fun failing => lost _ cleared ⟨_, failing, nofun⟩

structure Repaired (s : DoltState γ) (repaired had : Bool) (after : DoltState γ) : Prop where
  conflicts : after.working.conflicts = s.working.conflicts
  counted : had = !s.working.violations.isEmpty
  cleared : had = false ∨ repaired = true → after.working.violations = []
  understood : repaired = true → had = true ∧ s.working.violations.all repairable = true

theorem ends_tryRepair (lost : ∀ after, Midway before after → Interrupted fails → failed after) :
    Ends (tryRepairFKCascadeViolations fails) (fun answer after => Midway before after ∧ Repaired s answer.1 answer.2 after ∧
      (s.working.violations.all repairable = true → answer.2 = true → answer.1 = true)) failed s := by
  refine ends_bind (ends_ask (fun _ => ?_) fun failing => lost s midway ⟨_, failing, nofun⟩)
  split
  · rename_i none
    exact ⟨midway, ⟨rfl, by simp [none], fun _ => isEmpty_iff.mp none, nofun⟩, fun _ had => nomatch had⟩
  · rename_i some
    have had : true = !s.working.violations.isEmpty := by simp [some]
    refine ends_bind (ends_validateViolations ?_ fun ⟨_, failing⟩ => lost s midway ⟨_, failing, nofun⟩)
    split
    · rename_i beyond
      have not : s.working.violations.all repairable = false := by simpa using beyond
      exact ⟨midway, ⟨rfl, had, fun cleared => by simp at cleared, nofun⟩, fun all => nomatch not.symm.trans all⟩
    · rename_i understood
      have all : s.working.violations.all repairable = true := by simpa using understood
      have loop : Ends (s.working.violations.forM (repairTable fails)) (fun _ after => Midway before after ∧
          after.working.conflicts = s.working.conflicts ∧ ∀ entry ∈ after.working.violations,
            entry.table ∈ ([] : List TableName)) failed s := by
        refine ends_forM (fun rest after => Midway before after ∧ after.working.conflicts = s.working.conflicts ∧
          ∀ entry ∈ after.working.violations, entry.table ∈ rest.map TableViolations.table)
          ⟨midway, rfl, fun entry listed => mem_map_of_mem listed⟩ fun entry rest state ⟨still, same, left⟩ => ?_
        refine ends_repairTable still (fun after next unchanged removed =>
          ⟨next, unchanged.trans same, fun other listed => ?_⟩) lost
        rw [removed] at listed
        obtain ⟨member, apart⟩ := mem_filter.mp listed
        exact (mem_cons.mp (left other member)).resolve_left (by simpa using apart)
      refine ends_bind (loop.imp (fun _ after ⟨still, same, left⟩ => ?_) fun _ lost => lost)
      have cleared : after.working.violations = [] := eq_nil_iff_forall_not_mem.mpr fun entry listed => nomatch left entry listed
      refine ends_bind (ends_ask (fun _ => ?_) fun failing => lost after still ⟨_, failing, nofun⟩)
      exact ⟨still, ⟨same, had, fun _ => cleared, fun _ => ⟨rfl, all⟩⟩, fun _ _ => by rw [cleared]; rfl⟩

theorem ends_concludeMerge {resolved strategyResolved : Bool} (clean : before.working = ⟨before.working.root, [], [], none⟩)
    (concluded : ∀ after, after.working.conflicts = s.working.conflicts → after.working.violations = [] →
      (∀ table ∈ fkCascadeTables, after.working.root.Intact table) → s.working.violations.all repairable = true →
      mergeErr = none ∨ resolved = true ∨ strategyResolved = true ∨ s.working.violations ≠ [] → ran () after) :
    Ends (concludeMerge fails mergeErr preMergeClean resolved strategyResolved) ran
    (fun after => after.working = before.working) s := by
  refine ends_bind (ends_attempt ((ends_tryRepair midway fun after still _ => still).imp ?_ ?_))
  · rintro ⟨repaired, had⟩ after ⟨still, report, complete⟩
    dsimp only at report complete ⊢
    have refused : ∀ error, Ends (refuse preMergeClean error) ran (fun after => after.working = before.working) after :=
      fun error => ends_refuse clean still.undoable preMergeClean error
    split
    · exact refused _
    split
    · exact refused _
    rename_i settled explained
    have cleared : after.working.violations = [] := report.cleared (by revert settled; cases had <;> cases repaired <;> simp)
    have understood : s.working.violations.all repairable = true := by
      cases repaired with
      | true => exact (report.understood rfl).2
      | false =>
        have none : s.working.violations = [] := by simpa [show had = false by simpa using settled] using report.counted
        rw [none]
        rfl
    have answered : mergeErr = none ∨ resolved = true ∨ strategyResolved = true ∨ s.working.violations ≠ [] := by
      cases repaired with
      | true =>
        refine .inr (.inr (.inr fun none => ?_))
        simpa [(report.understood rfl).1, none] using report.counted
      | false => revert explained; cases mergeErr <;> cases resolved <;> cases strategyResolved <;> simp
    have finish : ∀ final : DoltState γ, final.working.conflicts = after.working.conflicts →
      final.working.violations = after.working.violations →
        final.working.root = after.working.root → ran () final := by
      intro final conflicts violations root
      refine concluded final (conflicts.trans report.conflicts) (violations.trans cleared) ?_ understood answered
      rw [root]
      exact still.recorded.intact cleared
    split
    · refine ends_bind (ends_attempt (ends_commit (fun _ => ?_) fun error => refused _))
      exact finish _ rfl rfl rfl
    · exact finish after rfl rfl rfl
  · exact fun after still error => ends_refuse clean still.undoable preMergeClean _

theorem ends_stageAndCommit {tables : List TableName} (none : s.working.conflicts = [])
    (cleared : s.working.violations = []) :
    Ends (stageAndCommit engine fails tables) (fun _ after => after.working.Settled) (Undoable before) s := by
  have settled : s.working.Settled := ⟨none, cleared, midway.recorded.intact cleared⟩
  refine ends_bind (ends_ask (fun _ => ?_) fun _ => midway.undoable)
  split
  · exact settled
  have staged : Ends (tables.forM fun table => exec fails (.stageDirty table) id)
    (fun _ after => after = s) (Undoable before) s :=
    ends_forM (fun _ after => after = s) rfl fun _ _ _ same => ends_exec (fun _ => same) fun _ => same ▸ midway.undoable
  refine ends_bind (staged.imp (fun _ after same => ?_) fun _ lost => lost)
  subst same
  refine ends_bind (ends_ask (fun _ => ?_) fun _ => midway.undoable)
  split
  · exact settled
  · exact ends_commit (fun _ => ⟨none, cleared, settled.intact⟩) midway.undoable

variable (references : engine.KeepsReferences) (distinct : (s.working.conflicts.map table).Nodup)
    {answered : Bool → DoltState γ → Prop}
  (resolved : ∀ after, Midway before after → after.working.conflicts = [] →
      after.working.violations = s.working.violations → answered true after)
include references distinct resolved

theorem ends_tryAutoResolve (declined : s.working.conflicts = [] ∨
    s.working.conflicts.mapM (screenTable engine) = none → answered false s)
    (lost : ∀ after, Midway before after → failed after) :
    Ends (tryAutoResolveMergeConflicts engine fails) answered failed s := by
  refine ends_bind (ends_ask (fun _ => ?_) fun _ => lost s midway)
  split
  · exact declined (.inl (isEmpty_iff.mp ‹_›))
  refine ends_bind (ends_screenTables ?_ fun _ => lost s midway)
  cases screened : s.working.conflicts.mapM (screenTable engine) with
  | none => exact declined (.inr screened)
  | some resolutions =>
    refine ends_bind (Ends.imp (passes_resolveTables references midway distinct screened)
      (fun _ after ⟨still, left, same⟩ => ?_) lost)
    exact resolved after still left same

variable (named : ∀ entry ∈ s.working.conflicts, entry.table ≠ "")
include named

omit references resolved in
theorem passes_tables {body : TableConflicts → DoltM γ Unit}
    (round : ∀ entry rest state, Facing before state entry rest → entry.table ≠ "" →
      Passes before state (· = rest) (body entry)) :
    Passes before s (· = []) (s.working.conflicts.forM body) := by
  have loop : Passes before s (fun left => left = [] ∧ (([] : List TableConflicts).map table).Nodup ∧
      ∀ entry ∈ ([] : List TableConflicts), entry.table ≠ "") (s.working.conflicts.forM body) := by
    refine passes_forM (fun rest left => left = rest ∧ (rest.map table).Nodup ∧ ∀ entry ∈ rest, entry.table ≠ "")
      midway ⟨rfl, distinct, named⟩ fun entry rest state still ⟨listed, distinct, named⟩ => ?_
    obtain ⟨apart, distinct⟩ := nodup_cons.mp distinct
    obtain ⟨here, named⟩ := forall_mem_cons.mp named
    exact (round entry rest state ⟨still, listed, apart⟩ here).imp fun _ left => ⟨left, distinct, named⟩
  exact loop.imp fun _ left => left.1

theorem ends_resolveDeclined (clean : before.working = ⟨before.working.root, [], [], none⟩) (overlooked : answered false s) :
    Ends (resolveDeclined engine fails mergeErr preMergeClean strategy) answered
      (fun after => after.working = before.working) s := by
  refine ends_bind (ends_attempt (ends_ask (fun _ => ?_) fun _ error => overlooked))
  dsimp only
  split
  · exact overlooked
  split
  · exact ends_refuse clean midway.undoable preMergeClean _
  have loop : Passes before s (· = []) (s.working.conflicts.forM fun entry => do
      resolveConflicts engine fails (conflictTable entry) strategy
      exec fails (.stageResolved (conflictTable entry)) id) := by
    refine passes_tables midway distinct named fun entry rest state facing here => ?_
    exact (passes_resolveConflicts references facing here).andThen fun _ next left => passes_stage next left
  refine ends_bind (ends_attempt (Ends.imp loop (fun _ after ⟨still, left, same⟩ => ?_) fun after still error => ?_))
  · exact resolved after still left same
  · exact ends_refuse clean still.undoable preMergeClean error

omit resolved in
theorem ends_settleWithStrategy :
    Ends (settleWithStrategy engine fails s.working.conflicts strategy)
      (fun _ after => after.working.Settled) (Undoable before) s := by
  have loop : Passes before s (· = []) (s.working.conflicts.forM
    fun entry => resolveConflicts engine fails (conflictTable entry) strategy) :=
    passes_tables midway distinct named fun entry rest state facing here => passes_resolveConflicts references facing here
  refine ends_bind (Ends.imp loop (fun _ after ⟨still, left, same⟩ => ?_) fun _ still => still.undoable)
  refine ends_bind ((ends_tryRepair still fun _ next _ => next.undoable).imp ?_ fun _ lost => lost)
  rintro ⟨repaired, had⟩ final ⟨next, report, _⟩
  dsimp only at report ⊢
  split
  · exact next.undoable
  · rename_i settled
    refine ends_stageAndCommit next (report.conflicts.trans left) (report.cleared ?_)
    revert settled
    cases had <;> cases repaired <;> simp

end

/-- Conflicts that the resolver declines on a merge that needs nothing else: with the listing lost,
nobody is told. -/
def MergeEffect.Overlooked (engine : DoltEngine γ) (merge : MergeEffect γ) : Prop :=
  merge.after.working.conflicts ≠ [] ∧ merge.after.working.conflicts.mapM (screenTable engine) = none ∧
    merge.after.working.violations.all repairable = true ∧ (merge.mergeErr = none ∨ merge.after.working.violations ≠ [])

/-- The program settles the merge or restores the working set. -/
def EndsWell {α : Type} (before : DoltState γ) (prog : DoltM γ α) (s : DoltState γ) : Prop :=
  Ends prog (fun _ after => after.working.Settled) (fun after => after.working = before.working) s

def Quiet (before s : DoltState γ) : Prop := s.working = before.working ∧ s.head = before.working.root

theorem ends_callMerge {rest : DoltM γ α} {done : α → DoltState γ → Prop}
    (lost : fails .allowConflicts = true ∨ fails .forceCommit = true → failed before)
    (merged : Ends rest done failed merge.after) :
    Ends (do exec fails .allowConflicts id; exec fails .forceCommit id; callMerge merge; rest) done failed before := by
  refine ends_bind (ends_exec (fun _ => ?_) fun failing => lost (.inl failing))
  exact ends_bind (ends_exec (fun _ => ends_bind merged) fun failing => lost (.inr failing))

theorem ends_refuse_closed {done : α → DoltState γ → Prop} {error : SettleError}
    (closed : s.working.merging = none) (kept : failed s) : Ends (refuse false error) done failed s := by
  refine ends_bind ?_
  unfold Ends abortMerge
  rw [closed]
  exact kept

theorem not_endsWell {prog : DoltM γ α} (done : α → DoltState γ → Prop) (failed : DoltState γ → Prop)
    (ends : Ends prog done failed before) (unsettled : ∀ value after, done value after → ¬after.working.Settled)
    (moved : ∀ after, failed after → after.working ≠ before.working) : ¬EndsWell before prog before :=
  fun well => ends.clash well unsettled moved

theorem not_ends_settle_closed (closed : merge.after.working.merging = none) (changed : merge.after.working ≠ before.working) :
    ¬EndsWell before (mergeAndSettleWithStrategy engine (fun statement => statement == .status || statement == .conflicts)
      merge strategy) before := by
  refine not_endsWell (fun _ _ => False) (fun after => after.working = merge.after.working) (ends_callMerge (by simp) ?_)
    (fun _ _ => False.elim) fun _ left same => changed (left.symm.trans same)
  refine ends_bind (ends_attempt (ends_bind (ends_ask nofun fun _ error => ?_)))
  exact ends_refuse_closed closed rfl

section

variable (lands : merge.Lands before)
include lands

theorem MergeEffect.Lands.unmoved : before.working = ⟨before.working.root, [], [], none⟩ := by
  rw [lands.clean]

theorem MergeEffect.Lands.midway (open' : merge.after.working.merging.isSome = true) :
    Midway before merge.after := by
  obtain ⟨root, opened⟩ := Option.isSome_iff_exists.mp open'
  refine ⟨?_, lands.recorded⟩
  rw [opened, lands.opened root opened]

theorem MergeEffect.Lands.quiet (unchanged : merge.after.working = before.working) :
    Quiet before merge.after := by
  refine ⟨unchanged, ?_⟩
  obtain head | head := lands.head
  · rw [head, lands.clean]
  · rw [head, unchanged]

omit lands in
theorem Quiet.settled (quiet : Quiet before s) (clean : before.working = ⟨before.working.root, [], [], none⟩)
    (recorded : s.working.Recorded) : s.working.Settled := by
  have none : s.working.violations = [] := by rw [quiet.1, clean]
  exact ⟨by rw [quiet.1, clean], none, recorded.intact none⟩

theorem ends_settle_quiet (unchanged : merge.after.working = before.working) :
    EndsWell before (settleMerge engine fails merge.mergeErr preMergeClean strategy) merge.after := by
  have quiet := lands.quiet unchanged
  have settled := quiet.settled lands.unmoved lands.recorded
  have refused : ∀ error, EndsWell before (refuse preMergeClean error : DoltM γ Unit) merge.after :=
    fun error => ends_refuse lands.unmoved (.inr quiet) preMergeClean error
  have concluded : EndsWell before (concludeMerge fails merge.mergeErr preMergeClean false false) merge.after := by
    refine ends_bind (ends_attempt (ends_bind (ends_ask (fun _ => ?_) fun _ error => refused _)))
    rw [settled.violations]
    change Ends (if merge.mergeErr.isSome && !false && !false && !false then _ else pure ()) _ _ _
    split
    · exact refused _
    · exact settled
  refine ends_bind (ends_attempt (ends_bind (ends_ask (fun _ => ?_) fun _ error => refused _)))
  rw [settled.conflicts]
  refine ends_bind (ends_bind (ends_attempt (ends_ask (fun _ => ?_) fun _ error => concluded)))
  rw [settled.conflicts]
  exact concluded

omit lands in
theorem ends_conclude_overlooked (midway : Midway before s) (understood : s.working.violations.all repairable = true)
    (explained : mergeErr = none ∨ s.working.violations ≠ []) :
    Ends (concludeMerge (fun statement => statement == .listConflicts) mergeErr preMergeClean false false)
      (fun _ after => after.working.conflicts = s.working.conflicts) (fun _ => False) s := by
  refine ends_bind (ends_attempt ((ends_tryRepair midway fun _ _ ⟨_, failing, other⟩ => other (by simpa using failing)).imp ?_
    fun _ (lost : False) => lost.elim))
  rintro ⟨repaired, had⟩ after ⟨_, report, complete⟩
  dsimp only at report complete ⊢
  have repaired_of_had := complete understood
  have explains : mergeErr.isSome = true → repaired = true := by
    intro failed
    refine repaired_of_had (report.counted.trans ?_)
    simpa using explained.resolve_left (Option.isSome_iff_ne_none.mp failed)
  split
  · rename_i unrepaired
    simp only [Bool.and_eq_true, Bool.not_eq_true'] at unrepaired
    exact nomatch unrepaired.2.symm.trans (repaired_of_had unrepaired.1)
  split
  · rename_i unexplained
    simp only [Bool.and_eq_true, Bool.not_eq_true', Bool.not_false, and_true] at unexplained
    exact nomatch unexplained.2.symm.trans (explains unexplained.1)
  · exact report.conflicts

theorem not_ends_settle_overlooked (open' : merge.after.working.merging.isSome = true)
    (overlooked : merge.Overlooked engine) :
    ¬EndsWell before (mergeAndSettleWithStrategy engine (fun statement =>
      statement == .listConflicts) merge strategy) before := by
  obtain ⟨some, declined, understood, explained⟩ := overlooked
  refine not_endsWell (fun _ after => after.working.conflicts = merge.after.working.conflicts) (fun _ => False)
    (ends_callMerge (by simp) ?_) (fun _ _ left settled => some (left.symm.trans settled.conflicts)) fun _ => False.elim
  refine ends_bind (ends_attempt (ends_bind (ends_ask (fun _ => ?_) nofun)))
  rw [if_neg (by simpa using some)]
  refine ends_bind (ends_screenTables ?_ nofun)
  rw [declined]
  refine ends_bind (ends_bind (ends_attempt (ends_ask nofun fun _ error => ?_)))
  exact ends_conclude_overlooked (lands.midway open') understood explained

end

theorem not_ends_strategy_closed (valid : strategy = "ours" ∨ strategy = "theirs")
    (closed : merge.after.working.merging = none) (changed : merge.after.working ≠ before.working) :
    ¬EndsWell before (mergeWithStrategy engine (fun statement => statement == .status || statement == .listConflicts)
      merge strategy) before := by
  rw [mergeWithStrategy, if_neg fun other => valid.elim other.1 other.2]
  refine not_endsWell (fun _ _ => False) (fun after => after.working = merge.after.working) (ends_callMerge (by simp) ?_)
    (fun _ _ => False.elim) fun _ left same => changed (left.symm.trans same)
  refine ends_bind (ends_attempt (ends_ask nofun fun _ error => ?_))
  exact ends_refuse_closed closed rfl

theorem not_ends_strategy_violated (valid : strategy = "ours" ∨ strategy = "theirs")
    (violated : merge.after.working.violations ≠ [])
    (agreed : merge.after.working.conflicts = []) (merged : merge.mergeErr = none) :
    ¬EndsWell before (mergeWithStrategy engine (fun _ => false) merge strategy) before := by
  rw [mergeWithStrategy, if_neg fun other => valid.elim other.1 other.2]
  refine not_endsWell (fun _ after => after.working.violations = merge.after.working.violations) (fun _ => False)
    (ends_callMerge (by simp) ?_) (fun _ _ left settled => violated (left.symm.trans settled.violations)) fun _ => False.elim
  refine ends_bind (ends_attempt (ends_ask (fun _ => ?_) nofun))
  rw [agreed, merged]
  exact rfl

section

variable (references : engine.KeepsReferences)
include references

theorem ends_settle_open (lands : merge.Lands before)
    (open' : merge.after.working.merging.isSome = true) (seen : ¬merge.Overlooked engine) :
    EndsWell before (settleMerge engine fails merge.mergeErr preMergeClean strategy) merge.after := by
  have midway := lands.midway open'
  have clean := lands.unmoved
  refine ends_bind (ends_attempt (ends_tryAutoResolve midway references lands.distinct (fun after still left same => ?_)
    (fun declined => ?_) fun after still error => ends_refuse clean still.undoable preMergeClean _))
  · exact ends_concludeMerge still clean fun final same cleared intact _ _ => ⟨same.trans left, cleared, intact⟩
  · refine ends_bind (ends_resolveDeclined midway references lands.distinct
      (fun after still left same => ?_) lands.named clean ?_)
    · exact ends_concludeMerge still clean fun final same cleared intact _ _ => ⟨same.trans left, cleared, intact⟩
    · refine ends_concludeMerge midway clean fun after same cleared intact understood explained => ⟨?_, cleared, intact⟩
      rw [same]
      -- With declined conflicts left over, the merge is one that is overlooked.
      by_contra some
      exact seen ⟨some, declined.resolve_left some, understood, by simpa using explained⟩

theorem ends_strategy (lands : merge.Lands before)
    (restorable : merge.after.working = before.working ∨ merge.after.working.merging.isSome = true)
    (shown : merge.after.working.violations = [] ∨ merge.after.working.conflicts ≠ [] ∨ merge.mergeErr ≠ none) :
    EndsWell before (mergeWithStrategy engine fails merge strategy) before := by
  have undoable : Undoable before merge.after :=
    restorable.elim (fun unchanged => .inr (lands.quiet unchanged)) fun open' => (lands.midway open').undoable
  have refused : ∀ {s : DoltState γ}, Undoable before s → ∀ error,
      EndsWell before (refuse (workingSetClean fails) error : DoltM γ (List TableConflicts)) s :=
    fun undoable error => ends_refuse lands.unmoved undoable _ error
  rw [mergeWithStrategy]
  split
  · exact rfl
  refine ends_callMerge (fun _ => rfl) (ends_bind (ends_attempt (ends_ask (fun _ => ?_) fun _ error => refused undoable _)))
  dsimp only
  split
  · rename_i none
    have none := isEmpty_iff.mp none
    cases merged : merge.mergeErr with
    | some err => exact refused undoable _
    | none =>
      have cleared : merge.after.working.violations = [] := shown.resolve_right (by simp [none, merged])
      exact (⟨none, cleared, lands.recorded.intact cleared⟩ : merge.after.working.Settled)
  · rename_i some
    have open' : merge.after.working.merging.isSome = true := by
      refine restorable.resolve_left fun unchanged => some ?_
      rw [unchanged, lands.unmoved]
      rfl
    have settles : Ends (settleWithStrategy engine fails merge.after.working.conflicts strategy)
      (fun _ after => after.working.Settled)
        (Undoable before) merge.after :=
      ends_settleWithStrategy (lands.midway open') references lands.distinct lands.named
    exact ends_bind (ends_attempt (settles.imp (fun _ _ settled => settled) fun _ left error => refused left error))

end

/-- Whatever statements fail, a driver settles the merge or restores the working set: exactly if the
merge changed nothing or is still open, and the driver looks at what it left. -/
theorem merge_settled_iff (references : engine.KeepsReferences) (lands : merge.Lands before) (strategy : String) :
    ((∀ fails, Ends (mergeAndSettleWithStrategy engine fails merge strategy) (fun _ after => after.working.Settled)
        (fun after => after.working = before.working) before) ↔
      merge.after.working = before.working ∨ merge.after.working.merging.isSome = true ∧ ¬merge.Overlooked engine) ∧
    ((∀ fails, Ends (mergeWithStrategy engine fails merge strategy) (fun _ after => after.working.Settled)
        (fun after => after.working = before.working) before) ↔
      (strategy ≠ "ours" ∧ strategy ≠ "theirs") ∨
      (merge.after.working = before.working ∨ merge.after.working.merging.isSome = true) ∧
        (merge.after.working.violations = [] ∨ merge.after.working.conflicts ≠ [] ∨ merge.mergeErr ≠ none)) := by
  refine ⟨⟨fun ends => ?_, fun condition fails => ?_⟩, ⟨fun ends => ?_, fun condition fails => ?_⟩⟩
  · by_contra! failing
    obtain ⟨changed, overlooked⟩ := failing
    cases merging : merge.after.working.merging with
    | none => exact not_ends_settle_closed merging changed (ends _)
    | some root =>
      have open' : merge.after.working.merging.isSome = true := by rw [merging]; rfl
      exact not_ends_settle_overlooked lands open' (overlooked open') (ends _)
  · refine ends_callMerge (fun _ => rfl) ?_
    obtain unchanged | ⟨open', seen⟩ := condition
    · exact ends_settle_quiet lands unchanged
    · exact ends_settle_open references lands open' seen
  · by_contra! failing
    obtain ⟨named, failing⟩ := failing
    have valid : strategy = "ours" ∨ strategy = "theirs" := by
      by_cases ours : strategy = "ours"
      · exact .inl ours
      · exact .inr (named ours)
    by_cases restorable : merge.after.working = before.working ∨ merge.after.working.merging.isSome = true
    · obtain ⟨violated, agreed, merged⟩ := failing restorable
      exact not_ends_strategy_violated valid violated agreed merged (ends _)
    · obtain ⟨changed, closed⟩ := not_or.mp restorable
      exact not_ends_strategy_closed valid (by simpa using closed) changed (ends _)
  · obtain ⟨ours, theirs⟩ | ⟨restorable, shown⟩ := condition
    · rw [mergeWithStrategy, if_pos ⟨ours, theirs⟩]
      exact rfl
    · exact ends_strategy references lands restorable shown

namespace DoltEngine

def resting : DoltEngine Unit where
  resolve _ _ _ root := root
  backfill _ _ root := root
  writeMerged _ root := root
  parseText _ := none
  freshRowLock _ := .null
  hasPendingChanges _ := true
  hasStagedChanges _ := true

def labelled : DoltRoot Unit := ⟨["bd-1"], fun table => if table = "labels" then [⟨"bd-1/urgent", ["bd-1"]⟩] else [], ()⟩

def committed : DoltState Unit := ⟨labelled, ⟨labelled, [], [], none⟩⟩

/-- The other branch deleted the issue after the label was put on here. -/
def orphaning : MergeEffect Unit where
  after := ⟨labelled, ⟨{ labelled with issues := [] }, [], [⟨"labels", [⟨"foreign key", some "issues"⟩]⟩], some labelled⟩⟩
  err := none

theorem resting_keeps : resting.KeepsReferences :=
  ⟨fun _ _ _ _ _ _ => id, fun _ _ _ _ _ => id, fun _ _ _ _ => id⟩

theorem orphaning_lands : orphaning.Lands committed where
  clean := rfl
  opened := by rintro _ ⟨⟩; rfl
  head := .inl rfl
  distinct := nodup_nil
  named := nofun
  recorded := by
    intro table synced
    by_cases labels : table = "labels"
    · exact .inr ⟨_, mem_singleton_self _, labels.symm⟩
    · refine .inl fun row member => ?_
      simp [orphaning, labelled, labels] at member

theorem orphaning_settled : orphaning.after.working.merging.isSome = true ∧
    ∀ fails, Ends (mergeAndSettleWithStrategy resting fails orphaning "theirs") (fun _ after => after.working.Settled)
      (fun after => after.working = committed.working) committed :=
  ⟨rfl, (merge_settled_iff resting_keeps orphaning_lands "theirs").1.mpr (.inr ⟨rfl, fun overlooked => overlooked.1 rfl⟩)⟩

/-- With the operator's strategy and no statement failing, success is reported and the orphaned
label stays. -/
theorem orphaning_left : resting.KeepsReferences ∧ orphaning.Lands committed ∧
    mergeWithStrategy resting (fun _ => false) orphaning "theirs" committed = .ok [] orphaning.after ∧
    orphaning.after.working.violations.length = 1 ∧ ¬orphaning.after.working.Settled := by
  refine ⟨resting_keeps, orphaning_lands, rfl, rfl, fun settled => ?_⟩
  exact nomatch settled.violations

end DoltEngine

end Beads
