import Beads.Merge.Exchange

/-! The rules of the field merge as a reader of the settled row meets them: a row that was closed
coherently on all sides stays coherent, an edit of one side is not lost, and the token of the row is
new when the row is. -/

namespace Beads

def freshRowLockDistinctFrom (ourLock theirLock : ConflictCell) (draws : List Int) : Option ConflictCell :=
  (draws.map ConflictCell.number).find? fun candidate => candidate != ourLock && candidate != theirLock

theorem freshRowLockDistinctFrom_distinct {ourLock theirLock token : ConflictCell} {draws : List Int}
    (drawn : freshRowLockDistinctFrom ourLock theirLock draws = some token) : token ≠ ourLock ∧ token ≠ theirLock := by
  simpa using List.find?_some drawn

/-- `types.Issue.Validate`: a row is closed exactly when it has a `closed_at`. -/
def CloseCoherent (cells : Column → ConflictCell) : Prop := cells "status" = .text "closed" ↔ cells "closed_at" ≠ .null

namespace ConflictRow

variable {row : ConflictRow} {parseText : String → Option Int} {col : Column} {merge : IssuesRowMerge} {token : ConflictCell}

def ChangedDifferently (row : ConflictRow) (col : Column) : Prop :=
  row.our col ≠ row.base col ∧ row.their col ≠ row.base col ∧ row.our col ≠ row.their col

/-- The side with the later time has given all four columns of the close group. -/
def GroupFromLater (row : ConflictRow) (cells : Column → ConflictCell) : Prop :=
  (row.Later .our .their ∧ ∀ col ∈ issuesCloseGroup, cells col = row.our col) ∨
    (row.Later .their .our ∧ ∀ col ∈ issuesCloseGroup, cells col = row.their col)

theorem verdict_eq_contested (listed : col ∈ row.columns) : row.verdict col = .contested ↔ row.ChangedDifferently col := by
  rw [verdict_of_mem listed, ChangedDifferently]
  split_ifs with same kept ours
  · exact iff_of_false nofun fun changed => changed.2.2 same
  · exact iff_of_false nofun fun changed => changed.2.1 kept
  · exact iff_of_false nofun fun changed => changed.1 ours
  · exact iff_of_true rfl ⟨ours, kept, same⟩

theorem verdict_eq_theirsOnly (listed : col ∈ row.columns) :
    row.verdict col = .theirsOnly ↔ row.our col = row.base col ∧ row.their col ≠ row.base col := by
  rw [verdict_of_mem listed]
  split_ifs with same kept ours
  · exact iff_of_false nofun fun changed => changed.2 (same ▸ changed.1)
  · exact iff_of_false nofun fun changed => changed.2 kept
  · exact iff_of_true rfl ⟨ours, kept⟩
  · exact iff_of_false nofun fun changed => ours changed.1

theorem apart_of_group (grouped : col ∈ issuesCloseGroup) : col ≠ "row_lock" ∧ col ≠ "updated_at" :=
  ⟨ne_of_mem_of_not_mem grouped (by decide), ne_of_mem_of_not_mem grouped (by decide)⟩

theorem closeGroupContested_iff (listed : ∀ col ∈ issuesCloseGroup, col ∈ row.columns) :
    row.closeGroupContested = true ↔ ∃ col ∈ issuesCloseGroup, row.ChangedDifferently col := by
  rw [closeGroupContested, List.any_eq_true]
  refine exists_congr fun col => and_congr_right fun grouped => ?_
  rw [beq_iff_eq, verdict_eq_contested (listed col grouped)]

theorem takes_group (contested : row.closeGroupContested = true) (grouped : col ∈ issuesCloseGroup)
    (differs : row.verdict col ≠ .agree) : row.takes parseText col = row.theirsWinLWW parseText := by
  have timed : row.byTimestamp col = true := by simp [byTimestamp, contested, grouped, differs]
  rw [takes, if_pos timed]

section

variable (free : ¬(row.closeGroupContested = true ∧ col ∈ issuesCloseGroup))
include free

theorem takes_free (uncontested : row.verdict col ≠ .contested) :
    row.takes parseText col = (row.verdict col == .theirsOnly) := by
  have group : (row.closeGroupContested && issuesCloseGroup.contains col) = false := by
    simpa using free
  have untimed : row.byTimestamp col = false := by
    rw [byTimestamp, group, beq_eq_false_iff_ne.mpr uncontested, Bool.or_false, Bool.and_false]
  rw [takes, untimed, if_neg Bool.false_ne_true]

theorem takes_theirsOnly (verdict : row.verdict col = .theirsOnly) : row.takes parseText col = true := by
  rw [takes_free free (by rw [verdict]; nofun), verdict, beq_self_eq_true]

end

theorem differs_of_takes (listed : col ∈ row.columns) (taken : row.takes parseText col = true) :
    row.their col ≠ row.our col := by
  intro same
  have agree : row.verdict col = .agree := by rw [verdict_of_mem listed, if_pos same.symm]
  simp [takes, byTimestamp, agree] at taken

/-- Their one edit that we would take is the time of the row, which they have moved to one that is
not later than ours. -/
def OnlyRewound (row : ConflictRow) : Prop :=
  (row.our "updated_at" = row.base "updated_at" ∧ row.their "updated_at" ≠ row.base "updated_at") ∧
    row.our "updated_at" = row.laterUpdatedAt ∧
    ∀ col ∈ row.mergedColumns, col ≠ "updated_at" → row.our col = row.base col →
      row.their col ≠ row.base col → row.closeGroupContested = true ∧ col ∈ issuesCloseGroup

theorem mem_mergedColumns_updatedAt : "updated_at" ∈ row.mergedColumns :=
  mem_mergedColumns.mpr ⟨row.hasUpdatedAt, by decide, by decide⟩

theorem takes_updatedAt_of_theirsOnly (changed : row.our "updated_at" = row.base "updated_at" ∧
    row.their "updated_at" ≠ row.base "updated_at") : row.takes parseText "updated_at" = true :=
  takes_theirsOnly (fun both => absurd both.2 (by decide)) ((verdict_eq_theirsOnly row.hasUpdatedAt).mpr changed)

section

variable (merged : row.mergeIssuesConflictRow parseText token = some merge)
include merged

theorem settled_of_merged :
    row.settles parseText = true ∧ merge = row.stamp parseText token (row.plan parseText) := by
  rw [mergeIssuesConflictRow_eq] at merged
  split at merged
  · rename_i settles
    exact ⟨settles, (Option.some.inj merged).symm⟩
  · cases merged

theorem settled_cell (unlocked : col ≠ "row_lock") (undated : col ≠ "updated_at") : row.settled merge col =
      if col ∈ row.mergedColumns ∧ row.takes parseText col = true then row.their col else row.our col := by
  rw [(settled_of_merged merged).2, settled_stamp token unlocked, if_neg undated]

theorem settled_group (contested : row.closeGroupContested = true)
    (listed : ∀ col ∈ issuesCloseGroup, col ∈ row.columns) : row.GroupFromLater (row.settled merge) := by
  obtain ⟨member, grouped, verdict⟩ := List.any_eq_true.mp contested
  have verdict : row.verdict member = .contested := beq_iff_eq.mp verdict
  have timed : row.byTimestamp member = true := by simp [byTimestamp, verdict]
  have usable := lwwUsable_of_settles (settled_of_merged merged).1
    (mem_mergedColumns_of_group grouped (listed member grouped)) timed
  have cells : ∀ col ∈ issuesCloseGroup, row.settled merge col =
      if row.theirsWinLWW parseText = true then row.their col else row.our col := by
    intro col grouped
    obtain ⟨unlocked, undated⟩ := apart_of_group grouped
    rw [settled_cell merged unlocked undated]
    by_cases agree : row.verdict col = .agree
    · rw [verdict_eq_agree (listed col grouped) agree, ite_self, ite_self]
    · rw [takes_group contested grouped agree]
      simp [mem_mergedColumns_of_group grouped (listed col grouped)]
  cases wins : row.theirsWinLWW parseText with
  | true => exact .inr ⟨theirsWinLWW_iff.mp wins, fun col grouped => by rw [cells col grouped, if_pos wins]⟩
  | false =>
    have ours : row.Later .our .their := (lwwUsable_iff.mp usable).resolve_right fun theirs =>
      Bool.false_ne_true (wins.symm.trans (theirsWinLWW_iff.mpr theirs))
    exact .inl ⟨ours, fun col grouped => by rw [cells col grouped, wins, if_neg Bool.false_ne_true]⟩

/-- An edit of one side stands, unless the column goes with a contested close group. -/
theorem settled_edit (listed : col ∈ row.columns)
    (unlocked : col ≠ "row_lock") (undated : col ≠ "updated_at")
    (free : ¬(row.closeGroupContested = true ∧ col ∈ issuesCloseGroup)) :
    (row.their col = row.base col → row.settled merge col = row.our col) ∧
      (row.our col = row.base col → row.settled merge col = row.their col) := by
  rw [settled_cell merged unlocked undated]
  by_cases same : row.our col = row.their col
  · rw [same, ite_self]
    exact ⟨fun _ => rfl, fun _ => rfl⟩
  constructor
  · intro kept
    have verdict : row.verdict col = .oursOnly := by rw [verdict_of_mem listed, if_neg same, if_pos kept]
    rw [takes_free free (by rw [verdict]; nofun), verdict, if_neg fun taken => absurd taken.2 nofun]
  · intro kept
    have verdict : row.verdict col = .theirsOnly :=
      (verdict_eq_theirsOnly listed).mpr ⟨kept, fun back => same (kept.trans back.symm)⟩
    have data : col ∈ row.mergedColumns := by
      refine mem_mergedColumns.mpr ⟨listed, fun key => same ?_, unlocked⟩
      rw [key]
      exact key_exchanged (Bool.and_eq_true_iff.mp (Bool.and_eq_true_iff.mp (settled_of_merged merged).1).1).1
    rw [if_pos ⟨data, takes_theirsOnly free verdict⟩]

theorem settled_coherent
    (listed : ∀ col ∈ issuesCloseGroup, col ∈ row.columns) (base : CloseCoherent row.base) (our : CloseCoherent row.our)
    (their : CloseCoherent row.their) : CloseCoherent (row.settled merge) := by
  by_cases contested : row.closeGroupContested = true
  · have status : "status" ∈ issuesCloseGroup := by decide
    have closedAt : "closed_at" ∈ issuesCloseGroup := by decide
    obtain ⟨_, cells⟩ | ⟨_, cells⟩ := settled_group merged contested listed
    · rw [CloseCoherent, cells _ status, cells _ closedAt]
      exact our
    · rw [CloseCoherent, cells _ status, cells _ closedAt]
      exact their
  · have edit : ∀ col ∈ issuesCloseGroup, (row.their col = row.base col ∧ row.settled merge col = row.our col) ∨
        (row.our col = row.base col ∧ row.settled merge col = row.their col) ∨
        (row.our col = row.their col ∧ row.settled merge col = row.our col) := by
      intro col grouped
      obtain ⟨unlocked, undated⟩ := apart_of_group grouped
      obtain ⟨ours, theirs⟩ := settled_edit merged (listed col grouped) unlocked undated fun both => contested both.1
      by_cases same : row.our col = row.their col
      · refine .inr (.inr ⟨same, ?_⟩)
        rw [settled_cell merged unlocked undated, same, ite_self]
      · by_cases kept : row.their col = row.base col
        · exact .inl ⟨kept, ours kept⟩
        · by_cases back : row.our col = row.base col
          · exact .inr (.inl ⟨back, theirs back⟩)
          · exact absurd ((closeGroupContested_iff listed).mpr ⟨col, grouped, back, kept, same⟩) contested
    unfold CloseCoherent at base our their ⊢
    obtain ⟨first, status⟩ | ⟨first, status⟩ | ⟨first, status⟩ := edit "status" (by decide) <;>
      obtain ⟨second, closedAt⟩ | ⟨second, closedAt⟩ | ⟨second, closedAt⟩ := edit "closed_at" (by decide) <;>
      rw [status, closedAt] <;> simp only [first, second] at * <;> tauto

theorem settled_row_lock (locked : "row_lock" ∈ row.columns) :
    row.settled merge "row_lock" = if row.takesAny parseText then token else row.our "row_lock" := by
  have unmerged : "row_lock" ∉ row.mergedColumns := fun listed => (mem_mergedColumns.mp listed).2.2 rfl
  rw [(settled_of_merged merged).2, settled, stamp, isEmpty_plan]
  cases row.takesAny parseText with
  | false => simp [lookup_plan, unmerged]
  | true => simp [value, locked, IssuesRowMerge.lookup_setColumn]

/-- A plan that takes something changes a cell of our row other than the token, unless the time
alone was rewound. -/
theorem settled_differs (forward : ¬row.OnlyRewound) (writes : row.takesAny parseText = true) :
    ∃ col ∈ row.columns, col ≠ "row_lock" ∧ row.settled merge col ≠ row.our col := by
  by_cases other : ∃ col ∈ row.mergedColumns, col ≠ "updated_at" ∧ row.takes parseText col = true
  · obtain ⟨col, data, undated, taken⟩ := other
    obtain ⟨listed, _, unlocked⟩ := mem_mergedColumns.mp data
    refine ⟨col, listed, unlocked, ?_⟩
    rw [settled_cell merged unlocked undated, if_pos ⟨data, taken⟩]
    exact differs_of_takes listed taken
  · obtain ⟨taken, data, here⟩ := List.any_eq_true.mp writes
    have dated : taken = "updated_at" := by
      by_contra undated
      exact other ⟨taken, data, undated, here⟩
    subst dated
    refine ⟨"updated_at", row.hasUpdatedAt, by decide, ?_⟩
    rw [(settled_of_merged merged).2, settled_stamp token (by decide), if_pos rfl, if_pos writes]
    intro same
    by_cases timed : row.byTimestamp "updated_at" = true
    · rw [takes, if_pos timed] at here
      have later := (theirsWinLWW_iff.mp here).eq_laterUpdatedAt
      exact differs_of_takes row.hasUpdatedAt (by rw [takes, if_pos timed]; exact here) (later.trans same)
    · have changed := here
      rw [takes, if_neg timed, beq_iff_eq, verdict_eq_theirsOnly row.hasUpdatedAt] at changed
      refine forward ⟨changed, same.symm, fun col data undated kept edited => ?_⟩
      by_contra free
      have listed := (mem_mergedColumns.mp data).1
      exact other ⟨col, data, undated, takes_theirsOnly free ((verdict_eq_theirsOnly listed).mpr ⟨kept, edited⟩)⟩

end

/-- A settled row is as coherently closed as its three sides were, and a close group that both sides
have changed comes from the later side as a whole; where neither is later the row is left to the
operator. -/
theorem mergeIssuesConflictRow_close (row : ConflictRow) (parseText : String → Option Int) (token : ConflictCell)
    (listed : ∀ col ∈ issuesCloseGroup, col ∈ row.columns) (base : CloseCoherent row.base)
    (our : CloseCoherent row.our) (their : CloseCoherent row.their) :
    (∀ merge, row.mergeIssuesConflictRow parseText token = some merge →
    CloseCoherent (row.settled merge)) ∧ ((∃ col ∈ issuesCloseGroup, row.ChangedDifferently col) →
      (∀ merge, row.mergeIssuesConflictRow parseText token = some merge → row.GroupFromLater (row.settled merge)) ∧
      (¬row.Later .our .their ∧ ¬row.Later .their .our → row.mergeIssuesConflictRow parseText token = none)) := by
  refine ⟨fun merge merged => settled_coherent merged listed base our their, fun changed => ?_⟩
  have contested := (closeGroupContested_iff listed).mpr changed
  have later : ∀ merge, row.mergeIssuesConflictRow parseText token = some merge → row.GroupFromLater (row.settled merge) :=
    fun merge merged => settled_group merged contested listed
  refine ⟨later, fun neither => Option.eq_none_iff_forall_ne_some.mpr fun merge merged => ?_⟩
  obtain ⟨ours, _⟩ | ⟨theirs, _⟩ := later merge merged
  · exact neither.1 ours
  · exact neither.2 theirs

/-- We close the issue while the other side starts on it, four seconds later. -/
def closedAndStarted : ConflictRow where
  columns := ["id", "status", "closed_at", "close_reason", "closed_by_session", "updated_at", "row_lock"]
  base
    | "id" => .text "bd-a" | "status" => .text "open" | "closed_at" => .null | "close_reason" => .text ""
    | "closed_by_session" => .text "" | "updated_at" => .time 90 | "row_lock" => .number 1 | _ => .null
  our
    | "id" => .text "bd-a" | "status" => .text "closed" | "closed_at" => .time 100 | "close_reason" => .text "done"
    | "closed_by_session" => .text "s1" | "updated_at" => .time 100 | "row_lock" => .number 2 | _ => .null
  their
    | "id" => .text "bd-a" | "status" => .text "in_progress" | "closed_at" => .null | "close_reason" => .text ""
    | "closed_by_session" => .text "" | "updated_at" => .time 104 | "row_lock" => .number 3 | _ => .null
  ourDated := .inr ⟨100, rfl⟩
  theirDated := .inr ⟨104, rfl⟩

theorem closedAndStarted_settled : closedAndStarted.ChangedDifferently "status" ∧
    ∃ merge, closedAndStarted.mergeIssuesConflictRow (fun _ => none) (.number 4) = some merge ∧
      CloseCoherent (closedAndStarted.settled merge) ∧ closedAndStarted.GroupFromLater (closedAndStarted.settled merge) := by
  have coherent : ∀ side, CloseCoherent (closedAndStarted.side side) := by
    intro side
    cases side <;> unfold CloseCoherent <;> decide
  have rules := mergeIssuesConflictRow_close closedAndStarted (fun _ => none) (.number 4) (by decide)
    (coherent .base) (coherent .our) (coherent .their)
  have changed : closedAndStarted.ChangedDifferently "status" := by unfold ChangedDifferently; decide
  exact ⟨changed, _, rfl, rules.1 _ rfl, (rules.2 ⟨"status", by decide, changed⟩).1 _ rfl⟩

theorem OnlyRewound.settled_our (rewound : row.OnlyRewound) (merged : row.mergeIssuesConflictRow parseText token = some merge)
    (listed : col ∈ row.columns) (unlocked : col ≠ "row_lock") : row.settled merge col = row.our col := by
  by_cases dated : col = "updated_at"
  · rw [(settled_of_merged merged).2, settled_stamp token unlocked, if_pos dated, dated]
    split
    · exact rewound.2.1.symm
    · rfl
  · rw [settled_cell merged unlocked dated, if_neg]
    rintro ⟨data, taken⟩
    have lost : row.theirsWinLWW parseText ≠ true := by
      intro wins
      have same := (theirsWinLWW_iff.mp wins).eq_laterUpdatedAt.trans rewound.2.1.symm
      exact rewound.1.2 (same.trans rewound.1.1)
    by_cases timed : row.byTimestamp col = true
    · rw [takes, if_pos timed] at taken
      exact lost taken
    · rw [takes, if_neg timed, beq_iff_eq, verdict_eq_theirsOnly listed] at taken
      obtain ⟨contested, grouped⟩ := rewound.2.2 col data dated taken.1 taken.2
      have verdict : row.verdict col = .theirsOnly := (verdict_eq_theirsOnly listed).mpr taken
      exact timed (by simp [byTimestamp, contested, grouped, verdict])

/-- The rules for single cells and for the token of a settled row. -/
structure KeepsEdits (row : ConflictRow) (cells : Column → ConflictCell) : Prop where
  ours : ∀ col ∈ row.columns, col ≠ "updated_at" → col ≠ "row_lock" → row.our col ≠ row.base col →
    row.their col = row.base col →
    ¬((∃ member ∈ issuesCloseGroup, row.ChangedDifferently member) ∧ col ∈ issuesCloseGroup) → cells col = row.our col
  theirs : ∀ col ∈ row.columns, col ≠ "updated_at" → col ≠ "row_lock" →
    row.their col ≠ row.base col → row.our col = row.base col →
    ¬((∃ member ∈ issuesCloseGroup, row.ChangedDifferently member) ∧ col ∈ issuesCloseGroup) → cells col = row.their col
  nonScalar : ∀ col ∈ issuesNonScalarColumns, col ∈ row.columns → ¬row.ChangedDifferently col
  reminted : (∃ col ∈ row.columns, col ≠ "row_lock" ∧ cells col ≠ row.our col) →
    cells "row_lock" ≠ row.our "row_lock" ∧ cells "row_lock" ≠ row.their "row_lock"
  kept : (∀ col ∈ row.columns, col ≠ "row_lock" → cells col = row.our col) → cells "row_lock" = row.our "row_lock"

/-- A settled row keeps every edit of one side, and has a new token exactly if it is not our row,
unless all that would have been taken was a rewound time: then our row stands, under a token of its
own. -/
theorem mergeIssuesConflictRow_keepsEdits_iff (row : ConflictRow) (parseText : String → Option Int) (draws : List Int)
    (token : ConflictCell) (merge : IssuesRowMerge) (columns : ∀ col ∈ "row_lock" :: issuesCloseGroup, col ∈ row.columns)
    (drawn : freshRowLockDistinctFrom (row.our "row_lock") (row.their "row_lock") draws =
    some token) (merged : row.mergeIssuesConflictRow parseText token = some merge) :
    row.KeepsEdits (row.settled merge) ↔ ¬row.OnlyRewound := by
  obtain ⟨fromOurs, fromTheirs⟩ := freshRowLockDistinctFrom_distinct drawn
  have grouped : ∀ col ∈ issuesCloseGroup, col ∈ row.columns := fun col member => columns col (.tail _ member)
  have lock := settled_row_lock merged (columns _ (.head _))
  constructor
  · intro keeps rewound
    have writes : row.takesAny parseText = true :=
      List.any_eq_true.mpr ⟨_, mem_mergedColumns_updatedAt, takes_updatedAt_of_theirsOnly rewound.1⟩
    rw [if_pos writes] at lock
    refine fromOurs (lock.symm.trans (keeps.kept fun col listed unlocked => ?_))
    exact rewound.settled_our merged listed unlocked
  · intro forward
    refine ⟨fun col listed undated unlocked _ kept free => ?_, fun col listed undated unlocked _ kept free => ?_, ?_, ?_, ?_⟩
    · rw [← closeGroupContested_iff grouped] at free
      exact (settled_edit merged listed unlocked undated free).1 kept
    · rw [← closeGroupContested_iff grouped] at free
      exact (settled_edit merged listed unlocked undated free).2 kept
    · intro col part listed changed
      have parts := (Bool.and_eq_true_iff.mp (Bool.and_eq_true_iff.mp (settled_of_merged merged).1).1).2
      rw [Bool.not_eq_true', List.any_eq_false] at parts
      have data : col ∈ row.mergedColumns :=
        mem_mergedColumns.mpr ⟨listed, ne_of_mem_of_not_mem part (by decide), ne_of_mem_of_not_mem part (by decide)⟩
      exact parts col data (by simp [(verdict_eq_contested listed).mpr changed, part])
    · rintro ⟨col, listed, unlocked, differs⟩
      have writes : row.takesAny parseText = true := by
        by_contra idle
        refine differs ?_
        rw [(settled_of_merged merged).2, settled_stamp token unlocked, if_neg idle]
        split
        · rename_i dated
          rw [dated]
        · rw [if_neg fun taken => idle (List.any_eq_true.mpr ⟨col, taken⟩)]
      rw [lock, if_pos writes]
      exact ⟨fromOurs, fromTheirs⟩
    · intro same
      cases writes : row.takesAny parseText with
      | false => rw [lock, writes, if_neg Bool.false_ne_true]
      | true =>
        obtain ⟨col, listed, unlocked, differs⟩ := settled_differs merged forward writes
        exact absurd (same col listed unlocked) differs

theorem closedAndStarted_keepsEdits : ∃ merge,
    closedAndStarted.mergeIssuesConflictRow (fun _ => none) (.number 4) = some merge ∧
    closedAndStarted.KeepsEdits (closedAndStarted.settled merge) := by
  have rule := mergeIssuesConflictRow_keepsEdits_iff closedAndStarted (fun _ => none) [2, 4] (.number 4) _ (by decide) rfl rfl
  exact ⟨_, rfl, rule.mpr fun rewound => absurd rewound.2.1 (by decide)⟩

/-- We retitle the issue in the second of its last write; the other clone imports a snapshot with an
older time. -/
def importedOlder : ConflictRow where
  columns := ["id", "title", "status", "closed_at", "close_reason", "closed_by_session", "updated_at", "row_lock"]
  base
    | "id" => .text "bd-a" | "title" => .text "draft" | "status" => .text "open" | "closed_at" =>
      .null | "close_reason" => .text ""
    | "closed_by_session" => .text "" | "updated_at" => .time 100 | "row_lock" => .number 1 | _ => .null
  our
    | "id" => .text "bd-a" | "title" => .text "final" | "status" => .text "open" | "closed_at" =>
      .null | "close_reason" => .text ""
    | "closed_by_session" => .text "" | "updated_at" => .time 100 | "row_lock" => .number 2 | _ => .null
  their
    | "id" => .text "bd-a" | "title" => .text "draft" | "status" => .text "open" | "closed_at" =>
      .null | "close_reason" => .text ""
    | "closed_by_session" => .text "" | "updated_at" => .time 95 | "row_lock" => .number 3 | _ => .null
  ourDated := .inr ⟨100, rfl⟩
  theirDated := .inr ⟨95, rfl⟩

/-- The settled row is ours in every cell, and yet it gets another token. -/
theorem importedOlder_reminted : importedOlder.Conflicted ∧
    freshRowLockDistinctFrom (importedOlder.our "row_lock") (importedOlder.their "row_lock") [4] = some (.number 4) ∧
    ∃ merge, importedOlder.mergeIssuesConflictRow (fun _ => none) (.number 4) = some merge ∧
      (∀ col ∈ importedOlder.columns, col ≠ "row_lock" → importedOlder.settled merge col = importedOlder.our col) ∧
      importedOlder.settled merge "row_lock" ≠ importedOlder.our "row_lock" :=
  ⟨⟨"row_lock", by decide⟩, rfl, _, rfl, by decide, by decide⟩

end ConflictRow

end Beads
