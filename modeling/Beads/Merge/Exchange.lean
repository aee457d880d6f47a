import Beads.Data.AssocList
import Beads.Merge.Fields

namespace Beads

def CellVerdict.flip : CellVerdict → CellVerdict
  | .oursOnly => .theirsOnly
  | .theirsOnly => .oursOnly
  | verdict => verdict

open List

theorem lookup_replaceF {entries : List (Column × ConflictCell)} {col other : Column}
    {val : ConflictCell} (listed : col ∈ entries.map Prod.fst) :
    (entries.replaceF fun entry => if entry.1 == col then some (col, val) else none).lookup other =
      if other = col then some val else entries.lookup other := by
  induction entries with
  | nil => cases listed
  | cons entry rest ih =>
    obtain ⟨name, value⟩ := entry
    by_cases here : name = col
    · subst here
      have replaced : (if (name, value).1 == name then some (name, val) else none) = some (name, val) := by simp
      rw [replaceF_cons_of_some _ replaced, lookup_cons, lookup_cons]
      by_cases asked : other = name
      · simp [asked]
      · simp [asked, beq_eq_false_iff_ne.mpr asked]
    · have later : col ∈ rest.map Prod.fst := by
        simpa [Ne.symm here] using listed
      rw [replaceF_cons_of_none _ (by simp [here]), lookup_cons, lookup_cons, ih later]
      by_cases asked : other = name
      · simp [asked, here]
      · simp [beq_eq_false_iff_ne.mpr asked]

theorem IssuesRowMerge.lookup_setColumn (merge : IssuesRowMerge) (col other : Column) (val : ConflictCell) :
    (merge.setColumn col val).columns.lookup other = if other = col then some val else merge.columns.lookup other := by
  simp only [setColumn]
  split
  · rename_i listed
    exact lookup_replaceF (by simpa [any_eq_true] using listed)
  · rename_i missing
    rw [lookup_append]
    by_cases asked : other = col
    · subst asked
      have absent : merge.columns.lookup other = none := by
        refine lookup_eq_none_iff.mpr fun entry member => ?_
        refine bne_iff_ne.mpr fun same => missing (any_eq_true.mpr ⟨entry, member, ?_⟩)
        exact beq_iff_eq.mpr same.symm
      rw [absent, if_pos rfl, Option.none_or, lookup_cons, beq_self_eq_true]
    · rw [lookup_cons, beq_eq_false_iff_ne.mpr asked, lookup_nil, Option.or_none, if_neg asked]

namespace ConflictRow

variable (row : ConflictRow) (parseText : String → Option Int)

def exchanged : ConflictRow where
  columns := row.columns
  base := row.base
  our := row.their
  their := row.our
  distinct := row.distinct
  hasUpdatedAt := row.hasUpdatedAt
  sameKey our their := (row.sameKey their our).symm
  ourDated := row.theirDated
  theirDated := row.ourDated

def byTimestamp (col : Column) : Bool :=
  row.verdict col != .agree && (row.closeGroupContested && issuesCloseGroup.contains col || row.verdict col == .contested)

def takes (col : Column) : Bool :=
  if row.byTimestamp col then row.theirsWinLWW parseText else row.verdict col == .theirsOnly

def settles : Bool :=
  row.sidesPresent &&
    !(row.mergedColumns.any fun col => row.verdict col == .contested && issuesNonScalarColumns.contains col) &&
    row.mergedColumns.all fun col => row.lwwUsable parseText || !row.byTimestamp col

variable {row parseText} {col : Column}

def takesAny (row : ConflictRow) (parseText : String → Option Int) : Bool :=
  row.mergedColumns.any (row.takes parseText)

theorem mem_mergedColumns : col ∈ row.mergedColumns ↔ col ∈ row.columns ∧ col ≠ issuesKeyColumn ∧ col ≠ "row_lock" := by
  simp [mergedColumns, dataColumns]

theorem mem_mergedColumns_of_group (grouped : col ∈ issuesCloseGroup) (listed : col ∈ row.columns) : col ∈ row.mergedColumns :=
  mem_mergedColumns.mpr ⟨listed, ne_of_mem_of_not_mem grouped (by decide), ne_of_mem_of_not_mem grouped (by decide)⟩

section

variable (listed : col ∈ row.columns)
include listed

theorem classifyCell_of_mem :
    row.classifyCell col = some (if row.our col = row.their col then .agree else if row.their col = row.base col then .oursOnly
      else if row.our col = row.base col then .theirsOnly else .contested, row.their col) := by
  simp only [classifyCell, value, listed, if_true, side, Option.bind_eq_bind, Option.bind_some]
  split <;> rfl

theorem verdict_of_mem :
    row.verdict col = if row.our col = row.their col then .agree else if row.their col = row.base col then .oursOnly
      else if row.our col = row.base col then .theirsOnly else .contested := by
  rw [verdict, classifyCell_of_mem listed]
  rfl

theorem verdict_eq_agree (agree : row.verdict col = .agree) : row.our col = row.their col := by
  by_contra differs
  rw [verdict_of_mem listed, if_neg differs] at agree
  split_ifs at agree

end

theorem verdict_of_notMem (missing : col ∉ row.columns) : row.verdict col = .agree := by
  simp [verdict, classifyCell, value, missing]

theorem mergeColumn_eq (merge : IssuesRowMerge) :
    row.mergeColumn parseText merge col = if row.lwwUsable parseText || !row.byTimestamp col then
      some ⟨merge.ourKey, merge.columns ++ if row.takes parseText col then [(col, row.their col)]
        else [], merge.lww ++ if row.byTimestamp col then [col] else []⟩ else none := by
  cases verdict : row.verdict col <;> cases group : row.closeGroupContested && issuesCloseGroup.contains col <;>
    cases usable : row.lwwUsable parseText <;> cases wins : row.theirsWinLWW parseText <;>
    simp only [mergeColumn, settleByTimestamp, byTimestamp, takes, IssuesRowMerge.takeTheirs, verdict, group, usable, wins] <;>
    simp

theorem foldlM_mergeColumn (cols : List Column) (merge : IssuesRowMerge) :
    cols.foldlM (row.mergeColumn parseText) merge = if cols.all fun col => row.lwwUsable parseText || !row.byTimestamp col then
      some ⟨merge.ourKey, merge.columns ++ (cols.filter (row.takes parseText)).map fun col =>
        (col, row.their col), merge.lww ++ cols.filter row.byTimestamp⟩ else none := by
  induction cols generalizing merge with
  | nil => simp
  | cons col rest ih =>
    rw [foldlM_cons, mergeColumn_eq]
    cases settled : row.lwwUsable parseText || !row.byTimestamp col with
    | false => simp [settled]
    | true =>
      simp only [if_true, Option.bind_eq_bind, Option.bind_some, ih, all_cons, settled, Bool.true_and]
      cases taken : row.takes parseText col <;> cases timed : row.byTimestamp col <;> simp [taken, timed]

def plan (row : ConflictRow) (parseText : String → Option Int) : IssuesRowMerge :=
  ⟨row.mustValue .our issuesKeyColumn, (row.mergedColumns.filter (row.takes parseText)).map
    fun col => (col, row.their col), row.mergedColumns.filter row.byTimestamp⟩

theorem mergeIssuesConflictRow_eq (token : ConflictCell) : row.mergeIssuesConflictRow parseText token =
    if row.settles parseText then some (row.stamp parseText token (row.plan parseText)) else none := by
  have classified : (row.mergedColumns.any fun col => (row.classifyCell col).isNone) = false := by
    refine any_eq_false.mpr fun col member => ?_
    rw [classifyCell_of_mem (mem_mergedColumns.mp member).1]
    nofun
  rw [mergeIssuesConflictRow, foldlM_mergeColumn, classified, settles]
  generalize row.sidesPresent = present
  generalize (row.mergedColumns.any fun col => row.verdict col == .contested && issuesNonScalarColumns.contains col) = parts
  generalize (row.mergedColumns.all fun col => row.lwwUsable parseText || !row.byTimestamp col) = decided
  cases present <;> cases parts <;> cases decided <;> simp [plan]

theorem lookup_plan (col : Column) : (row.plan parseText).columns.lookup col =
    if col ∈ row.mergedColumns ∧ row.takes parseText col = true then some (row.their col) else none := by
  simp [plan, AssocList.lookup_map_pair]

/-- The later of the two times; NULL is before every time. -/
def laterUpdatedAt (row : ConflictRow) : ConflictCell :=
  match row.our "updated_at", row.their "updated_at" with
  | .time our, .time their => .time (max our their)
  | .null, their => their
  | our, _ => our

theorem mustValue_updatedAt (side : ConflictSide) : row.mustValue side "updated_at" = row.side side "updated_at" := by
  simp [mustValue, value, row.hasUpdatedAt]

theorem mergedUpdatedAt_eq : row.mergedUpdatedAt parseText = row.laterUpdatedAt := by
  simp only [mergedUpdatedAt, updated, mustValue_updatedAt, side, laterUpdatedAt]
  obtain our | ⟨ourTime, our⟩ := row.ourDated <;> obtain their | ⟨theirTime, their⟩ := row.theirDated <;>
    simp only [our, their, parseConflictTimestamp]
  split_ifs with earlier
  · rw [Int.max_eq_right (Int.le_of_lt earlier)]
  · rw [Int.max_eq_left (Int.not_lt.mp earlier)]

theorem isEmpty_plan : (row.plan parseText).columns.isEmpty = !row.takesAny parseText := by
  rw [Bool.eq_iff_iff]
  simp [plan, takesAny]

theorem settled_stamp (token : ConflictCell) (unlocked : col ≠ "row_lock") :
    row.settled (row.stamp parseText token (row.plan parseText)) col =
      if col = "updated_at" then
        if row.takesAny parseText then row.laterUpdatedAt else row.our "updated_at"
      else if col ∈ row.mergedColumns ∧ row.takes parseText col = true then row.their col else row.our col := by
  have lookup : (row.stamp parseText token (row.plan parseText)).columns.lookup col =
      if row.takesAny parseText = true ∧ col = "updated_at" then some row.laterUpdatedAt
      else (row.plan parseText).columns.lookup col := by
    rw [stamp, isEmpty_plan, mergedUpdatedAt_eq]
    cases row.takesAny parseText with
    | false => simp
    | true =>
      simp only [Bool.not_true, Bool.false_eq_true, if_false, true_and]
      split <;> simp [IssuesRowMerge.lookup_setColumn, unlocked]
  rw [settled, lookup, lookup_plan]
  by_cases dated : col = "updated_at"
  · subst dated
    cases writes : row.takesAny parseText with
    | true => simp
    | false =>
      have untaken : ¬("updated_at" ∈ row.mergedColumns ∧ row.takes parseText "updated_at" = true) := fun taken =>
        Bool.false_ne_true (writes.symm.trans (any_eq_true.mpr ⟨_, taken⟩))
      simp [untaken]
  · simp only [dated, and_false, if_false]
    split <;> rfl

theorem verdict_exchanged : row.exchanged.verdict col = (row.verdict col).flip := by
  by_cases listed : col ∈ row.columns
  · have away : col ∈ row.exchanged.columns := listed
    rw [verdict_of_mem listed, verdict_of_mem away]
    simp only [exchanged, eq_comm (a := row.their col) (b := row.our col)]
    by_cases same : row.our col = row.their col
    · simp [same, CellVerdict.flip]
    · by_cases kept : row.their col = row.base col
      · have changed : row.our col ≠ row.base col := fun ours => same (ours.trans kept.symm)
        simp [kept, changed, CellVerdict.flip]
      · by_cases ours : row.our col = row.base col
        · simp [ours, kept, Ne.symm kept, CellVerdict.flip]
        · simp [same, kept, ours, CellVerdict.flip]
  · have away : col ∉ row.exchanged.columns := listed
    rw [verdict_of_notMem listed, verdict_of_notMem away]
    rfl

theorem contested_exchanged : (row.exchanged.verdict col == .contested) = (row.verdict col == .contested) := by
  rw [verdict_exchanged]
  cases row.verdict col <;> rfl

theorem byTimestamp_exchanged : row.exchanged.byTimestamp col = row.byTimestamp col := by
  have group : row.exchanged.closeGroupContested = row.closeGroupContested := by
    simp only [closeGroupContested, contested_exchanged]
  rw [byTimestamp, group, contested_exchanged, verdict_exchanged, byTimestamp]
  cases row.verdict col <;> rfl

def Later (row : ConflictRow) (side other : ConflictSide) : Prop :=
  ∃ late early, row.side side "updated_at" = .time late ∧ row.side other "updated_at" = .time early ∧ early < late

theorem Later.asymm {side other : ConflictSide} (later : row.Later side other) : ¬row.Later other side := by
  obtain ⟨late, early, first, second, order⟩ := later
  rintro ⟨_, _, third, fourth, back⟩
  cases third.symm.trans second
  cases fourth.symm.trans first
  omega

theorem Later.eq_laterUpdatedAt (later : row.Later .their .our) : row.their "updated_at" = row.laterUpdatedAt := by
  obtain ⟨late, early, theirs, ours, order⟩ := later
  have their : row.their "updated_at" = .time late := theirs
  have our : row.our "updated_at" = .time early := ours
  simp only [laterUpdatedAt, their, our, Int.max_eq_right (Int.le_of_lt order)]

theorem theirsWinLWW_iff : row.theirsWinLWW parseText = true ↔ row.Later .their .our := by
  simp only [theirsWinLWW, updated, mustValue_updatedAt, Later, side]
  obtain our | ⟨ourTime, our⟩ := row.ourDated <;> obtain their | ⟨theirTime, their⟩ := row.theirDated <;>
    simp [our, their, parseConflictTimestamp]

theorem lwwUsable_iff : row.lwwUsable parseText = true ↔ row.Later .our .their ∨ row.Later .their .our := by
  simp only [lwwUsable, updated, mustValue_updatedAt, Later, side]
  obtain our | ⟨ourTime, our⟩ := row.ourDated <;> obtain their | ⟨theirTime, their⟩ := row.theirDated <;>
    simp [our, their, parseConflictTimestamp]
  omega

theorem lwwUsable_exchanged : row.exchanged.lwwUsable parseText = row.lwwUsable parseText := by
  rw [Bool.eq_iff_iff, lwwUsable_iff, lwwUsable_iff]
  exact or_comm

theorem theirsWinLWW_exchanged (usable : row.lwwUsable parseText = true) :
    row.exchanged.theirsWinLWW parseText = !row.theirsWinLWW parseText := by
  rw [Bool.eq_iff_iff, Bool.not_eq_true', ← Bool.not_eq_true, theirsWinLWW_iff, theirsWinLWW_iff]
  exact ⟨Later.asymm, (lwwUsable_iff.mp usable).resolve_right⟩

theorem sidesPresent_exchanged : row.exchanged.sidesPresent = row.sidesPresent := by
  simp only [sidesPresent, Bool.and_assoc]
  rw [Bool.and_comm (row.exchanged.sidePresent .our)]
  rfl

theorem settles_exchanged : row.exchanged.settles parseText = row.settles parseText := by
  have columns : row.exchanged.mergedColumns = row.mergedColumns := rfl
  simp only [settles, sidesPresent_exchanged, columns, contested_exchanged, lwwUsable_exchanged, byTimestamp_exchanged]

theorem laterUpdatedAt_exchanged : row.exchanged.laterUpdatedAt = row.laterUpdatedAt := by
  simp only [laterUpdatedAt, exchanged]
  obtain our | ⟨ourTime, our⟩ := row.ourDated <;> obtain their | ⟨theirTime, their⟩ := row.theirDated <;>
    simp only [our, their, Int.max_comm]

theorem lwwUsable_of_settles (settles : row.settles parseText = true) (listed : col ∈ row.mergedColumns)
    (timed : row.byTimestamp col = true) : row.lwwUsable parseText = true := by
  simpa [timed] using all_eq_true.mp (Bool.and_eq_true_iff.mp settles).2 col listed

theorem takes_exchanged (settles : row.settles parseText = true) (listed : col ∈ row.mergedColumns)
    (differs : row.verdict col ≠ .agree) : row.exchanged.takes parseText col = !row.takes parseText col := by
  rw [takes, byTimestamp_exchanged, takes]
  cases timed : row.byTimestamp col with
  | true => simp [theirsWinLWW_exchanged (lwwUsable_of_settles settles listed timed)]
  | false =>
    rw [verdict_exchanged]
    cases verdict : row.verdict col <;> simp_all [byTimestamp, CellVerdict.flip]

/-- They have no edit that we lack, and yet ours is the earlier time: our side has moved it back
from the base's. -/
def Unwound (row : ConflictRow) : Prop :=
  row.our "updated_at" ≠ row.laterUpdatedAt ∧
    ∀ col ∈ row.mergedColumns, row.their col = row.our col ∨ row.their col = row.base col

theorem theirsWinLWW_of_earlier (earlier : row.our "updated_at" ≠ row.laterUpdatedAt)
    (usable : row.lwwUsable parseText = true) : row.theirsWinLWW parseText = true := by
  refine theirsWinLWW_iff.mpr ((lwwUsable_iff.mp usable).resolve_left fun later => earlier ?_)
  -- on the other clone ours is their side
  have ours : row.exchanged.their "updated_at" = row.exchanged.laterUpdatedAt := Later.eq_laterUpdatedAt later
  exact ours.trans laterUpdatedAt_exchanged

theorem verdict_of_edited (listed : col ∈ row.columns)
    (edited : ¬(row.their col = row.our col ∨ row.their col = row.base col)) :
    row.verdict col = .theirsOnly ∨ row.verdict col = .contested := by
  obtain ⟨differs, changed⟩ := not_or.mp edited
  rw [verdict_of_mem listed, if_neg (Ne.symm differs), if_neg changed]
  split
  · exact .inl rfl
  · exact .inr rfl

section

variable (unedited : ∀ col ∈ row.mergedColumns, row.their col = row.our col ∨ row.their col = row.base col)
include unedited

theorem verdict_of_unedited (listed : col ∈ row.mergedColumns) : row.verdict col ≠ .theirsOnly ∧
    row.verdict col ≠ .contested := by
  rw [verdict_of_mem (mem_mergedColumns.mp listed).1]
  cases unedited col listed with
  | inl same => simp [same]
  | inr kept =>
    rw [if_pos kept]
    split <;> simp

theorem byTimestamp_of_unedited (listed : col ∈ row.mergedColumns) : row.byTimestamp col = false := by
  have group : row.closeGroupContested = false := by
    refine any_eq_false.mpr fun member grouped contested => ?_
    have contested : row.verdict member = .contested := beq_iff_eq.mp contested
    have present : member ∈ row.columns := by
      by_contra missing
      exact absurd ((verdict_of_notMem missing).symm.trans contested) nofun
    exact (verdict_of_unedited unedited (mem_mergedColumns_of_group grouped present)).2 contested
  simp [byTimestamp, group, (verdict_of_unedited unedited listed).2]

theorem settles_of_unedited (present : row.sidesPresent = true) : row.settles parseText = true := by
  have parts : (row.mergedColumns.any fun col => row.verdict col == .contested &&
    issuesNonScalarColumns.contains col) = false := by
    refine any_eq_false.mpr fun col listed => ?_
    simp [(verdict_of_unedited unedited listed).2]
  have decided : (row.mergedColumns.all fun col => row.lwwUsable parseText || !row.byTimestamp col) = true := by
    refine all_eq_true.mpr fun col listed => ?_
    rw [byTimestamp_of_unedited unedited listed, Bool.not_false, Bool.or_true]
  rw [settles, present, parts, decided]
  rfl

end

theorem settled_updatedAt_iff (settles : row.settles parseText = true) (token : ConflictCell) :
    row.settled (row.stamp parseText token (row.plan parseText)) "updated_at" = row.laterUpdatedAt ↔ ¬row.Unwound := by
  rw [settled_stamp token (by decide), if_pos rfl]
  cases writes : row.takesAny parseText with
  | true =>
    refine iff_of_true rfl fun unwound => ?_
    obtain ⟨col, listed, taken⟩ := any_eq_true.mp writes
    rw [takes, byTimestamp_of_unedited unwound.2 listed, if_neg Bool.false_ne_true] at taken
    exact (verdict_of_unedited unwound.2 listed).1 (beq_iff_eq.mp taken)
  | false =>
    rw [if_neg Bool.false_ne_true]
    refine ⟨fun later unwound => unwound.1 later, fun wound => ?_⟩
    by_contra earlier
    refine wound ⟨earlier, fun col listed => ?_⟩
    have untaken : row.takes parseText col = false := by simpa using any_eq_false.mp writes col listed
    have untimed : row.byTimestamp col = false := by
      refine eq_false_of_ne_true fun timed => ?_
      rw [takes, if_pos timed, theirsWinLWW_of_earlier earlier (lwwUsable_of_settles settles listed timed)] at untaken
      exact Bool.false_ne_true untaken.symm
    by_contra edited
    obtain theirs | contested := verdict_of_edited (mem_mergedColumns.mp listed).1 edited
    · simp [takes, untimed, theirs] at untaken
    · simp [byTimestamp, contested] at untimed

/-- The two clones settle the row or leave it to the operator together, and settle it alike, at the
later of the two times. -/
def Converges (row : ConflictRow) (parseText : String → Option Int) (ourToken theirToken : ConflictCell) : Prop :=
  match row.mergeIssuesConflictRow parseText ourToken, row.exchanged.mergeIssuesConflictRow parseText theirToken with
  | some ours, some theirs =>
    (∀ col ∈ row.columns, col ≠ "row_lock" → row.settled ours col = row.exchanged.settled theirs col) ∧
      row.settled ours "updated_at" = row.laterUpdatedAt ∧ row.exchanged.settled theirs "updated_at" = row.laterUpdatedAt
  | none, none => True
  | _, _ => False

theorem key_exchanged (present : row.sidesPresent = true) : row.our issuesKeyColumn = row.their issuesKeyColumn := by
  have named : ∀ side, row.sidePresent side = true → row.side side issuesKeyColumn ≠ .null := by
    intro side here
    unfold sidePresent value at here
    split at here
    · exact bne_iff_ne.mp here
    · cases here
  simp only [sidesPresent, Bool.and_eq_true] at present
  exact row.sameKey (named .our present.1.2) (named .their present.2)

theorem settled_exchanged (settles : row.settles parseText = true)
    (ourToken theirToken : ConflictCell) (present : row.sidesPresent = true)
    (listed : col ∈ row.columns) (unlocked : col ≠ "row_lock") (undated : col ≠ "updated_at") :
    row.settled (row.stamp parseText ourToken (row.plan parseText)) col =
      row.exchanged.settled (row.exchanged.stamp parseText theirToken (row.exchanged.plan parseText)) col := by
  rw [settled_stamp ourToken unlocked, settled_stamp theirToken unlocked, if_neg undated, if_neg undated]
  by_cases key : col = issuesKeyColumn
  · have unmerged : col ∉ row.mergedColumns := fun merged => (mem_mergedColumns.mp merged).2.1 key
    have away : col ∉ row.exchanged.mergedColumns := unmerged
    rw [if_neg fun taken => unmerged taken.1, if_neg fun taken => away taken.1, key]
    exact key_exchanged present
  · have merged : col ∈ row.mergedColumns := mem_mergedColumns.mpr ⟨listed, key, unlocked⟩
    have mergedAway : col ∈ row.exchanged.mergedColumns := merged
    by_cases differs : row.verdict col = .agree
    · simp [verdict_eq_agree listed differs, exchanged]
    · simp only [merged, mergedAway, true_and, takes_exchanged settles merged differs]
      cases row.takes parseText col <;> rfl

/-- The clones converge on a row exactly when neither side has moved its time back while the other
had no edit of its own. -/
theorem converges_iff (row : ConflictRow) (parseText : String → Option Int)
    (ourToken theirToken : ConflictCell) (present : row.sidesPresent = true) :
    row.Converges parseText ourToken theirToken ↔ ¬row.Unwound ∧ ¬row.exchanged.Unwound := by
  cases settles : row.settles parseText with
  | false =>
    have both : row.Converges parseText ourToken theirToken := by
      simp [Converges, mergeIssuesConflictRow_eq, settles_exchanged, settles]
    refine iff_of_true both ⟨fun unwound => ?_, fun unwound => ?_⟩
    · exact Bool.false_ne_true (settles.symm.trans (settles_of_unedited unwound.2 present))
    · have away : row.exchanged.settles parseText = true := settles_of_unedited unwound.2 (sidesPresent_exchanged.trans present)
      exact Bool.false_ne_true (settles.symm.trans (settles_exchanged.symm.trans away))
  | true =>
    have away : row.exchanged.settles parseText = true := settles_exchanged.trans settles
    rw [Converges, mergeIssuesConflictRow_eq, mergeIssuesConflictRow_eq, settles, away]
    simp only [if_true]
    have later : row.exchanged.laterUpdatedAt = row.laterUpdatedAt := laterUpdatedAt_exchanged
    rw [settled_updatedAt_iff settles, ← later, settled_updatedAt_iff away]
    refine and_iff_right_of_imp fun wound col listed unlocked => ?_
    by_cases dated : col = "updated_at"
    · rw [dated, (settled_updatedAt_iff settles ourToken).mpr wound.1, (settled_updatedAt_iff away theirToken).mpr wound.2, later]
    · exact settled_exchanged settles ourToken theirToken present listed unlocked dated

/-- One actor claims the issue on both clones. The other clone does so in the second of the base's
last write, ours with a clock that is three seconds behind. -/
def claimedTwice : ConflictRow where
  columns := ["id", "status", "assignee", "updated_at", "row_lock"]
  base
    | "id" => .text "bd-a" | "status" => .text "open" | "assignee" => .null
    | "updated_at" => .time 100 | "row_lock" => .number 1 | _ => .null
  our
    | "id" => .text "bd-a" | "status" => .text "in_progress" | "assignee" => .text "ann"
    | "updated_at" => .time 97 | "row_lock" => .number 2 | _ => .null
  their
    | "id" => .text "bd-a" | "status" => .text "in_progress" | "assignee" => .text "ann"
    | "updated_at" => .time 100 | "row_lock" => .number 3 | _ => .null
  ourDated := .inr ⟨97, rfl⟩
  theirDated := .inr ⟨100, rfl⟩

/-- Both sides have moved some column away from the base, to different values. -/
def Conflicted (row : ConflictRow) : Prop :=
  ∃ col ∈ row.columns, row.our col ≠ row.their col ∧ row.our col ≠ row.base col ∧ row.their col ≠ row.base col

/-- Each clone keeps its own time. -/
theorem claimedTwice_diverges : claimedTwice.Conflicted ∧ claimedTwice.sidesPresent = true ∧
    ¬claimedTwice.Converges (fun _ => none) (.number 4) (.number 5) := by
  refine ⟨⟨"row_lock", by decide⟩, by decide, fun converges => ?_⟩
  have missed : (ConflictCell.time 97) = .time 100 := converges.2.1
  exact absurd missed (by decide)

def claimedLater : ConflictRow :=
  { claimedTwice with our := fun col => if col = "updated_at" then .time 104 else claimedTwice.our col
                      ourDated := .inr ⟨104, rfl⟩ }

theorem claimedLater_converges : claimedLater.Conflicted ∧ claimedLater.Converges (fun _ => none) (.number 4) (.number 5) := by
  refine ⟨⟨"row_lock", by decide⟩, (converges_iff claimedLater _ _ _ (by decide)).mpr ⟨fun unwound => ?_, fun unwound => ?_⟩⟩
  · exact unwound.1 (by decide)
  · exact absurd (unwound.2 "updated_at" (by decide)) (by decide)

end ConflictRow

end Beads
