import Beads.Data.NumberedLog
import Beads.Journal.Events

/-! The journal's tables are a numbered log: a mutation appends, every prune forgets a first part of
it that its floors do not protect, and a read from a number either goes on from there or reports
that the next number was forgotten. -/

namespace Beads

open NumberedLog Journal Log List

structure Journal.Holds (journal : Journal) (log : Log JournalEntry) : Prop where
  rows : journal.rows.entries = log.rows
  head : journal.readEventsHead = log.history.length
  seeded : journal.nextSeq = none → log.history = []
  bounded : (log.history.length : Int) ≤ maxInt64

theorem nextInt64_eq {n : Int} (lower : 0 ≤ n) (upper : n < maxInt64) : nextInt64 n = n + 1 := by
  unfold nextInt64
  unfold maxInt64 at upper
  exact Int.bmod_eq_of_le (by omega) (by omega)

theorem nextInt64_le {n : Int} (lower : 0 ≤ n) (upper : n ≤ maxInt64) : nextInt64 n ≤ n + 1 := by
  unfold maxInt64 at upper
  by_cases last : n = 2 ^ 63 - 1
  · subst last
    decide
  · exact le_of_eq (nextInt64_eq lower (by unfold maxInt64; omega))

/-- Below the bound there is no row that the floors protect. -/
structure Prunable (addDays : Int → Int → Int) (log : Log JournalEntry) (floors : RetentionFloors) (bound : Int) : Prop where
  rows : 0 < floors.retainRows → bound + floors.retainRows ≤ log.history.length + 1
  days : 0 < floors.retainDays → ∀ row ∈ log.rows, row.1 < bound → row.2.ts < eventsPruneCutoff addDays floors

theorem firstEventsSeqGap_numbered (first : Int) (entries : List JournalEntry) (lower : 0 ≤ first)
    (upper : first + entries.length ≤ maxInt64 + 1) : firstEventsSeqGap ((numbered first entries).map scanEventRow) = none := by
  induction entries generalizing first with
  | nil => rfl
  | cons entry rest ih =>
    cases rest with
    | nil => rfl
    | cons other more =>
      rw [length_cons, length_cons] at upper
      have follows : nextInt64 first = first + 1 := nextInt64_eq lower (by omega)
      have later := ih (first + 1) (by omega) (by rw [length_cons]; omega)
      simpa [numbered, firstEventsSeqGap, scanEventRow, follows] using later

theorem limited_numbered (limit first : Int) (entries : List JournalEntry) :
    ∃ kept : List JournalEntry, (if 0 < limit then (numbered first entries).take limit.toNat
      else numbered first entries) = numbered first kept ∧
      kept.length ≤ entries.length ∧ (kept = [] → entries = []) := by
  by_cases on : 0 < limit
  · refine ⟨entries.take limit.toNat, by rw [if_pos on, take_numbered], length_take_le' _ _, fun none => ?_⟩
    exact (take_eq_nil_iff.mp none).resolve_left (by omega)
  · exact ⟨entries, by rw [if_neg on], le_rfl, id⟩

variable {entries : List JournalEntry}

namespace Journal.Holds

variable {addDays : Int → Int → Int} {journal : Journal} {log : Log JournalEntry}
  {floors : RetentionFloors} {before bound limit : Int} {index : Nat}

variable (holds : journal.Holds log)
include holds

theorem ordered : journal.ordered = log.rows := by
  rw [Journal.ordered, holds.rows]
  exact List.Pairwise.insertionSort_eq (log.pairwise_rows.imp fun less => less.le)

theorem number_le {seq : Int} (stored : seq ∈ journal.seqs) : seq ≤ log.history.length := by
  rw [seqs, holds.rows] at stored
  obtain ⟨row, member, same⟩ := mem_map.mp stored
  have upper := lt_of_mem member
  have within := log.within
  rw [length_drop] at upper
  omega

theorem nextEventSeq {seq : Int} {advanced : Journal} (given : journal.nextEventSeq = .ok (seq, advanced)) :
    seq = (log.history.length : Int) + 1 ∧ (log.history.length : Int) < maxInt64 ∧
      advanced = { journal with nextSeq := some seq } := by
  have counted := holds.head
  rw [Journal.readEventsHead] at counted
  cases counter : journal.nextSeq with
  | some next =>
    rw [counter, Option.getD_some] at counted
    by_cases room : next < maxInt64
    · simp only [Journal.nextEventSeq, Journal.advance, counter, room] at given
      cases given
      exact ⟨by simp [counted], by omega, rfl⟩
    · simp only [Journal.nextEventSeq, Journal.advance, counter, room] at given
      cases given
  | none =>
    have empty := holds.seeded counter
    have none : journal.seqs = [] := by
      rw [Journal.seqs, holds.rows, Log.rows, empty, drop_nil]
      rfl
    have healed : journal.healEventSeqCounter = { journal with nextSeq := some 0 } := by
      rw [Journal.healEventSeqCounter, counter, none]
      rfl
    have room : (0 : Int) < maxInt64 := by decide
    simp only [Journal.nextEventSeq, Journal.advance, counter, healed, room] at given
    cases given
    rw [empty]
    exact ⟨rfl, room, rfl⟩

theorem insertEventRow {entry : JournalEntry} {written : Journal}
    (inserted : journal.insertEventRow entry = .ok written) : written.Holds (log.append entry) := by
  obtain ⟨⟨seq, advanced⟩, given, rest⟩ := Fallible.bind_eq_ok inserted
  obtain ⟨number, room, counter⟩ := holds.nextEventSeq given
  have fresh : seq ∉ journal.seqs := fun stored => by
    have upper := holds.number_le stored
    omega
  subst counter
  have accepted : insert { journal with nextSeq := some seq } seq entry =
      .ok { journal with nextSeq := some seq, rows := journal.rows.insert seq entry } := if_neg fresh
  simp only [accepted] at rest
  cases rest
  have appended : (journal.rows.insert seq entry).entries = journal.rows.entries ++ [(seq, entry)] :=
    KeyedTable.entries_insert fresh
  exact
    { rows := by rw [appended, holds.rows, rows_append, number]
      head := by simp [readEventsHead, number]
      seeded := nofun
      bounded := by
        rw [history_append, length_append, length_singleton]
        omega }

theorem inserts {written : Journal} (inserted : entries.foldlM Journal.insertEventRow journal = .ok written) :
    ∃ longer : Log JournalEntry, written.Holds longer ∧ longer.history = log.history ++ entries ∧
      longer.forgotten = log.forgotten := by
  induction entries generalizing journal log with
  | nil =>
    cases inserted
    exact ⟨log, holds, (append_nil _).symm, rfl⟩
  | cons entry rest ih =>
    obtain ⟨middle, first, later⟩ := Fallible.bind_eq_ok inserted
    obtain ⟨longer, held, grown, kept⟩ := ih (holds.insertEventRow first) later
    refine ⟨longer, held, ?_, kept⟩
    rw [grown, history_append, append_assoc, singleton_append]

theorem forget {pruned : Int → Bool} {count : Nat}
    (first : (log.rows.filter fun row => !pruned row.1) = log.rows.drop count) :
    (journal.deleteWhere pruned).Holds (log.forget count) where
  rows := by
    rw [rows_forget, ← first, ← holds.rows]
    rfl
  head := holds.head
  seeded := holds.seeded
  bounded := holds.bounded

theorem deleteBelow :
    (journal.deleteWhere fun seq => decide (seq < bound)).Holds (log.forget (bound - (log.forgotten + 1)).toNat) := by
  refine holds.forget ?_
  rw [Log.rows, ← filter_from]
  refine filter_congr fun row _ => ?_
  rw [← decide_not]
  exact decide_eq_decide.mpr (Int.not_lt)

theorem pruneEventsBatch {pruned : Journal}
    (deleted : journal.pruneEventsBatch bound limit = .ok pruned) :
    ∃ count ≤ (bound - (log.forgotten + 1)).toNat, pruned.Holds (log.forget count) := by
  unfold Journal.pruneEventsBatch at deleted
  split at deleted
  · cases deleted
  · cases deleted
    refine ⟨min limit.toNat (bound - (log.forgotten + 1)).toNat, Nat.min_le_right _ _, holds.forget ?_⟩
    rw [holds.ordered, Log.rows, filter_below, ← map_take, take_take]
    exact filter_not_first _

theorem readRowsCeil {retainRows ceil : Int} (positive : 0 < retainRows)
    (found : journal.readRowsCeil retainRows = some ceil) : 0 ≤ ceil ∧ ceil + retainRows = log.history.length := by
  rw [Journal.readRowsCeil, holds.ordered, getElem?_map] at found
  obtain ⟨row, here, same⟩ := Option.map_eq_some_iff.mp found
  have within : retainRows.toNat < log.rows.length := by
    have inside := (List.getElem?_eq_some_iff.mp here).1
    rwa [length_reverse] at inside
  rw [getElem?_reverse within, Log.rows, getElem?_numbered, length_numbered, length_drop] at here
  obtain ⟨entry, _, number⟩ := Option.map_eq_some_iff.mp here
  rw [Log.length_rows] at within
  rw [← same, ← number]
  constructor <;> simp only <;> omega

theorem readDaysFloor (cutoff : Int) :
    ∀ row ∈ log.rows, (∀ floorSeq, journal.readDaysFloor cutoff = some floorSeq → row.1 < floorSeq) → row.2.ts < cutoff := by
  intro row member below
  by_contra young
  have listed : row.1 ∈ (journal.rows.entries.filter fun row => decide (cutoff ≤ row.2.ts)).map Prod.fst := by
    refine mem_map_of_mem (mem_filter.mpr ⟨?_, decide_eq_true (by omega)⟩)
    rw [holds.rows]
    exact member
  cases least : journal.readDaysFloor cutoff with
  | none =>
    rw [Journal.readDaysFloor, min?_eq_none_iff] at least
    rw [least] at listed
    cases listed
  | some floorSeq =>
    have smallest := (min?_eq_some_iff.mp least).2 row.1 listed
    have strict := below floorSeq least
    omega

theorem retainRowsBound
    (resolved : Beads.retainRowsBound before floors (journal.readRowsCeil floors.retainRows) = some bound) :
    bound ≤ before ∧ (0 < floors.retainRows → bound + floors.retainRows ≤ log.history.length + 1) := by
  unfold Beads.retainRowsBound at resolved
  split at resolved
  · rename_i on
    obtain ⟨ceil, found, same⟩ := Option.map_eq_some_iff.mp resolved
    obtain ⟨lower, last⟩ := holds.readRowsCeil on found
    have bounded := holds.bounded
    rw [nextInt64_eq lower (by omega)] at same
    split at same <;> exact ⟨by omega, fun _ => by omega⟩
  · rename_i off
    cases resolved
    exact ⟨le_rfl, fun on => absurd on off⟩

theorem retainDaysBound (addDays : Int → Int → Int) (floors : RetentionFloors) (capped : Int) :
    Beads.retainDaysBound addDays capped floors journal.readDaysFloor ≤ capped ∧
      (0 < floors.retainDays → ∀ row ∈ log.rows, row.1 < Beads.retainDaysBound addDays capped floors journal.readDaysFloor →
        row.2.ts < eventsPruneCutoff addDays floors) := by
  unfold Beads.retainDaysBound
  by_cases on : 0 < floors.retainDays
  · rw [if_pos on]
    have aged := holds.readDaysFloor (eventsPruneCutoff addDays floors)
    cases found : journal.readDaysFloor (eventsPruneCutoff addDays floors) with
    | none => exact ⟨le_rfl, fun _ row member _ => aged row member fun floorSeq same => nomatch found.symm.trans same⟩
    | some floorSeq =>
      refine ⟨by simp only; split <;> omega, fun _ row member below => aged row member fun other same => ?_⟩
      cases found.symm.trans same
      simp only at below
      split at below <;> omega
  · rw [if_neg on]
    exact ⟨le_rfl, fun positive => absurd positive on⟩

theorem pruneBound (resolved : journal.pruneBound addDays before floors = some bound) :
    Prunable addDays log floors bound ∧ bound ≤ before := by
  obtain ⟨capped, rowsFloor, rest⟩ := Option.bind_eq_some_iff.mp resolved
  obtain ⟨_, same⟩ := Option.ite_none_left_eq_some.mp rest
  obtain ⟨narrow, kept⟩ := holds.retainRowsBound rowsFloor
  have aged := holds.retainDaysBound addDays floors capped
  rw [Option.some.inj same] at aged
  refine ⟨⟨fun on => ?_, aged.2⟩, aged.1.trans narrow⟩
  have newest := kept on
  have lower := aged.1
  omega

theorem mem_seqs : (index : Int) + 1 ∈ journal.seqs ↔ log.forgotten ≤ index ∧ index < log.history.length := by
  rw [seqs, holds.rows, mem_map]
  constructor
  · intro ⟨row, member, same⟩
    obtain ⟨place, retained, found, number⟩ := mem_rows.mp member
    obtain ⟨within, _⟩ := List.getElem?_eq_some_iff.mp found
    omega
  · intro ⟨retained, within⟩
    exact ⟨(index + 1, log.history[index]), mem_rows.mpr ⟨index, retained, getElem?_eq_getElem within, rfl⟩, rfl⟩

theorem readEventsRows (index : Nat) (limit : Int) : journal.readEventsRows index limit =
    (if 0 < limit then (numbered ((max index log.forgotten : Nat) + 1)
        (log.history.drop (max index log.forgotten))).take limit.toNat
      else numbered ((max index log.forgotten : Nat) + 1) (log.history.drop (max index log.forgotten))).map scanEventRow := by
  have after : (log.rows.filter fun row => decide ((index : Int) < row.1)) =
      numbered ((max index log.forgotten : Nat) + 1) (log.history.drop (max index log.forgotten)) := by
    have skipped : ((index : Int) + 1 - (log.forgotten + 1)).toNat = max index log.forgotten - log.forgotten := by omega
    have number : (log.forgotten : Int) + 1 + ((max index log.forgotten - log.forgotten : Nat) : Int) =
        (max index log.forgotten : Nat) + 1 := by omega
    have place : log.forgotten + (max index log.forgotten - log.forgotten) = max index log.forgotten := by omega
    have from_next : (log.rows.filter fun row => decide ((index : Int) < row.1)) =
        log.rows.filter fun row => decide ((index : Int) + 1 ≤ row.1) :=
      filter_congr fun row _ => decide_eq_decide.mpr Int.lt_iff_add_one_le
    rw [from_next, Log.rows, filter_from, drop_numbered, drop_drop, skipped, number, place]
  rw [Journal.readEventsRows, holds.ordered, after]

theorem readEvents_retained (retained : log.forgotten ≤ index) :
    journal.readEvents index limit = .ok ((if 0 < limit then
      (numbered ((index : Int) + 1) (log.history.drop index)).take limit.toNat
      else numbered ((index : Int) + 1) (log.history.drop index)).map scanEventRow) := by
  have rows := holds.readEventsRows index limit
  rw [max_eq_left retained] at rows
  obtain ⟨kept, same, shorter, whole⟩ := limited_numbered limit ((index : Int) + 1) (log.history.drop index)
  rw [length_drop] at shorter
  have bounded := holds.bounded
  have passed : computeEventsTruncation index ((numbered ((index : Int) + 1) kept).map scanEventRow)
    journal.readEventsHead = .ok () := by
    rw [holds.head]
    cases kept with
    | nil =>
      have caught := drop_eq_nil_iff.mp (whole rfl)
      exact if_pos (by omega)
    | cons entry rest =>
      rw [length_cons] at shorter
      have follows : nextInt64 index = (index : Int) + 1 := nextInt64_eq (Int.natCast_nonneg _) (by omega)
      have gapless := firstEventsSeqGap_numbered ((index : Int) + 1) (entry :: rest) (by omega)
        (by rw [length_cons]; omega)
      simp only [numbered, map_cons] at gapless ⊢
      simp only [computeEventsTruncation, scanEventRow, follows, ne_eq, not_true_eq_false, if_false] at gapless ⊢
      rw [gapless]
  rw [readEvents, rows, same, passed]
  rfl

theorem readEvents_forgotten (gone : index < log.forgotten) :
    ∃ since floor head, journal.readEvents index limit = .error (.truncated since floor head) := by
  have rows := holds.readEventsRows index limit
  rw [max_eq_right gone.le] at rows
  obtain ⟨kept, same, _, _⟩ := limited_numbered limit ((log.forgotten : Int) + 1) (log.history.drop log.forgotten)
  have within := log.within
  have bounded := holds.bounded
  rw [readEvents, rows, same, holds.head]
  cases kept with
  | nil =>
    have behind : ¬ (log.history.length : Int) ≤ index := by omega
    refine ⟨index, nextInt64 log.history.length, log.history.length, ?_⟩
    simp only [numbered, map_nil, computeEventsTruncation, if_neg behind]
    rfl
  | cons entry rest =>
    have skips : (log.forgotten : Int) + 1 ≠ nextInt64 index := by
      rw [nextInt64_eq (Int.natCast_nonneg _) (by omega)]
      omega
    refine ⟨index, log.forgotten + 1, log.history.length, ?_⟩
    simp only [numbered, map_cons, computeEventsTruncation, scanEventRow, if_pos skips]
    rfl

end Journal.Holds

namespace Prunable

variable {addDays : Int → Int → Int} {log longer : Log JournalEntry} {floors : RetentionFloors} {bound : Int} {count : Nat}

section

variable (prunable : Prunable addDays log floors bound)
include prunable

theorem mono (below : bound ≤ log.history.length + 1)
    (grown : longer.history = log.history ++ entries) (kept : log.forgotten ≤ longer.forgotten) :
    Prunable addDays longer floors bound ∧ bound ≤ longer.history.length + 1 := by
  have length : longer.history.length = log.history.length + entries.length := by rw [grown, length_append]
  refine ⟨⟨fun on => ?_, fun on row member less => ?_⟩, by omega⟩
  · have first := prunable.rows on
    omega
  · obtain ⟨index, retained, found, number⟩ := mem_rows.mp member
    refine prunable.days on row (mem_rows.mpr ⟨index, by omega, ?_, number⟩) less
    rw [← found, grown, getElem?_append_left (by omega)]

section

variable (part : count ≤ (bound - (log.forgotten + 1)).toNat)
include part

theorem pruned_old
    {row : Int × JournalEntry} (stored : row ∈ log.rows) (gone : row ∉ (log.forget count).rows)
    (on : 0 < floors.retainDays) : row.2.ts < eventsPruneCutoff addDays floors := by
  refine prunable.days on row stored ?_
  have lower := first_le_of_mem stored
  rw [rows_forget] at gone
  rw [← take_append_drop count log.rows, mem_append] at stored
  have upper := lt_of_mem (take_numbered count ▸ stored.resolve_right gone)
  rw [length_take] at upper
  omega

theorem pruned_length : min floors.retainRows log.rows.length ≤ (log.forget count).rows.length := by
  rw [rows_forget, length_drop]
  have before := log.length_rows
  by_cases on : 0 < floors.retainRows
  · have kept := prunable.rows on
    omega
  · omega

end

end

end Prunable

/-- The tables hold a log, and the bounds of earlier transactions are still good for it. -/
structure JournalHistory.Holds (addDays : Int → Int → Int) (history : JournalHistory) (log : Log JournalEntry) : Prop where
  journal : history.journal.Holds log
  autoPrunes : ∀ prune ∈ history.autoPrunes, Prunable addDays log prune.floors prune.bound ∧
    prune.bound ≤ log.history.length + 1

namespace JournalHistory

def appended (history : JournalHistory) : JournalOperation → List JournalEntry
  | .commit entries => if (entries.foldlM Journal.insertEventRow history.journal).isOk then entries else []
  | _ => []

/-- All entries that were ever journaled, in the order of their transactions. -/
def journaled (addDays : Int → Int → Int) (history : JournalHistory) : List JournalOperation → List JournalEntry
  | [] => []
  | operation :: later => history.appended operation ++ journaled addDays (history.step addDays operation) later

def start (seeded : Bool) : JournalHistory :=
  { journal := { nextSeq := if seeded then some 0 else none } }

variable {addDays : Int → Int → Int} {history : JournalHistory} {log longer : Log JournalEntry}

/-- What a transaction does to the log: it appends, or forgets a first part that
its floors allow. -/
def Changes (addDays : Int → Int → Int) (history : JournalHistory) (operation : JournalOperation)
    (log next : Log JournalEntry) : Prop :=
  next.history = log.history ++ history.appended operation ∧
    (next.forgotten = log.forgotten ∨ ∃ floors bound count, history.floors operation = some floors ∧
      Prunable addDays log floors bound ∧ count ≤ (bound - (log.forgotten + 1)).toNat ∧ next = log.forget count)

theorem appended_eq_nil {operation : JournalOperation} {floors : RetentionFloors}
    (answered : history.floors operation = some floors) : history.appended operation = [] := by
  cases operation with
  | commit entries => cases answered
  | _ => rfl

theorem start_holds (seeded : Bool) : (start seeded).Holds addDays empty where
  journal :=
    { rows := rfl
      head := by cases seeded <;> rfl
      seeded := fun _ => rfl
      bounded := by decide }
  autoPrunes := nofun

section

variable (holds : history.Holds addDays log)
include holds

theorem Holds.grow {journal : Journal} (held : journal.Holds longer)
    (grown : longer.history = log.history ++ entries) (kept : log.forgotten ≤ longer.forgotten) :
    JournalHistory.Holds addDays { history with journal } longer :=
  ⟨held, fun prune member => (holds.autoPrunes prune member).1.mono (holds.autoPrunes prune member).2 grown kept⟩

theorem Holds.forget {journal : Journal} {count : Nat} (held : journal.Holds (log.forget count)) :
    JournalHistory.Holds addDays { history with journal } (log.forget count) :=
  holds.grow held (append_nil _).symm (le_forgotten_forget count)

theorem Holds.step (operation : JournalOperation) :
    ∃ next : Log JournalEntry, (history.step addDays operation).Holds addDays next ∧
      history.Changes addDays operation log next := by
  have unchanged : history.appended operation = [] → history.step addDays operation = history →
      ∃ next : Log JournalEntry, (history.step addDays operation).Holds addDays next ∧
        history.Changes addDays operation log next := by
    intro none same
    refine ⟨log, by rwa [same], ?_, .inl rfl⟩
    rw [none, append_nil]
  cases operation with
  | commit entries =>
    cases outcome : entries.foldlM Journal.insertEventRow history.journal with
    | error refusal =>
      exact unchanged (by simp [appended, outcome, Except.isOk, Except.toBool])
        (by simp only [JournalHistory.step, outcome])
    | ok journal =>
      obtain ⟨next, held, grown, kept⟩ := holds.journal.inserts outcome
      have written : history.step addDays (.commit entries) = { history with journal } := by
        simp only [JournalHistory.step, outcome]
      have journaled : history.appended (.commit entries) = entries := by simp [appended, outcome, Except.isOk, Except.toBool]
      refine ⟨next, written ▸ holds.grow held grown kept.ge, ?_, .inl kept⟩
      rw [journaled, grown]
  | rollback entries => exact unchanged rfl rfl
  | prune before floors =>
    cases resolved : history.journal.pruneBound addDays before floors with
    | none => exact unchanged rfl (by simp only [JournalHistory.step, Journal.pruneEvents, resolved])
    | some bound =>
      have pruned : history.step addDays (.prune before floors) =
          { history with journal := history.journal.deleteWhere fun seq => decide (seq < bound) } := by
        simp only [JournalHistory.step, Journal.pruneEvents, resolved]
      rw [pruned]
      refine ⟨_, holds.forget holds.journal.deleteBelow, (append_nil _).symm, .inr ?_⟩
      exact ⟨floors, bound, _, rfl, (holds.journal.pruneBound resolved).1, le_rfl, rfl⟩
  | autoPruneBound floors =>
    cases resolved : history.journal.computeEventsAutoPruneBound addDays floors with
    | none => exact unchanged rfl (by simp only [JournalHistory.step, resolved])
    | some bound =>
      have remembered : history.step addDays (.autoPruneBound floors) =
          { history with autoPrunes := history.autoPrunes ++ [⟨floors, bound⟩] } := by
        simp only [JournalHistory.step, resolved]
      rw [Journal.computeEventsAutoPruneBound, Option.ite_none_left_eq_some, Option.ite_none_left_eq_some] at resolved
      obtain ⟨prunable, below⟩ := holds.journal.pruneBound resolved.2.2
      have head := holds.journal.head
      have above := nextInt64_le (n := log.history.length) (Int.natCast_nonneg _) holds.journal.bounded
      rw [head] at below
      rw [remembered]
      refine ⟨log, ⟨holds.journal, fun prune member => ?_⟩, (append_nil _).symm, .inl rfl⟩
      rcases mem_append.mp member with earlier | last
      · exact holds.autoPrunes prune earlier
      · cases mem_singleton.mp last
        exact ⟨prunable, below.trans above⟩
  | autoPruneBatch index limit =>
    cases found : history.autoPrunes[index]? with
    | none => exact unchanged rfl (by simp only [JournalHistory.step, found])
    | some prune =>
      cases outcome : history.journal.pruneEventsBatch prune.bound limit with
      | error refusal => exact unchanged rfl (by simp [JournalHistory.step, found, outcome, Except.toOption])
      | ok journal =>
        have pruned : history.step addDays (.autoPruneBatch index limit) = { history with journal } := by
          simp [JournalHistory.step, found, outcome, Except.toOption]
        obtain ⟨count, part, held⟩ := holds.journal.pruneEventsBatch outcome
        have good := holds.autoPrunes prune (mem_of_getElem? found)
        rw [pruned]
        refine ⟨_, holds.forget held, (append_nil _).symm, .inr ?_⟩
        exact ⟨prune.floors, prune.bound, count, by simp [JournalHistory.floors, found], good.1, part, rfl⟩

theorem Holds.run (operations : List JournalOperation) :
    ∃ next : Log JournalEntry, (history.run addDays operations).Holds addDays next ∧
      next.history = log.history ++ history.journaled addDays operations := by
  induction operations generalizing history log with
  | nil => exact ⟨log, holds, (append_nil _).symm⟩
  | cons operation later ih =>
    obtain ⟨middle, held, grown, _⟩ := holds.step operation
    obtain ⟨next, final, whole⟩ := ih held
    exact ⟨next, final, by rw [whole, grown, append_assoc]; rfl⟩

theorem Holds.forgotten_eq (again : history.Holds addDays longer) : log.forgotten = longer.forgotten := by
  have heads := holds.journal.head.symm.trans again.journal.head
  have lengths := congrArg length (holds.journal.rows.symm.trans again.journal.rows)
  rw [length_rows, length_rows] at lengths
  have first := log.within
  have second := longer.within
  omega

theorem Holds.pruned {index : Nat} (retained : log.forgotten ≤ index)
    (operations : List JournalOperation) (final : (history.run addDays operations).Holds addDays longer)
    (gone : index < longer.forgotten) :
    ∃ earlier operation later, operations = earlier ++ operation :: later ∧
      ((history.run addDays earlier).floors operation).isSome ∧
      (index : Int) + 1 ∈ (history.run addDays earlier).journal.seqs ∧
      (index : Int) + 1 ∉ (history.run addDays (earlier ++ [operation])).journal.seqs := by
  induction operations generalizing history log with
  | nil =>
    have same := holds.forgotten_eq final
    omega
  | cons operation rest ih =>
    obtain ⟨middle, held, grown, change⟩ := holds.step operation
    by_cases still : middle.forgotten ≤ index
    · obtain ⟨earlier, prune, later, split, floors, before, after⟩ := ih held still final
      exact ⟨operation :: earlier, prune, later, by rw [split]; rfl, floors, before, after⟩
    · rcases change with same | ⟨floors, bound, count, answered, _, _, forgot⟩
      · omega
      · have within := middle.within
        have kept : middle.history = log.history := by rw [forgot]; rfl
        rw [kept] at within
        refine ⟨[], operation, rest, rfl, Option.isSome_iff_exists.mpr ⟨floors, answered⟩, ?_, ?_⟩
        · exact holds.journal.mem_seqs.mpr ⟨retained, by omega⟩
        · exact fun stored => still (held.journal.mem_seqs.mp stored).1

end

/-- Starting from an empty journal, after any transactions: the rows are consecutive numbers up to
the head; a prune deletes no row that is young for its floors and keeps the newest rows; and a read
from a number goes on with the next one, unless that one was journaled once and a prune has deleted
it. -/
theorem run_retains (addDays : Int → Int → Int) (seeded : Bool)
    (operations : List JournalOperation) : let history := (start seeded).run addDays operations
    let journaled := (start seeded).journaled addDays operations
    (∃ f ≤ journaled.length, history.journal.readEventsHead = journaled.length ∧
      history.journal.ordered = numbered (f + 1) (journaled.drop f)) ∧
    (∀ operation floors, history.floors operation = some floors →
      let pruned := (history.step addDays operation).journal
      (∀ row ∈ history.journal.rows.entries, row ∉ pruned.rows.entries →
        0 < floors.retainDays → row.2.ts < eventsPruneCutoff addDays floors) ∧
      min floors.retainRows history.journal.rows.entries.length ≤ pruned.rows.entries.length) ∧
    (∀ since limit : Int, 0 ≤ since →
      let next := numbered (since + 1) (journaled.drop since.toNat)
      history.journal.readEvents since limit = .ok ((if 0 < limit then next.take limit.toNat else next).map scanEventRow) ∨
      (∃ since' floor head, history.journal.readEvents since limit =
        .error (.truncated since' floor head)) ∧ ∃ earlier operation later, operations = earlier ++
          operation :: later ∧ (((start seeded).run addDays earlier).floors operation).isSome ∧
          since + 1 ∈ ((start seeded).run addDays earlier).journal.seqs ∧
          since + 1 ∉ ((start seeded).run addDays (earlier ++ [operation])).journal.seqs) := by
  intro history journaled
  have initially : (start seeded).Holds addDays Log.empty := start_holds seeded
  obtain ⟨log, holds, whole⟩ := initially.run operations
  have whole : log.history = journaled := whole
  refine ⟨⟨log.forgotten, whole ▸ log.within, whole ▸ holds.journal.head, whole ▸ holds.journal.ordered⟩, ?_, ?_⟩
  · intro operation floors answered
    obtain ⟨next, held, grown, change⟩ := holds.step operation
    rcases change with same | ⟨other, bound, count, known, prunable, part, forgot⟩
    · have rows : next.rows = log.rows := by
        rw [Log.rows, Log.rows, same, grown, appended_eq_nil answered, append_nil]
      refine ⟨fun row stored gone => ?_, ?_⟩
      · rw [held.journal.rows, rows, ← holds.journal.rows] at gone
        exact absurd stored gone
      · rw [held.journal.rows, rows, holds.journal.rows]
        exact min_le_right _ _
    · cases known.symm.trans answered
      cases forgot
      refine ⟨fun row stored gone on => ?_, ?_⟩
      · rw [holds.journal.rows] at stored
        rw [held.journal.rows] at gone
        exact prunable.pruned_old part stored gone on
      · rw [holds.journal.rows, held.journal.rows]
        exact prunable.pruned_length part
  · intro since limit nonneg
    obtain ⟨index, rfl⟩ := Int.eq_ofNat_of_zero_le nonneg
    rw [Int.toNat_natCast, ← whole]
    by_cases retained : log.forgotten ≤ index
    · exact .inl (holds.journal.readEvents_retained retained)
    · refine .inr ⟨holds.journal.readEvents_forgotten (by omega), ?_⟩
      exact initially.pruned (Nat.zero_le index) operations holds (by omega)

/-- Two mutations, the later one with the earlier time, around one that is rolled back. -/
def clockSetBack : List JournalOperation :=
  [.commit [⟨9, .create, "bd-1", "ada", some "one", none, none⟩],
    .rollback [⟨9, .create, "bd-2", "ada", some "two", none, none⟩],
    .commit [⟨3, .update, "bd-1", "ada", some "more", none, none⟩, ⟨5, .delete, "bd-1", "ada", none, none, none⟩]]

theorem run_clockSetBack_prunes :
    let history := (start true).run (· + ·) (clockSetBack ++ [.prune 3 ⟨0, 1, 0⟩])
    history.journal.seqs = [3] ∧
    (∃ since floor head, history.journal.readEvents 1 0 = .error (.truncated since floor head)) ∧
    min 4 (history.journal.rows.entries.length : Int) ≤
      ((history.step (· + ·) (.prune 9 ⟨2, 4, 6⟩)).journal.rows.entries).length := by
  have retains := run_retains (· + ·) true (clockSetBack ++ [.prune 3 ⟨0, 1, 0⟩])
  have gone := (retains.2.2 1 0 (by decide)).resolve_left (by decide)
  have kept := (retains.2.1 (.prune 9 ⟨2, 4, 6⟩) ⟨2, 4, 6⟩ rfl).2
  exact ⟨by decide, gone.1, kept⟩

end JournalHistory

end Beads
