import Beads.Data.KeyedTable
import Beads.Data.Fallible
import Beads.Store.Types

namespace Beads

inductive EventOp where
  | create | update | close | delete | depAdd | depRemove | commentWrite
  deriving DecidableEq, Repr

/-- A row of `bd_events_journal` apart from its key; `ts` counts in the column's own unit. -/
structure JournalEntry where
  ts : Int
  op : EventOp
  issueId : Id
  actor : String
  issueJson : Option String := none
  depJson : Option String := none
  commentJson : Option String := none
  deriving DecidableEq, Repr

/-- The tables `bd_events_journal`, keyed by `seq`, and `bd_events_seq`, of one row at most. -/
structure Journal where
  rows : KeyedTable Int JournalEntry := {}
  nextSeq : Option Int := none

inductive JournalError where
  | counterOutOfRange
  | duplicateSeq (seq : Int)
  | batchLimit (limit : Int)
  | truncated (since floor head : Int)
  deriving DecidableEq, Repr

def nextInt64 (n : Int) : Int := Int.bmod (n + 1) (2 ^ 64)

def maxInt64 : Int := 2 ^ 63 - 1

namespace Journal

variable (journal : Journal)

def seqs : List Int := journal.rows.entries.map Prod.fst

def ordered : List (Int × JournalEntry) := journal.rows.entries.insertionSort fun one other => one.1 ≤ other.1

/-- Seed the counter row if it is missing and raise it to the highest stored number. -/
def healEventSeqCounter : Journal :=
  { journal with nextSeq := some (max (journal.nextSeq.getD 0) (journal.seqs.max?.getD 0)) }

def advance : Except JournalError (Option Journal) :=
  match journal.nextSeq with
  | none => .ok none
  | some next => if next < maxInt64 then .ok (some { journal with nextSeq := some (next + 1) }) else .error .counterOutOfRange

def nextEventSeq : Except JournalError (Int × Journal) := do
  match ← journal.advance with
  | some advanced => return (advanced.nextSeq.getD 0, advanced)
  | none =>
    let healed := journal.healEventSeqCounter
    let advanced := (← healed.advance).getD healed
    return (advanced.nextSeq.getD 0, advanced)

def insert (seq : Int) (entry : JournalEntry) : Except JournalError Journal :=
  if seq ∈ journal.seqs then .error (.duplicateSeq seq) else .ok { journal with rows := journal.rows.insert seq entry }

def insertEventRow (entry : JournalEntry) : Except JournalError Journal := do
  let (seq, advanced) ← journal.nextEventSeq
  match advanced.insert seq entry with
  | .ok written => return written
  | .error _ =>
    -- a duplicate: the counter is behind the rows, so it is raised and the insert tried once more
    let (seq, advanced) ← advanced.healEventSeqCounter.nextEventSeq
    advanced.insert seq entry

def deleteWhere (pruned : Int → Bool) : Journal :=
  { journal with rows := journal.rows.removeWhere pruned }

def readEventsHead : Int := journal.nextSeq.getD 0

def readRowsCeil (retainRows : Int) : Option Int :=
  (journal.ordered.reverse.map Prod.fst)[retainRows.toNat]?

def readDaysFloor (cutoff : Int) : Option Int :=
  ((journal.rows.entries.filter fun row => decide (cutoff ≤ row.2.ts)).map Prod.fst).min?

end Journal

/-- What a prune has to keep: rows by age, measured from `now`, and the newest rows. A floor that is
not positive is off. -/
structure RetentionFloors where
  retainDays : Int
  retainRows : Int
  now : Int
  deriving DecidableEq, Repr

section Prune

-- `Time.AddDate` by days, in the zone of the clock
variable (addDays : Int → Int → Int)

def eventsPruneCutoff (floors : RetentionFloors) : Int := addDays floors.now (-floors.retainDays)

/-- With fewer rows than the floor retains there is nothing to prune; otherwise the bound is at most
one past the highest number that the floor lets go. -/
def retainRowsBound (before : Int) (floors : RetentionFloors) (readRowsCeil : Option Int) : Option Int :=
  if 0 < floors.retainRows then readRowsCeil.map fun ceil => if nextInt64 ceil < before then nextInt64 ceil else before
  else some before

def retainDaysBound (bound : Int) (floors : RetentionFloors) (readDaysFloor : Int → Option Int) : Int :=
  if 0 < floors.retainDays then
    match readDaysFloor (eventsPruneCutoff addDays floors) with
    | some floorSeq => if floorSeq < bound then floorSeq else bound
    | none => bound
  else bound

/-- The exclusive bound that a requested bound and the two floors leave, if
anything can be below it. -/
def computeEventsPruneWhere (before : Int) (floors : RetentionFloors) (readRowsCeil : Option Int)
    (readDaysFloor : Int → Option Int) : Option Int := do
  let bound ← retainRowsBound before floors readRowsCeil
  let bound := retainDaysBound addDays bound floors readDaysFloor
  if bound ≤ 1 then none else some bound

namespace Journal

variable (journal : Journal)

def pruneBound (before : Int) (floors : RetentionFloors) : Option Int :=
  computeEventsPruneWhere addDays before floors (journal.readRowsCeil floors.retainRows) journal.readDaysFloor

def pruneEvents (before : Int) (floors : RetentionFloors) : Journal :=
  match journal.pruneBound addDays before floors with
  | none => journal
  | some bound => journal.deleteWhere fun seq => decide (seq < bound)

def computeEventsAutoPruneBound (floors : RetentionFloors) : Option Int :=
  if floors.retainDays ≤ 0 ∧ floors.retainRows ≤ 0 then none
  else if journal.readEventsHead ≤ 0 then none
  else journal.pruneBound addDays (nextInt64 journal.readEventsHead) floors

end Journal

end Prune

namespace Journal

def pruneEventsBatch (journal : Journal) (bound limit : Int) : Except JournalError Journal :=
  if limit ≤ 0 then .error (.batchLimit limit)
  else
    let batch := ((journal.ordered.filter fun row => decide (row.1 < bound)).map Prod.fst).take limit.toNat
    .ok (journal.deleteWhere fun seq => decide (seq ∈ batch))

end Journal

/-- A row as a reader gets it; a payload that is not there reads as the empty text. -/
structure EventsJournalRow where
  seq : Int
  ts : Int
  op : EventOp
  issueId : Id
  actor : String
  issueJson : String
  depJson : String
  commentJson : String
  deriving DecidableEq, Repr

def scanEventRow (row : Int × JournalEntry) : EventsJournalRow where
  seq := row.1
  ts := row.2.ts
  op := row.2.op
  issueId := row.2.issueId
  actor := row.2.actor
  issueJson := row.2.issueJson.getD ""
  depJson := row.2.depJson.getD ""
  commentJson := row.2.commentJson.getD ""

def firstEventsSeqGap : List EventsJournalRow → Option (EventsJournalRow × EventsJournalRow)
  | one :: other :: rest => if other.seq ≠ nextInt64 one.seq then some (one, other) else firstEventsSeqGap (other :: rest)
  | _ => none

def computeEventsTruncation (since : Int) (rows : List EventsJournalRow) (head : Int) : Except JournalError Unit :=
  match rows with
  | [] => if head ≤ since then .ok () else .error (.truncated since (nextInt64 head) head)
  | first :: _ =>
    if first.seq ≠ nextInt64 since then .error (.truncated since first.seq head)
    else
      match firstEventsSeqGap rows with
      | some (one, other) => .error (.truncated one.seq other.seq head)
      | none => .ok ()

namespace Journal

def readEventsRows (journal : Journal) (since limit : Int) : List EventsJournalRow :=
  let rows := journal.ordered.filter fun row => decide (since < row.1)
  (if 0 < limit then rows.take limit.toNat else rows).map scanEventRow

def readEvents (journal : Journal) (since limit : Int) : Except JournalError (List EventsJournalRow) := do
  let rows := journal.readEventsRows since limit
  computeEventsTruncation since rows journal.readEventsHead
  return rows

end Journal

/-- A bound that maintenance has computed in an earlier transaction, with the
floors it was computed for. -/
structure AutoPrune where
  floors : RetentionFloors
  bound : Int
  deriving DecidableEq, Repr

/-- The journal and the bounds that were ever handed to an automatic prune. -/
structure JournalHistory where
  journal : Journal := {}
  autoPrunes : List AutoPrune := []

/-- A transaction on the journal: rows that a mutation inserts, with its end; a prune; the two
halves of automatic pruning. -/
inductive JournalOperation where
  | commit (entries : List JournalEntry)
  | rollback (entries : List JournalEntry)
  | prune (before : Int) (floors : RetentionFloors)
  | autoPruneBound (floors : RetentionFloors)
  | autoPruneBatch (index : Nat) (limit : Int)
  deriving DecidableEq, Repr

section Histories

variable (addDays : Int → Int → Int)

variable (history : JournalHistory)

/-- A transaction that fails or is rolled back leaves the tables as they were. -/
def JournalHistory.step : JournalOperation → JournalHistory
  | .commit entries =>
    match entries.foldlM Journal.insertEventRow history.journal with
    | .ok journal => { history with journal }
    | .error _ => history
  | .rollback _ => history
  | .prune before floors => { history with journal := history.journal.pruneEvents addDays before floors }
  | .autoPruneBound floors =>
    match history.journal.computeEventsAutoPruneBound addDays floors with
    | some bound => { history with autoPrunes := history.autoPrunes ++ [⟨floors, bound⟩] }
    | none => history
  | .autoPruneBatch index limit =>
    match history.autoPrunes[index]? with
    | some prune =>
      { history with journal := ((history.journal.pruneEventsBatch prune.bound limit).toOption).getD history.journal }
    | none => history

def JournalHistory.run (operations : List JournalOperation) : JournalHistory :=
  operations.foldl (·.step addDays) history

def JournalHistory.floors : JournalOperation → Option RetentionFloors
  | .prune _ floors => some floors
  | .autoPruneBatch index _ => history.autoPrunes[index]?.map AutoPrune.floors
  | _ => none

end Histories

end Beads
