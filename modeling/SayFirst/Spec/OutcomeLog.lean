import SayFirst.Lib.Text

/-!
# The boundary's outcome log (`boundary/evidence.py`)

A bounded queue of records, and the count of what it lost, to its bound or to its sink. The sink and
the clock are the caller's: a call of the sink takes the record, raises an `Exception`, or raises
past `except Exception` (`KeyboardInterrupt`, `SystemExit`, a cancellation); the clock may raise.

* `OutcomeLog.record` — make a record.
* `OutcomeLog.flush` — hand what is held to the sink.
* `Ledger` — a log, and what became of every record that left it.
-/

namespace SayFirst.Boundary

open Py

/-- `_Pending` -/
structure PendingRecord where
  sequence : ℕ
  capability : Str
  decisionRef : Str
  outcomeDigest : Option Str
  at_ : Str
  deriving DecidableEq

/-- `Record` -/
structure OutcomeRecord extends PendingRecord where
  droppedBefore : ℕ
  deriving DecidableEq

/-- How a call of the sink ends. -/
inductive SinkAnswer where
  | took
  /-- It raised an `Exception`. -/
  | refused
  /-- It raised what `except Exception` does not catch. -/
  | interrupted
  deriving DecidableEq, Repr

structure OutcomeLog where
  pending : List PendingRecord
  capacity : ℕ
  sequence : ℕ
  dropped : ℕ

/-- What became of a record that left the log, or was not kept. -/
inductive Fate where
  | delivered (record : OutcomeRecord)
  | refused (record : OutcomeRecord)
  /-- The bound shed it. -/
  | shed (sequence : ℕ)
  /-- The sink was interrupted with it. -/
  | interrupted (record : OutcomeRecord)
  /-- The clock raised as it was made. -/
  | unstamped (sequence : ℕ)
  deriving DecidableEq

/-- The record, where the sink took it. -/
def Fate.taken : Fate → Option OutcomeRecord
  | .delivered record => some record
  | _ => none

/-- The number of the record, where `dropped` counts it. -/
def Fate.missed : Fate → Option ℕ
  | .refused record => some record.sequence
  | .shed sequence => some sequence
  | _ => none

namespace OutcomeLog

/-- `OutcomeLog(...)`; none where it raises. -/
def made (capacity : ℕ) : Option OutcomeLog :=
  if capacity < 1 then none else some ⟨[], capacity, 0, 0⟩

/-- The bound sheds the oldest record, where the log is full. -/
def shedding (log : OutcomeLog) : OutcomeLog × List Fate :=
  if log.pending.length = log.capacity then
    match log.pending with
    | [] => (log, [])
    | oldest :: pending => ({ log with pending, dropped := log.dropped + 1 }, [.shed oldest.sequence])
  else (log, [])

/-- `record`; `at_` is what the clock reads, none where it raises. -/
def record (log : OutcomeLog) (capability decisionRef : Str) (outcomeDigest at_ : Option Str) :
    OutcomeLog × List Fate :=
  let (log, fates) := { log with sequence := log.sequence + 1 }.shedding
  match at_ with
  | none => (log, fates ++ [.unstamped log.sequence])
  | some at_ =>
    ({ log with
        pending := log.pending ++ [⟨log.sequence, capability, decisionRef, outcomeDigest, at_⟩] },
      fates)

/-- The record as it leaves: `dropped_before` is read then. -/
def stamp (pending : PendingRecord) (dropped : ℕ) : OutcomeRecord := ⟨pending, dropped⟩

/-- The loop of `flush`: what stays behind, the count, and what became of the rest. -/
def draining (sink : OutcomeRecord → SinkAnswer) :
    List PendingRecord → ℕ → List PendingRecord × ℕ × List Fate
  | [], dropped => ([], dropped, [])
  | pending :: rest, dropped =>
    let entry := stamp pending dropped
    match sink entry with
    | .took =>
      let (left, count, fates) := draining sink rest dropped
      (left, count, .delivered entry :: fates)
    | .refused =>
      let (left, count, fates) := draining sink rest (dropped + 1)
      (left, count, .refused entry :: fates)
    | .interrupted => (rest, dropped, [.interrupted entry])

/-- `flush` -/
def flush (log : OutcomeLog) (sink : OutcomeRecord → SinkAnswer) : OutcomeLog × List Fate :=
  let (pending, dropped, fates) := draining sink log.pending log.dropped
  ({ log with pending, dropped }, fates)

end OutcomeLog

/-- A call of the log. -/
inductive LogCall where
  | record (capability decisionRef : Str) (outcomeDigest at_ : Option Str)
  | flush (sink : OutcomeRecord → SinkAnswer)

/-- A log, and what became of its records, the first one first. -/
structure Ledger where
  log : OutcomeLog
  fates : List Fate

namespace Ledger

def call (l : Ledger) : LogCall → Ledger
  | .record capability decisionRef outcomeDigest at_ =>
    let (log, fates) := l.log.record capability decisionRef outcomeDigest at_
    ⟨log, l.fates ++ fates⟩
  | .flush sink =>
    let (log, fates) := l.log.flush sink
    ⟨log, l.fates ++ fates⟩

/-- The ledger behind a run of calls. -/
def after (l : Ledger) (calls : List LogCall) : Ledger := calls.foldl call l

/-- The records the sink took. -/
def delivered (l : Ledger) : List OutcomeRecord := l.fates.filterMap Fate.taken

/-- The numbers of the records `dropped` counts. -/
def lost (l : Ledger) : List ℕ := l.fates.filterMap Fate.missed

/-- The numbers of the records that are held. -/
def held (l : Ledger) : List ℕ := l.log.pending.map (·.sequence)

end Ledger

end SayFirst.Boundary
