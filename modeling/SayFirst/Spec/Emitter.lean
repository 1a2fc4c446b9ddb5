import SayFirst.Lib.Run
import SayFirst.Spec.Access
import Mathlib.Data.List.AList

/-!
# The evidence emitter (`application/evidence_emitter.py`)

Records are submitted under a lock, taken by one worker and appended with the
lock released. `step` is one atomic act: a submission, a grade evaluation under
the grade lock, one call of the store, one section of the worker, of `flush` or
of `close`. Between two acts of one thread any act of any other can happen.

* `submit`, `countLoss`, `nextUnit`, `restoreGap` — the sections under the lock.
* `recordGrade` — `_grade_record_if_needed`.
* `step` — the acts, with every way the store can answer.
* `emissionStatus` — what the emitter says it is holding.
-/

namespace SayFirst.Plane.Emission

open Py

/-- `DAEMON_CONNECTION` -/
def daemonConnection : Str := lit "daemon"

/-- What is handed over of one record. -/
structure Handed where
  kind : Str
  recordedAt : ℤ
  connectionId : Str
  grade : Option Grade
  deriving DecidableEq, Repr

/-- A record, and which of all hand-overs it is. -/
structure Record extends Handed where
  number : ℕ
  scope : Str
  deriving DecidableEq, Repr

/-- The records of one submission. -/
def numbered (scope : Str) : ℕ → List Handed → List Record
  | _, [] => []
  | n, h :: hs => { h with number := n, scope } :: numbered scope (n + 1) hs

theorem numbered_scope {scope : Str} : ∀ {n : ℕ} {handed : List Handed},
    ∀ r ∈ numbered scope n handed, r.scope = scope := by
  intro n handed
  induction handed generalizing n with
  | nil => intro r hr; cases hr
  | cons h hs ih =>
    intro r hr
    rcases List.mem_cons.1 hr with rfl | hr
    · rfl
    · exact ih r hr

/-! ## Gaps and units -/

/-- `_PendingGap`, with the losses it counts, which nothing reads. -/
structure PendingGap where
  count : ℕ
  firstAt : ℤ
  lastAt : ℤ
  kinds : Str → ℕ
  losses : List Record
  count_pos : 0 < count
  count_eq : count = losses.length
  kinds_eq : ∀ kind, kinds kind = losses.countP (·.kind == kind)

namespace PendingGap

/-- `from_losses` -/
def ofLosses (first : Record) (rest : List Record) : PendingGap where
  count := (first :: rest).length
  firstAt := (rest.map (·.recordedAt)).foldl min first.recordedAt
  lastAt := (rest.map (·.recordedAt)).foldl max first.recordedAt
  kinds := fun kind => (first :: rest).countP (·.kind == kind)
  losses := first :: rest
  count_pos := Nat.succ_pos _
  count_eq := rfl
  kinds_eq := fun _ => rfl

/-- `include` -/
def including (gap : PendingGap) (losses : List Record) : PendingGap where
  count := gap.count + losses.length
  firstAt := (losses.map (·.recordedAt)).foldl min gap.firstAt
  lastAt := (losses.map (·.recordedAt)).foldl max gap.lastAt
  kinds := fun kind => gap.kinds kind + losses.countP (·.kind == kind)
  losses := gap.losses ++ losses
  count_pos := Nat.add_pos_left gap.count_pos _
  count_eq := by rw [gap.count_eq, List.length_append]
  kinds_eq := fun kind => by rw [gap.kinds_eq, List.countP_append]

/-- What `_restore_gap` makes of a gap and the one present. -/
def merge (gap present : PendingGap) : PendingGap where
  count := gap.count + present.count
  firstAt := min gap.firstAt present.firstAt
  lastAt := max gap.lastAt present.lastAt
  kinds := fun kind => gap.kinds kind + present.kinds kind
  losses := gap.losses ++ present.losses
  count_pos := Nat.add_pos_left gap.count_pos _
  count_eq := by rw [gap.count_eq, present.count_eq, List.length_append]
  kinds_eq := fun kind => by rw [gap.kinds_eq, present.kinds_eq, List.countP_append]

end PendingGap

/-- `_Unit`: records of one scope, behind the gap that was pending before them. -/
structure EmissionUnit where
  scope : Str
  records : List Record
  gapBefore : Option PendingGap
  held : ∀ r ∈ records, r.scope = scope

/-- An entry on a chain, as far as the emitter writes it. -/
inductive Written where
  | record (r : Record)
  | gap (scope : Str) (gap : PendingGap)
  /-- A grade of the daemon's own connection, appended outside the queue. -/
  | daemonGrade (scope : Str) (grade : Grade)

/-- Which call the worker makes next on the unit it holds. -/
inductive Stage where
  /-- The daemon's grade, before the gap. -/
  | gap
  | grade (grade : Grade)
  | entry
  | records
  | failed

/-- What `_drain` holds between taking a unit and letting it go. -/
structure Inflight where
  unit : EmissionUnit
  stage : Stage
  completed : ℕ
  gapWritten : Bool

/-- Where a thread that calls the emitter stands between two of its acts. -/
inductive Caller where
  | idle
  /-- `emit_effect`, `evaluation_for`: a grade was evaluated and is to be submitted, if due. -/
  | holding (scope : Str) (grade : Option Handed)
  /-- A synchronous writer: the daemon's grade is to be appended, if due. -/
  | reporting (scope : Str) (grade : Option Grade)
  /-- `flush`, by itself or for `close` with the scopes after this one. -/
  | flushing (scope : Str) (target : ℕ) (before : List Record) (rest : Option (List Str))
  | draining (scopes : List Str)
  | drained (flushed : Bool)
  | joining (flushed : Bool)

structure Emitter where
  queue : List EmissionUnit
  queuedRecords : ℕ
  pending : AList fun _ : Str => PendingGap
  /-- `_flush_requests`: one for each call that waits. -/
  flushRequests : List Str
  flushCompleted : Str → ℕ
  finalAttempt : List Str
  delivering : Bool
  inflight : Option Inflight
  closing : Bool
  /-- The worker has not returned. -/
  alive : Bool
  /-- `_grades`, by connection and scope. -/
  grades : AList fun _ : Str × Str => Grade
  callers : ℕ → Caller
  /-- What the store accepted, newest first. -/
  chain : List Written
  /-- The records submitted so far. -/
  submitted : List Record
  /-- The flushes answered True, with what was submitted before each. -/
  flushed : List (Str × List Record)
  /-- What was submitted before each `close` that answered True. -/
  closed : List (List Record)

/-- An emitter before its first record. -/
def Emitter.initial : Emitter :=
  ⟨[], 0, ∅, [], fun _ => 0, [], true, none, false, true, ∅, fun _ => .idle, [], [], [], []⟩

namespace Emitter

variable (s : Emitter)

def setCaller (i : ℕ) (c : Caller) : Emitter :=
  { s with callers := fun j => if j = i then c else s.callers j }

/-! ## Under the lock -/

/-- `_count_loss` -/
def countLoss (scope : Str) : List Record → Emitter
  | [] => s
  | first :: rest =>
    { s with
      pending := s.pending.insert scope
        (match s.pending.lookup scope with
          | none => .ofLosses first rest
          | some gap => gap.including (first :: rest)) }

/-- `_restore_gap` -/
def restoreGap (scope : Str) (gap : PendingGap) : Emitter :=
  { s with
    pending := s.pending.insert scope
      (match s.pending.lookup scope with
        | none => gap
        | some present => gap.merge present) }

/-- `_submit`, in a scope that could be opened. -/
def submit (capacity : ℕ) (scope : Str) (handed : List Handed) : Bool × Emitter :=
  let records := numbered scope s.submitted.length handed
  let s := { s with submitted := s.submitted ++ records }
  if records.isEmpty then (true, s)
  else if s.closing then (false, s.countLoss scope records)
  else if records.length > capacity ∨ s.queuedRecords + records.length > capacity then
    (false, s.countLoss scope records)
  else
    (s.delivering,
      { s with
        queue := s.queue ++ [⟨scope, records, s.pending.lookup scope, numbered_scope⟩]
        pending := s.pending.erase scope
        queuedRecords := s.queuedRecords + records.length })

/-- `_complete_flush` -/
def completeFlush (scope : Str) : Emitter :=
  { s with
    flushCompleted := fun other =>
      if other = scope then s.flushCompleted other + 1 else s.flushCompleted other }

/-- The scopes `_next_unit` looks at when nothing is queued. -/
def requested : List Str :=
  if s.closing then sortedSet (s.flushRequests ++ s.pending.keys) else sortedSet s.flushRequests

/-- The loop of `_next_unit`; `backing` are the scopes whose retry is not due. -/
def visit (backing : List Str) (s : Emitter) : List Str → Option EmissionUnit × Emitter
  | [] => (none, s)
  | scope :: rest =>
    match s.pending.lookup scope with
    | none => visit backing (s.completeFlush scope) rest
    | some gap =>
      let unit : EmissionUnit := ⟨scope, [], some gap, fun _ h => (List.not_mem_nil h).elim⟩
      if s.closing then
        if scope ∈ s.finalAttempt then visit backing s rest
        else
          (some unit,
            { s with
              finalAttempt := scope :: s.finalAttempt
              pending := s.pending.erase scope })
      else if scope ∈ backing then visit backing s rest
      else (some unit, { s with pending := s.pending.erase scope })

/-- `_next_unit` -/
def nextUnit (backing : List Str) : Option EmissionUnit × Emitter :=
  match s.queue with
  | unit :: rest =>
    (some unit, { s with queue := rest, queuedRecords := s.queuedRecords - unit.records.length })
  | [] => visit backing s s.requested

/-- `_retryable_pending` -/
def retryablePending : Bool := s.pending.keys.any fun scope => !s.finalAttempt.contains scope

/-- The first section of a turn of `_drain`: a unit is taken, or the worker waits or returns. -/
def take (backing : List Str) : Emitter :=
  match s.nextUnit backing with
  | (some unit, s) =>
    { s with
      inflight := some ⟨unit, if unit.gapBefore.isSome then .gap else .records, 0, false⟩ }
  | (none, s) => if s.closing && !s.retryablePending then { s with alive := false } else s

/-- The last section of a turn of `_drain`. -/
def finish (d : Inflight) (failed : Bool) : Emitter :=
  if failed then
    let s := { s with delivering := false }
    let s := match d.unit.gapBefore with
      | some gap => if d.gapWritten then s else s.restoreGap d.unit.scope gap
      | none => s
    { s.countLoss d.unit.scope (d.unit.records.drop d.completed) with inflight := none }
  else { s with delivering := true, inflight := none }

/-! ## Grades -/

/-- `_grade_record_if_needed`: the grade of the record that is due; nothing was evaluated where
the grade held is recent. -/
def recordGrade (connectionId scope : Str) : Option Grade → Option (Option Grade × Emitter)
  | none => if (s.grades.lookup (connectionId, scope)).isSome then some (none, s) else none
  | some grade =>
    some (if s.grades.lookup (connectionId, scope) = some grade then none else some grade,
      { s with grades := s.grades.insert (connectionId, scope) grade })

/-! ## The calls of the store -/

/-- The entry is accepted, and the worker goes on. -/
def appended (w : Written) (d : Inflight) : Emitter :=
  { s with chain := w :: s.chain, inflight := some d }

/-- The next `append` of the worker. -/
def append (accepted : Bool) : Option Emitter :=
  match s.inflight with
  | none => none
  | some d =>
    let refused : Emitter := { s with inflight := some { d with stage := .failed } }
    match d.stage with
    | .grade grade =>
      some (if accepted then
          s.appended (.daemonGrade d.unit.scope grade) { d with stage := .entry }
        else refused)
    | .entry =>
      match d.unit.gapBefore with
      | none => none
      | some gap =>
        some (if accepted then
            s.appended (.gap d.unit.scope gap) { d with stage := .records, gapWritten := true }
          else refused)
    | .records =>
      match d.unit.records[d.completed]? with
      | none => none
      | some r =>
        some (if accepted then
            s.appended (.record r) { d with completed := d.completed + 1 }
          else refused)
    | _ => none

/-- The grade a gap is written under; none where its evaluation raises. -/
def gapGrade (evaluated : Option (Option Grade)) : Option Emitter :=
  match s.inflight with
  | none => none
  | some d =>
    match d.stage with
    | .gap =>
      match evaluated with
      | none => some { s with inflight := some { d with stage := .failed } }
      | some evaluated =>
        match s.recordGrade daemonConnection d.unit.scope evaluated with
        | none => none
        | some (due, s) =>
          some { s with
            inflight := some { d with stage := match due with
              | some grade => .grade grade
              | none => .entry } }
    | _ => none

/-! ## Flushing and closing -/

/-- The first section of `flush`. -/
def startFlush (i : ℕ) (scope : Str) (rest : Option (List Str)) : Emitter :=
  { s with flushRequests := scope :: s.flushRequests }.setCaller i
    (.flushing scope (s.flushCompleted scope + 1) s.submitted rest)

/-- The scopes `flush(None)` goes through. -/
def flushScopes : List Str :=
  sortedSet (s.pending.keys ++ s.queue.map (·.scope) ++ s.grades.keys.map Prod.snd ++
    (s.inflight.map (·.unit.scope)).toList)

/-- The answer of a `flush`; False where it timed out. -/
def answer (i : ℕ) : Option Emitter :=
  match s.callers i with
  | .flushing scope target before rest =>
    let completed := decide (target ≤ s.flushCompleted scope)
    let s := { s with flushRequests := s.flushRequests.erase scope }
    some (match rest with
      | none =>
        { s with flushed := if completed then (scope, before) :: s.flushed else s.flushed
          }.setCaller i .idle
      | some scopes => s.setCaller i (if completed then .draining scopes else .drained false))
  | _ => none

/-- The answer of a `close`; False where the worker did not return in time. -/
def join (i : ℕ) : Option Emitter :=
  match s.callers i with
  | .joining flushed =>
    some ({ s with
        closed := if flushed && !s.alive then s.submitted :: s.closed else s.closed
        }.setCaller i .idle)
  | _ => none

/-! ## What the emitter says of itself -/

/-- How many records a unit holds back. -/
def unitHolds (u : EmissionUnit) : ℕ := u.records.length + (u.gapBefore.map (·.count)).getD 0

/-- What `emission_status` adds to the counter of each scope. -/
def holdings : List (Str × ℕ) :=
  s.pending.entries.map (fun e => (e.1, e.2.count)) ++
    (s.queue ++ (s.inflight.map (·.unit)).toList).map fun u => (u.scope, unitHolds u)

/-- The counter of one scope. -/
def holding (scope : Str) : ℕ := ((s.holdings.filter (·.1 == scope)).map Prod.snd).sum

structure EmissionStatus where
  delivering : Bool
  undeliveredRecords : ℕ
  scopesUndelivered : List Str

/-- `emission_status` -/
def emissionStatus : EmissionStatus where
  delivering := s.delivering
  undeliveredRecords := ((s.holdings.map Prod.fst).dedup.map s.holding).sum
  scopesUndelivered := sortedSet ((s.holdings.map Prod.fst).filter fun scope => s.holding scope ≠ 0)

end Emitter

/-! ## The acts -/

inductive Event where
  | submit (scope : Str) (handed : List Handed)
  | evaluate (i : ℕ) (scope connectionId : Str) (at_ : ℤ) (evaluated : Option Grade)
  /-- What `emit_effect` or `evaluation_for` submits with the grade that is due; `opens` says
  whether the scope could be opened. -/
  | hand (i : ℕ) (handed : List Handed) (opens : Bool)
  /-- A raise between the evaluation and the submission. -/
  | raised (i : ℕ)
  /-- `daemon_grade_record`, and the append of what it answered. -/
  | evaluateDaemon (i : ℕ) (scope : Str) (evaluated : Option Grade)
  | appendDaemon (i : ℕ) (accepted : Bool)
  | take (backing : List Str)
  | gapGrade (evaluated : Option (Option Grade))
  | append (accepted : Bool)
  | finish
  | flush (i : ℕ) (scope : Str)
  | answer (i : ℕ)
  | close (i : ℕ)
  | drain (i : ℕ)
  | setClosing (i : ℕ)
  | join (i : ℕ)

open Emitter in
/-- One act on the emitter. -/
def step (capacity : ℕ) (s : Emitter) : Event → Option Emitter
  | .submit scope handed => some (s.submit capacity scope handed).2
  | .evaluate i scope connectionId at_ evaluated =>
    match s.callers i with
    | .idle =>
      if connectionId = daemonConnection then none
      else
        (s.recordGrade connectionId scope evaluated).map fun (due, s) =>
          s.setCaller i (.holding scope (due.map fun grade =>
            ⟨lit "grade", at_, connectionId, some grade⟩))
    | _ => none
  | .hand i handed opens =>
    match s.callers i with
    | .holding scope grade =>
      some (((if opens then (s.submit capacity scope (grade.toList ++ handed)).2 else s)).setCaller i
        .idle)
    | _ => none
  | .raised i =>
    match s.callers i with
    | .holding .. => some (s.setCaller i .idle)
    | _ => none
  | .evaluateDaemon i scope evaluated =>
    match s.callers i with
    | .idle =>
      (s.recordGrade daemonConnection scope evaluated).map fun (due, s) =>
        s.setCaller i (.reporting scope due)
    | _ => none
  | .appendDaemon i accepted =>
    match s.callers i with
    | .reporting scope due =>
      some ({ s with
          chain := match due with
            | some grade => if accepted then .daemonGrade scope grade :: s.chain else s.chain
            | none => s.chain }.setCaller i .idle)
    | _ => none
  | .take backing => if s.alive && s.inflight.isNone then some (s.take backing) else none
  | .gapGrade evaluated => s.gapGrade evaluated
  | .append accepted => s.append accepted
  | .finish =>
    match s.inflight with
    | none => none
    | some d =>
      match d.stage with
      | .failed => some (s.finish d true)
      | .records => if d.completed = d.unit.records.length then some (s.finish d false) else none
      | _ => none
  | .flush i scope =>
    match s.callers i with
    | .idle => if scope = [] then none else some (s.startFlush i scope none)
    | _ => none
  | .answer i => s.answer i
  | .close i =>
    match s.callers i with
    | .idle => some (s.setCaller i (.draining s.flushScopes))
    | _ => none
  | .drain i =>
    match s.callers i with
    | .draining [] => some (s.setCaller i (.drained true))
    | .draining (scope :: rest) => some (s.startFlush i scope (some rest))
    | _ => none
  | .setClosing i =>
    match s.callers i with
    | .drained flushed => some ({ s with closing := true }.setCaller i (.joining flushed))
    | _ => none
  | .join i => s.join i

end SayFirst.Plane.Emission
