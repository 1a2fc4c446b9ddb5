import SayFirst.Spec.Boundary
import SayFirst.Spec.OutcomeLog

/-!
# Acts (`boundary/boundary.py`)

The bodies of the requests of one boundary, with their handles and the log they record in. A body may
record through its handle as often as it likes, also once it has been left; leaving it records an
outcome without a digest where nothing was recorded. The calls of the log are not re-entrant, and
between any two of them a step of another thread may run.

* `Acts.record` — a call of `record_outcome`.
* `Acts.leave` — the `finally` of a request.
* `Acts.step` — a step of the boundary, of a body, or of the log.
-/

namespace SayFirst.Boundary

open Py
open SayFirst.Client (ClientHost)
open SayFirst.Contract (Decision)
open SayFirst.Plane (DecisionAsk)

/-- `GrantHandle`; `left` says whether its body has been left. -/
structure GrantHandle where
  decisionRef : Str
  capability : Str
  recorded : Bool
  left : Bool
  deriving DecidableEq

/-- `GrantHandle(decision_ref=decision_ref, capability=capability, _log=self._log)` -/
def Entered.handle (entered : Entered) : GrantHandle :=
  ⟨entered.decisionRef, entered.ask.capability, false, false⟩

/-- A record that was made, and the number of the body it was made for. -/
structure Made where
  body : ℕ
  sequence : ℕ
  capability : Str
  decisionRef : Str
  outcomeDigest : Option Str
  deriving DecidableEq

structure Acts where
  state : State
  ledger : Ledger
  /-- The handles of the bodies that were entered, in their order. -/
  handles : List GrantHandle
  /-- The records that were made, the first one first. -/
  made : List Made
  /-- The questions that were answered, each with its answer. -/
  answers : List (DecisionAsk × Answer)
  /-- The bodies that were left without a record, the clock raising. -/
  unstamped : List ℕ

inductive ActEvent where
  | boundary (event : Event)
  /-- `record_outcome(digest)` of the handle of a body. -/
  | records (body : ℕ) (digest : Str) (at_ : Option Str)
  /-- A body returns or raises. -/
  | leaves (body : ℕ) (at_ : Option Str)
  | flush (sink : OutcomeRecord → SinkAnswer)

/-- The question an event answers, and the answer. -/
def State.answering (s : State) : Event → List (DecisionAsk × Answer)
  | .answer number answer => (s.asking[number]?.map fun ask => (ask, answer)).toList
  | _ => []

variable (py : ClientHost) (fromIso : FromIso) (settings : Settings)

namespace Acts

def begin (log : OutcomeLog) : Acts := ⟨.begin, ⟨log, []⟩, [], [], [], []⟩

/-- `self._log.record(...)` for a body; a clock that raises leaves no record. -/
def log (s : Acts) (body : ℕ) (handle : GrantHandle) (digest at_ : Option Str) : Acts :=
  let ledger := s.ledger.call (.record handle.capability handle.decisionRef digest at_)
  match at_ with
  | none => { s with ledger }
  | some _ =>
    { s with
      ledger
      made := s.made ++ [⟨body, ledger.log.sequence, handle.capability, handle.decisionRef, digest⟩] }

/-- `record_outcome`; where the clock raises, `recorded` stays as it is. -/
def record (s : Acts) (body : ℕ) (handle : GrantHandle) (digest : Str) (at_ : Option Str) : Acts :=
  let s := s.log body handle (some digest) at_
  { s with
    handles := s.handles.set body { handle with recorded := handle.recorded || at_.isSome } }

/-- The `finally` of a request. -/
def leave (s : Acts) (body : ℕ) (handle : GrantHandle) (at_ : Option Str) : Acts :=
  let s := if handle.recorded then s else s.log body handle none at_
  { s with
    handles := s.handles.set body { handle with left := true }
    -- A body that recorded by itself is not recorded again.
    unstamped := if handle.recorded || at_.isSome then s.unstamped else s.unstamped ++ [body] }

/-- One step of the boundary, of one of its bodies, or of its log. A body is left once. -/
def step (s : Acts) : ActEvent → Option Acts
  | .boundary event => do
    let state ← Boundary.step py fromIso settings s.state event
    return { s with
      state
      -- A handle is made where a body is entered, behind a grant as behind an answer.
      handles := s.handles ++ (state.entered.drop s.state.entered.length).map Entered.handle
      answers := s.answers ++ s.state.answering event }
  | .records body digest at_ => (s.handles[body]?).map fun handle => s.record body handle digest at_
  | .leaves body at_ => do
    let handle ← s.handles[body]?
    if handle.left then none else return s.leave body handle at_
  | .flush sink => some { s with ledger := s.ledger.call (.flush sink) }

end Acts

end SayFirst.Boundary
