import SayFirst.Spec.Grants
import SayFirst.Spec.Policy
import SayFirst.Spec.SocketClient

/-!
# The boundary (`packages/boundary`)

The grants one boundary holds, each with what its channel has said, and the requests of the
program it governs. A reader's thread reads one frame at a time; every other call takes the lock
of the store or of a reader, so between two steps of one thread any step of another can run.

* `ending` — what a held grant answers.
* `GrantStore.take` — a reader that may be used.
* `step` — a request, an answer to one, or what a channel says.
-/

namespace SayFirst

open Py

/-- `timedelta(seconds=...)`, in microseconds. -/
def secondsDelta (seconds : ℤ) : Except PyError ℤ :=
  if -86399999913600 ≤ seconds ∧ seconds ≤ 86399999999999 then .ok (seconds * 1000000)
  else .error .overflowError

/-! ## The state of a grant (`domain/grant.py`) -/

namespace Plane

inductive GrantState where
  | live
  | expired
  | silent
  | policyVersionChanged
  | connectionLost
  deriving DecidableEq, Repr

def GrantState.value : GrantState → String
  | live => "live"
  | expired => "expired"
  | silent => "silent"
  | policyVersionChanged => "policy_version_changed"
  | connectionLost => "connection_lost"

/-- `grant_state` -/
def grantState (g : GrantFields) (now : ℤ) (currentPolicyVersion : Str) (connectionLive : Bool)
    (lastHeardAt : ℤ) : Except PyError GrantState :=
  if !connectionLive then .ok .connectionLost
  else if g.expiresAt ≤ now then .ok .expired
  else do
    let lifetime ← secondsDelta g.lifetimeSeconds
    return if lifetime ≤ now - lastHeardAt then .silent
      else if currentPolicyVersion ≠ g.policyVersion then .policyVersionChanged
      else .live

end Plane

namespace Boundary

open SayFirst.Client (ClientHost StrEnum Grant GrantConditions Members ReadError)
open SayFirst.Contract (Decision)
open SayFirst.Plane (DecisionAsk Outcome)

/-! ## Signals (`grants.py` of the contract) -/

inductive GrantSignalKind where
  | heartbeat
  | grantEnded
  deriving DecidableEq, Repr

instance : StrEnum GrantSignalKind :=
  ⟨[.heartbeat, .grantEnded], fun
    | .heartbeat => lit "heartbeat"
    | .grantEnded => lit "grant_ended"⟩

inductive GrantEndReason where
  | policyVersionChanged
  | expired
  | daemonStopping
  deriving DecidableEq, Repr

instance : StrEnum GrantEndReason :=
  ⟨[.policyVersionChanged, .expired, .daemonStopping], fun
    | .policyVersionChanged => lit "policy_version_changed"
    | .expired => lit "expired"
    | .daemonStopping => lit "daemon_stopping"⟩

structure GrantSignal where
  kind : GrantSignalKind
  grantId : Str
  policyVersion : Str
  at_ : Str
  reason : Option GrantEndReason
  contractGeneration : ℤ
  deriving DecidableEq

/-- The member of a closed set a text names. -/
def named (α : Type) [StrEnum α] (text : Str) : Option α :=
  (StrEnum.members (α := α)).find? (StrEnum.value · == text)

variable (py : ClientHost)

/-- `GrantSignalKind(str(document["kind"]))` -/
def kindOf (document : Members) : Except ReadError GrantSignalKind := do
  let value ← Client.item document "kind"
  match named GrantSignalKind (value.text py.toInterpreter) with
  | some kind => return kind
  | none => Client.invalid (lit "unknown grant signal kind " ++ py.repr value)

/-- `GrantEndReason(str(raw_reason))`, where there is one. -/
def reasonOf (document : Members) : Except ReadError (Option GrantEndReason) :=
  match Client.member document "reason" with
  | .null => .ok none
  | value =>
    match named GrantEndReason (value.text py.toInterpreter) with
    | some reason => .ok (some reason)
    | none => Client.invalid (lit "unknown grant end reason " ++ py.repr value)

/-- `GrantSignal.from_document` -/
def signalFromDocument (document : Members) : Except ReadError GrantSignal := do
  let kind ← kindOf py document
  let reason ← reasonOf py document
  let grantId ← Client.textAt py document "grant_id"
  let policyVersion ← Client.textAt py document "policy_version"
  let at_ ← Client.textAt py document "at"
  let contractGeneration ← Client.wholeAt py document "contract_generation"
  return { kind, grantId, policyVersion, at_, reason, contractGeneration }

/-- `datetime.fromisoformat`: none where it raises; a naive datetime is no instant. Instants are
microseconds. -/
abbrev FromIso := Str → Option (Option ℤ)

variable (fromIso : FromIso)

/-- `_instant` -/
def readInstant (value : Str) : Except PyError ℤ :=
  match fromIso value with
  | none => .error (.valueError "Invalid isoformat string")
  | some none => .error (.valueError "a published instant carries its offset")
  | some (some t) => .ok t

inductive GrantUse where
  | hit
  | connectionLost
  | expired
  | argumentsChanged
  | conditionsDiffer
  deriving DecidableEq, Repr

/-- The conditions of a grant, but for the digest, are those of an ask. -/
def sameQuestion (c : GrantConditions) (ask : DecisionAsk) (principalReference : Str) : Bool :=
  c.scope == ask.scope && c.capability == ask.capability &&
    c.principalReference == principalReference

/-- `grant_use` -/
def grantUse (grant : Grant) (ask : DecisionAsk) (principalReference : Str) (now : ℤ)
    (connectionLive : Bool) : Except PyError GrantUse :=
  if !connectionLive then .ok .connectionLost
  else do
    let expiresAt ← readInstant fromIso grant.expiresAt
    return if expiresAt ≤ now then .expired
      else if !sameQuestion grant.conditions ask principalReference then .conditionsDiffer
      else if grant.conditions.argumentsDigest ≠ ask.argumentsDigest then .argumentsChanged
      else .hit

/-! ## Freshness (`freshness.py`) -/

inductive Ending where
  | live
  | connectionLost
  | expired
  | silent
  | policyVersionChanged
  | conditionsDiffer
  | argumentsChanged
  deriving DecidableEq, Repr

def Ending.value : Ending → String
  | live => "live"
  | connectionLost => "connection_lost"
  | expired => "expired"
  | silent => "silent"
  | policyVersionChanged => "policy_version_changed"
  | conditionsDiffer => "conditions_differ"
  | argumentsChanged => "arguments_changed"

/-- `_BY_SIGNAL` -/
def bySignal : GrantEndReason → Ending
  | .policyVersionChanged => .policyVersionChanged
  | .expired => .expired
  | .daemonStopping => .connectionLost

/-- `_OUTRANKS_SILENCE` -/
def outranksSilence : List GrantUse := [.connectionLost, .expired]

/-- `_BY_USE` -/
def byUse : GrantUse → Ending
  | .hit => .live
  | .connectionLost => .connectionLost
  | .expired => .expired
  | .conditionsDiffer => .conditionsDiffer
  | .argumentsChanged => .argumentsChanged

/-- What is known of a grant; `lastHeardAt` is none where it was a naive datetime. -/
structure Held where
  grant : Grant
  lastHeardAt : Option ℤ
  connectionLive : Bool
  endedBy : Option GrantEndReason

/-- `now - held.last_heard_at >= timedelta(seconds=held.grant.lifetime_seconds)` -/
def Held.silent (held : Held) (now : ℤ) : Except PyError Bool :=
  match held.lastHeardAt with
  | none => .error .typeError
  | some t => (secondsDelta held.grant.lifetimeSeconds).map fun lifetime => lifetime ≤ now - t

/-- `ending`, of a grant whose channel is there and which no signal has ended. -/
def endingOf (held : Held) (ask : DecisionAsk) (principalReference : Str) (now : ℤ) :
    Except PyError Ending := do
  let use ← grantUse fromIso held.grant ask principalReference now true
  if use ∈ outranksSilence then return byUse use
  else
    let silent ← held.silent now
    return if silent then .silent else byUse use

/-- `ending` -/
def ending (held : Held) (ask : DecisionAsk) (principalReference : Str) (now : ℤ) :
    Except PyError Ending :=
  if !held.connectionLive then .ok .connectionLost
  else
    match held.endedBy with
    | some reason => .ok (bySignal reason)
    | none => endingOf fromIso held ask principalReference now

/-! ## Readers (`signals.py`) -/

/-- A reader, and every signal it has read. -/
structure SignalReader extends Held where
  number : ℕ
  read : List GrantSignal

/-- `SignalReader(...)`; none where it raises. -/
def SignalReader.made (number : ℕ) (grant : Grant) : Option SignalReader :=
  (fromIso grant.issuedAt).map fun issuedAt =>
    { grant, lastHeardAt := issuedAt, connectionLive := true, endedBy := none, number, read := [] }

def SignalReader.lost (r : SignalReader) : SignalReader := { r with connectionLive := false }

/-- `_apply`; what it raises ends the loop it is called in, and the channel with it. -/
def SignalReader.apply (signal : GrantSignal) (r : SignalReader) : SignalReader :=
  let r := { r with read := r.read ++ [signal] }
  if r.endedBy.isSome then r
  else
    match fromIso signal.at_ with
    | none => r.lost
    | some heard =>
      match signal.kind with
      | .grantEnded => { r with lastHeardAt := heard, endedBy := signal.reason }
      | .heartbeat => { r with lastHeardAt := heard }

/-- What a frame of the channel makes of the reader: one that does not read ends it. -/
def SignalReader.frame (document : Members) (r : SignalReader) : SignalReader :=
  match signalFromDocument py document with
  | .ok signal => r.apply fromIso signal
  | .error _ => r.lost

/-! ## The store (`cache.py`) -/

/-- `_held`: the readers, each under the conditions of its grant. -/
abbrev GrantStore := List (GrantConditions × SignalReader)

/-- The question of an ask. -/
def question (ask : DecisionAsk) (principalReference : Str) : GrantConditions :=
  ⟨ask.scope, ask.capability, principalReference, ask.argumentsDigest⟩

namespace GrantStore

/-- The store without what it holds for a question. -/
def without (store : GrantStore) (key : GrantConditions) : GrantStore :=
  store.filter fun held => held.1 != key

/-- `put`; the reader it displaces is closed, and nothing reads it again. -/
def put (store : GrantStore) (reader : SignalReader) : GrantStore :=
  (reader.grant.conditions, reader) :: store.without reader.grant.conditions

/-- `take` -/
def take (store : GrantStore) (ask : DecisionAsk) (principalReference : Str) (now : ℤ) :
    Except PyError (Option SignalReader) × GrantStore :=
  let key := question ask principalReference
  match store.lookup key with
  | none => (.ok none, store)
  | some reader =>
    match ending fromIso reader.toHeld ask principalReference now with
    | .ok .live => (.ok (some reader), store)
    | .ok _ => (.ok none, store.without key)
    | .error e => (.error e, store)

/-- One reader has read, or its channel has ended. -/
def heard (store : GrantStore) (number : ℕ) (f : SignalReader → SignalReader) : GrantStore :=
  store.map fun held => if held.2.number = number then (held.1, f held.2) else held

end GrantStore

/-! ## Requests (`boundary.py`) -/

/-- What stops the body of a request (`errors.py`). -/
inductive BoundaryError where
  | denied (decisionRef capability reason : Str)
  | suspended (approvalRef decisionRef capability : Str)
  | askRefused (problemCode detail : Str)
  | couldNotAsk (detail : Str) (retryable : Option Bool)
  /-- An exception the client raises. -/
  | raised

/-- What opened the body of a request. -/
inductive Opening where
  | hit (reader : SignalReader) (now : ℤ)
  | allowed (decision : Decision)

/-- A body that was entered. -/
structure Entered where
  ask : DecisionAsk
  decisionRef : Str
  opening : Opening

/-- What the boundary was made with. -/
structure Settings where
  principalReference : Str
  correlation : Option Str
  holdGrants : Bool

structure State where
  store : GrantStore
  /-- How many readers were made. -/
  made : ℕ
  /-- The requests that have put their question. -/
  asking : List DecisionAsk
  /-- The bodies that were entered, the first one first. -/
  entered : List Entered

def State.begin : State := ⟨[], 0, [], []⟩

/-- What `hold_decision` answers: its result, and the grant of the channel where there is one. -/
abbrev Answer := Option (Client.Result Decision × Option (Option Grant))

variable (settings : Settings)

/-- The channel of an allow is held, where it brought a grant. -/
def State.hold (s : State) : Option (Option Grant) → State
  | some (some grant) =>
    if settings.holdGrants then
      match SignalReader.made fromIso s.made grant with
      | some reader => { s with store := s.store.put reader, made := s.made + 1 }
      | none => s
    else s
  | _ => s

/-- `_ask` -/
def State.ask (s : State) : Answer → Except BoundaryError Decision × State
  | none => (.error .raised, s)
  | some (.refused problem, _) => (.error (.askRefused problem.code.text problem.message), s)
  | some (.couldNotAsk problem, _) =>
    (.error (.couldNotAsk problem.message problem.retryable), s)
  | some (.answered decision _, stream) =>
    match decision.outcome with
    | .deny => (.error (.denied decision.decisionRef decision.capability decision.reason), s)
    | .suspend =>
      (.error (.suspended (decision.approvalRef.getD (lit "None")) decision.decisionRef
        decision.capability), s)
    | .allow => (.ok decision, s.hold fromIso settings stream)

/-- `yield handle` -/
def State.enter (s : State) (ask : DecisionAsk) (decisionRef : Str) (opening : Opening) : State :=
  { s with entered := s.entered ++ [⟨ask, decisionRef, opening⟩] }

/-- A request, until it enters its body or puts its question; arguments without a digest are not
put. -/
def State.request (s : State) (capability scope : Str) (digest : Option Str) (now : ℤ) : State :=
  match digest with
  | none => s
  | some digest =>
    let ask : DecisionAsk := ⟨capability, scope, some digest, settings.correlation⟩
    if settings.holdGrants then
      match s.store.take fromIso ask settings.principalReference now with
      | (.ok (some reader), store) =>
        State.enter { s with store } ask reader.grant.decisionRef (.hit reader now)
      | (.ok none, store) => { s with store, asking := s.asking ++ [ask] }
      | (.error _, store) => { s with store }
    else { s with asking := s.asking ++ [ask] }

/-- The rest of a request, once its question is answered. -/
def State.answered (s : State) (ask : DecisionAsk) (answer : Answer) : State :=
  match s.ask fromIso settings answer with
  | (.ok decision, s) => s.enter ask decision.decisionRef (.allowed decision)
  | (.error _, s) => s

inductive Event where
  | request (capability scope : Str) (digest : Option Str) (now : ℤ)
  | answer (number : ℕ) (answer : Answer)
  | frame (reader : ℕ) (document : Members)
  /-- The peer closed the channel of a reader, or it failed. -/
  | channelEnded (reader : ℕ)
  /-- `close` -/
  | close

/-- One step of a boundary. -/
def step (s : State) : Event → Option State
  | .request capability scope digest now => some (s.request fromIso settings capability scope digest now)
  | .answer number answer => (s.asking[number]?).map fun ask =>
      State.answered fromIso settings { s with asking := s.asking.eraseIdx number } ask answer
  | .frame reader document =>
    some { s with store := s.store.heard reader (SignalReader.frame py fromIso document) }
  | .channelEnded reader => some { s with store := s.store.heard reader SignalReader.lost }
  | .close => some { s with store := [] }

end Boundary

end SayFirst
