import SayFirst.Lib.Run
import SayFirst.Lib.Text
import Mathlib.Data.List.AList

/-!
# The grant connections (`application/grants.py`)

The registry's sections run under its lock; what a call does between them is
outside it. A thread holds the sections it still has to take, and `step` takes
one of them: between two sections of one thread any section of any other can
run. A connection is named by its grant, whose identity is minted for it.

* `hasCapacity`, `reserve`, `openReserved`, `cancel` — the reservations.
* `perform` — one section of a call, and the sections it leads to.
* `step` — the calls, and the next section of a thread.
-/

namespace SayFirst.Plane

open Py

/-! ## Grants (`domain/grant.py`) -/

structure GrantConditions where
  scope : Str
  capability : Str
  principalReference : Str
  argumentsDigest : Option Str
  deriving DecidableEq

structure GrantFields where
  grantId : Str
  decisionRef : Str
  policyVersion : Str
  issuedAt : ℤ
  lifetimeSeconds : ℤ
  expiresAt : ℤ
  heartbeatSeconds : ℤ
  conditions : GrantConditions
  deriving DecidableEq

/-- `Grant.__post_init__` -/
def GrantFields.complaint (g : GrantFields) : Option String :=
  if ¬ (1 ≤ g.lifetimeSeconds ∧ g.lifetimeSeconds ≤ 86400) then
    some "grant lifetime must be between 1 and 86400 seconds"
  else if ¬ (1 ≤ g.heartbeatSeconds ∧ g.heartbeatSeconds ≤ 60) then
    some "grant heartbeat must be between 1 and 60 seconds"
  else if g.expiresAt ≠ g.issuedAt + g.lifetimeSeconds * 1000000 then
    some "grant expiry must equal issued_at plus its lifetime"
  else none

/-- A grant the dataclass accepted. -/
structure Grant extends GrantFields where
  held : toGrantFields.complaint = none
  deriving DecidableEq

/-- The constructor: a grant, or the `ValueError` it raises. -/
def GrantFields.build (g : GrantFields) : Except String Grant :=
  match h : g.complaint with
  | none => .ok ⟨g, h⟩
  | some message => .error message

/-! ## Connections -/

inductive SignalKind where
  | heartbeat
  | grantEnded
  deriving DecidableEq, Repr

inductive GrantEndReason where
  | policyVersionChanged
  | expired
  | daemonStopping
  | connectionLost
  deriving DecidableEq, Repr

def GrantEndReason.value : GrantEndReason → Str
  | policyVersionChanged => lit "policy_version_changed"
  | expired => lit "expired"
  | daemonStopping => lit "daemon_stopping"
  | connectionLost => lit "connection_lost"

structure GrantSignal where
  kind : SignalKind
  grantId : Str
  policyVersion : Str
  at_ : ℤ
  reason : Option GrantEndReason := none
  deriving DecidableEq

/-- The connection one grant was delivered on. -/
structure GrantConnection where
  grant : Grant
  principalUid : ℕ
  live : Bool
  lastSignalAt : ℤ
  /-- Every signal appended to `_signals`, the oldest first. -/
  signals : List GrantSignal
  signalWriter : Bool
  /-- Every signal the writer took, the oldest first. -/
  written : List GrantSignal
  deriving DecidableEq

namespace GrantConnection

def made (grant : Grant) (principalUid : ℕ) (signalWriter : Bool) : GrantConnection :=
  ⟨grant, principalUid, true, grant.issuedAt, [], signalWriter, []⟩

/-- `_write` under the registry's lock; the loss of a channel that is over changes nothing. -/
def write (c : GrantConnection) (signal : GrantSignal) (taken : Bool) : GrantConnection :=
  if c.signalWriter then
    if taken then
      { c with
        written := c.written ++ [signal], signals := c.signals ++ [signal],
        lastSignalAt := signal.at_ }
    else c
  else { c with signals := c.signals ++ [signal], lastSignalAt := signal.at_ }

end GrantConnection

/-- `active` until it is opened or cancelled. -/
structure GrantReservation where
  principalUid : ℕ
  active : Bool
  deriving DecidableEq

/-! ## The registry -/

/-- The two limits, as the constructor admits them. -/
structure GrantLimits where
  maxConnectionsPerPrincipal : ℕ := 64
  maxConnections : ℕ := 1024
  perPrincipal_le : maxConnectionsPerPrincipal ≤ 4096 := by decide
  total_le : maxConnections ≤ 65536 := by decide

structure GrantConnections where
  limits : GrantLimits
  /-- The keys of `_connections`, in the order of the dictionary. -/
  registered : List Str
  /-- Every connection made so far, by its grant. -/
  connection : Str → Option GrantConnection
  reservedTotal : ℤ
  reservedByPrincipal : AList fun _ : ℕ => ℤ
  /-- Every reservation handed out so far. -/
  reservations : List GrantReservation
  stopping : Bool

namespace GrantConnections

def empty (limits : GrantLimits) : GrantConnections := ⟨limits, [], fun _ => none, 0, ∅, [], false⟩

/-- Whether the connection of a grant is of this principal. -/
def isOf (s : GrantConnections) (principalUid : ℕ) (grantId : Str) : Bool :=
  (s.connection grantId).any (·.principalUid == principalUid)

/-- `has_capacity` -/
def hasCapacity (s : GrantConnections) (principalUid : ℕ) : Bool :=
  let perPrincipal : ℤ := s.registered.countP (s.isOf principalUid) +
    (s.reservedByPrincipal.lookup principalUid).getD 0
  s.registered.length + s.reservedTotal < s.limits.maxConnections &&
    perPrincipal < s.limits.maxConnectionsPerPrincipal

/-- `reserve`: the place of the reservation among those handed out, where one is. -/
def reserve (s : GrantConnections) (principalUid : ℕ) : Option ℕ × GrantConnections :=
  if s.hasCapacity principalUid then
    (some s.reservations.length,
      { s with
        reservedTotal := s.reservedTotal + 1
        reservedByPrincipal := s.reservedByPrincipal.insert principalUid
          ((s.reservedByPrincipal.lookup principalUid).getD 0 + 1)
        reservations := s.reservations ++ [⟨principalUid, true⟩] })
  else (none, s)

/-- `_release_reservation`, and whether it returned: a principal that is not in the table
raises behind the total. -/
def releaseReservation (s : GrantConnections) (principalUid : ℕ) : Bool × GrantConnections :=
  let total := { s with reservedTotal := s.reservedTotal - 1 }
  match s.reservedByPrincipal.lookup principalUid with
  | none => (false, total)
  | some kept =>
    if kept - 1 ≠ 0 then
      (true, { total with
        reservedByPrincipal := s.reservedByPrincipal.insert principalUid (kept - 1) })
    else (true, { total with reservedByPrincipal := s.reservedByPrincipal.erase principalUid })

/-- `self._active = False` -/
def spent (s : GrantConnections) (reservation : ℕ) (principalUid : ℕ) : GrantConnections :=
  { s with reservations := s.reservations.set reservation ⟨principalUid, false⟩ }

/-- `self._connections[grant.grant_id] = connection` -/
def register (s : GrantConnections) (c : GrantConnection) : GrantConnections :=
  { s with
    registered := if c.grant.grantId ∈ s.registered then s.registered
      else s.registered ++ [c.grant.grantId]
    connection := fun g => if g = c.grant.grantId then some c else s.connection g }

/-- `GrantReservation.open`, as far as `_open_reserved` holds the lock, and whether it
registered the grant. -/
def openReserved (s : GrantConnections) (reservation : ℕ) (grant : Grant) (signalWriter : Bool) :
    Bool × GrantConnections :=
  match s.reservations[reservation]? with
  | some ⟨principalUid, true⟩ =>
    match (s.spent reservation principalUid).releaseReservation principalUid with
    | (false, s') => (false, s')
    | (true, s') => (true, s'.register (.made grant principalUid signalWriter))
  | _ => (false, s)

/-- `GrantReservation.cancel` -/
def cancel (s : GrantConnections) (reservation : ℕ) : GrantConnections :=
  match s.reservations[reservation]? with
  | some ⟨principalUid, true⟩ =>
    ((s.spent reservation principalUid).releaseReservation principalUid).2
  | _ => s

/-- A connection changed where it stands. -/
def change (s : GrantConnections) (grantId : Str) (f : GrantConnection → GrantConnection) :
    GrantConnections :=
  { s with connection := fun g => if g = grantId then (s.connection g).map f else s.connection g }

/-- `self._connections.pop(grant_id)` and `connection.live = False` -/
def pop (s : GrantConnections) (grantId : Str) : GrantConnections :=
  { s.change grantId ({ · with live := false }) with registered := s.registered.erase grantId }

end GrantConnections

/-! ## The calls in flight -/

/-- What is recorded of a grant. -/
inductive GrantEvent where
  | issued (grantId decisionRef : Str) (lifetimeSeconds : ℤ) (policyVersion : Str) (at_ : ℤ)
  | ended (grantId reason : Str) (at_ : ℤ)
  deriving DecidableEq

namespace GrantEvent

def grantId : GrantEvent → Str
  | issued grantId .. => grantId
  | ended grantId .. => grantId

/-- `grant.ended`, and not `grant.issued`. -/
def isEnd : GrantEvent → Bool
  | issued .. => false
  | ended .. => true

/-- `grant.issued` of a grant. -/
def ofGrant (g : Grant) : GrantEvent :=
  .issued g.grantId g.decisionRef g.lifetimeSeconds g.policyVersion g.issuedAt

end GrantEvent

/-- A section a thread still has to take: one under the lock, or one outside it that another
thread can see. -/
inductive GrantSection where
  /-- The turn of `policy_version_changed` at one connection of its snapshot. -/
  | compare (grantId policyVersion : Str)
  /-- The turn of `tick` at one connection of its snapshot. -/
  | visit (grantId : Str) (now : ℤ) (currentPolicyVersion : Str)
  /-- The snapshot of `shutdown`. -/
  | stopAll
  /-- A connection is ended as `daemon_stopping`. -/
  | stop (grantId : Str)
  /-- `_end`, under the lock. -/
  | endGrant (grantId : Str) (reason : GrantEndReason) (policyVersion : Str) (at_ : ℤ)
  /-- `_peer_lost`, under the lock. -/
  | peerLost (grantId reason : Str)
  /-- `_write` of a heartbeat: the call of the writer. -/
  | write (grantId : Str) (signal : GrantSignal)
  /-- `_write` of a heartbeat: `_signals.append`. -/
  | append (grantId : Str) (signal : GrantSignal)
  /-- `_write` of a heartbeat: `last_signal_at`. -/
  | heard (grantId : Str) (at_ : ℤ)
  /-- `events.record` -/
  | record (event : GrantEvent)
  deriving DecidableEq

/-- The registry, the threads that call it and what has been recorded. -/
structure GrantService where
  registry : GrantConnections
  thread : ℕ → List GrantSection
  events : List GrantEvent

inductive GrantCall where
  | reserve (principalUid : ℕ)
  | openReserved (t reservation : ℕ) (grant : Grant) (signalWriter : Bool)
  | cancel (reservation : ℕ)
  | policyVersionChanged (t : ℕ) (policyVersion : Str)
  | tick (t : ℕ) (now : ℤ) (currentPolicyVersion : Str)
  | shutdown (t : ℕ)
  | peerClosed (t : ℕ) (grantId : Str)
  | peerWrote (t : ℕ) (grantId : Str)
  | reachedItsLifetime (t : ℕ) (now : ℤ) (grantId : Str)
  /-- The next section of a thread, what its clock reads and whether the writer took the signal. -/
  | turn (t : ℕ) (now : ℤ) (taken : Bool)

namespace GrantService

def initial (limits : GrantLimits) : GrantService := ⟨.empty limits, fun _ => [], []⟩

def setThread (s : GrantService) (t : ℕ) (sections : List GrantSection) : GrantService :=
  { s with thread := fun u => if u = t then sections else s.thread u }

/-- A call begins, on a thread that is in no other. -/
def begin (s : GrantService) (t : ℕ) (sections : List GrantSection) : Option GrantService :=
  match s.thread t with
  | [] => some (s.setThread t sections)
  | _ => none

/-- One section, and the sections it leads to. -/
def perform (s : GrantService) (now : ℤ) (taken : Bool) :
    GrantSection → List GrantSection × GrantService
  | .compare grantId policyVersion =>
    match s.registry.connection grantId with
    | none => ([], s)
    | some c =>
      if c.grant.policyVersion ≠ policyVersion then
        ([.endGrant grantId .policyVersionChanged policyVersion now], s)
      else ([], s)
  | .visit grantId at_ currentPolicyVersion =>
    match s.registry.connection grantId with
    | none => ([], s)
    | some c =>
      if c.grant.expiresAt ≤ at_ then ([.endGrant grantId .expired currentPolicyVersion at_], s)
      else if c.grant.heartbeatSeconds * 1000000 ≤ at_ - c.lastSignalAt then
        ([.write grantId
          { kind := .heartbeat, grantId := c.grant.grantId, policyVersion := currentPolicyVersion,
            at_ }], s)
      else ([], s)
  | .stopAll => (s.registry.registered.map .stop, s)
  | .stop grantId =>
    match s.registry.connection grantId with
    | none => ([], s)
    | some c => ([.endGrant grantId .daemonStopping c.grant.policyVersion now], s)
  | .endGrant grantId reason policyVersion at_ =>
    if grantId ∈ s.registry.registered then
      let signal : GrantSignal :=
        { kind := .grantEnded, grantId, policyVersion, at_, reason := some reason }
      ([.record (.ended grantId reason.value at_)],
        { s with registry := (s.registry.pop grantId).change grantId (·.write signal taken) })
    else ([], s)
  | .peerLost grantId reason =>
    if grantId ∈ s.registry.registered then
      ([.record (.ended grantId reason now)], { s with registry := s.registry.pop grantId })
    else ([], s)
  | .write grantId signal =>
    match s.registry.connection grantId with
    | none => ([], s)
    | some c =>
      if c.signalWriter then
        if taken then
          ([.append grantId signal],
            { s with registry :=
                s.registry.change grantId fun c => { c with written := c.written ++ [signal] } })
        else ([.peerLost grantId (lit "connection_lost")], s)
      else ([.append grantId signal], s)
  | .append grantId signal =>
    ([.heard grantId signal.at_],
      { s with registry :=
          s.registry.change grantId fun c => { c with signals := c.signals ++ [signal] } })
  | .heard grantId at_ =>
    ([], { s with registry := s.registry.change grantId ({ · with lastSignalAt := at_ }) })
  | .record event => ([], { s with events := s.events ++ [event] })

/-- `GrantReservation.open`, up to its first record. -/
def openReserved (s : GrantService) (t reservation : ℕ) (grant : Grant) (signalWriter : Bool) :
    Option GrantService :=
  match s.registry.openReserved reservation grant signalWriter with
  | (false, registry) => s.begin t [] |>.map fun s' => { s' with registry }
  | (true, registry) =>
    s.begin t (.record (.ofGrant grant) ::
      if registry.stopping then [.stop grant.grantId] else []) |>.map fun s' => { s' with registry }

/-- A connection ends itself where it is still live. -/
def endItself (s : GrantService) (t : ℕ) (grantId : Str)
    (ending : GrantConnection → GrantSection) : Option GrantService :=
  match s.registry.connection grantId with
  | none => none
  | some c => s.begin t (if c.live then [ending c] else [])

/-- One section of one call. -/
def step (s : GrantService) : GrantCall → Option GrantService
  | .reserve principalUid => some { s with registry := (s.registry.reserve principalUid).2 }
  | .openReserved t reservation grant signalWriter =>
    -- the identity of a grant is minted for it, and is no other's
    if s.registry.connection grant.grantId = none then
      s.openReserved t reservation grant signalWriter
    else none
  | .cancel reservation => some { s with registry := s.registry.cancel reservation }
  | .policyVersionChanged t policyVersion =>
    s.begin t (s.registry.registered.map (.compare · policyVersion))
  | .tick t now currentPolicyVersion =>
    s.begin t (s.registry.registered.map (.visit · now currentPolicyVersion))
  | .shutdown t =>
    (s.begin t [.stopAll]).map fun s' => { s' with registry := { s.registry with stopping := true } }
  | .peerClosed t grantId =>
    s.endItself t grantId fun _ => .peerLost grantId (lit "connection_lost")
  | .peerWrote t grantId =>
    s.endItself t grantId fun _ => .peerLost grantId (lit "peer_wrote_on_the_stream")
  | .reachedItsLifetime t now grantId =>
    s.endItself t grantId fun c => .endGrant grantId .expired c.grant.policyVersion now
  | .turn t now taken =>
    match s.thread t with
    | [] => none
    | next :: rest =>
      let (sections, s') := s.perform now taken next
      some (s'.setThread t (sections ++ rest))

end GrantService

end SayFirst.Plane
