import SayFirst.Lib.Run
import SayFirst.Spec.Access
import SayFirst.Spec.GrantAsk

/-!
# Connections (`domain/connection.py`, `adapters/socket_server.py`, `adapters/http_surface.py`)

A connection carries one identity, resolved when it is accepted and again by the first
request behind its lifetime. A request is checked before its body is read, and the
decision service reads the clock of its own behind that.

* `ConnectionIdentity` — the identity, and when the directory must be asked again.
* `resolve`, `refreshIfDue` — one consultation of the directory.
* `Connection.request` — a request, up to what it asks the decision service.
-/

namespace SayFirst.Plane

open Py

deriving instance DecidableEq for PeerPrincipal

/-! ## Admission (`domain/admission.py`) -/

inductive Mode where
  | perUser
  | system
  deriving DecidableEq, Repr

/-- What the daemon is composed with. -/
structure DaemonSettings where
  mode : Mode
  daemonUid : ℕ
  socketGid : Option ℕ
  overflowUid : Option ℕ
  overflowGid : Option ℕ
  accountKinds : List (Str × Str)
  groupLifetimeSeconds : ℤ
  lifetime_held : 1 ≤ groupLifetimeSeconds ∧ groupLifetimeSeconds ≤ 3600

namespace DaemonSettings

/-- `is_unmapped` -/
def isUnmapped (d : DaemonSettings) (credential : PeerCredential) : Bool :=
  some credential.uid == d.overflowUid || some credential.gid == d.overflowGid

def notAdmitted : Str := lit "peer_not_admitted"

/-- `admit`: the refusal, or none. -/
def admits (d : DaemonSettings) (directory : AccountDirectory) (credential : PeerCredential) :
    Option Str :=
  match d.mode with
  | .perUser => if credential.uid = d.daemonUid then none else some notAdmitted
  | .system =>
    if credential.uid = 0 ∨ credential.uid = d.daemonUid then none
    else
      match d.socketGid with
      | none => some notAdmitted
      | some gid =>
        if credential.gid = gid then none
        else
          match directory.account credential.uid with
          | none => some notAdmitted
          | some account =>
            if gid ∈ directory.groupIds account.name account.primaryGid then none
            else some notAdmitted

/-- `kind_for` -/
def kindFor (d : DaemonSettings) (account : Option Account) : Str :=
  match account with
  | none => lit "user"
  | some account => (d.accountKinds.lookup account.name).getD (lit "user")

/-- The principal the directory makes of a credential. -/
def principalOf (d : DaemonSettings) (directory : AccountDirectory) (credential : PeerCredential) :
    PeerPrincipal :=
  establish directory credential (d.kindFor (directory.account credential.uid))

end DaemonSettings

/-! ## The identity -/

inductive ConnectionStatus where
  | established
  | unknown
  | refused
  deriving DecidableEq, Repr

structure ConnectionIdentity where
  peer : Option PeerCredential
  status : ConnectionStatus := .unknown
  principal : Option PeerPrincipal := none
  refusal : Option Str := none
  resolvedAt : Option ℤ := none
  refreshDueAt : Option ℤ := none
  requestsBegun : ℕ := 0
  unknownSinceRequest : Option ℕ := none

namespace ConnectionIdentity

/-- `bind`, and what it raises behind its first assignments. -/
def bind (c : ConnectionIdentity) (principal : PeerPrincipal) (at_ lifetimeSeconds : ℤ) :
    ConnectionIdentity × Option String :=
  let c := { c with
    principal := some principal, status := .established, refusal := none, resolvedAt := some at_ }
  match later at_ lifetimeSeconds with
  | .error message => (c, some message)
  | .ok due => ({ c with refreshDueAt := some due, unknownSinceRequest := none }, none)

/-- `mark_unknown`, and what it raises behind its first assignments. -/
def markUnknown (c : ConnectionIdentity) (at_ lifetimeSeconds : ℤ) :
    ConnectionIdentity × Option String :=
  let c := { c with status := .unknown, resolvedAt := some at_ }
  match later at_ lifetimeSeconds with
  | .error message => (c, some message)
  | .ok due =>
    ({ c with refreshDueAt := some due, unknownSinceRequest := some c.requestsBegun }, none)

def refuse (c : ConnectionIdentity) (code : Str) : ConnectionIdentity :=
  { c with status := .refused, refusal := some code, principal := none }

def beginRequest (c : ConnectionIdentity) : ConnectionIdentity :=
  { c with requestsBegun := c.requestsBegun + 1 }

def isDue (c : ConnectionIdentity) (now : ℤ) : Bool := c.refreshDueAt.any (· ≤ now)

def needsLookup (c : ConnectionIdentity) (now : ℤ) : Bool :=
  match c.status, c.unknownSinceRequest with
  | .unknown, some n => n < c.requestsBegun || c.isDue now
  | _, _ => c.isDue now

end ConnectionIdentity

/-! ## The directory -/

/-- One call of `resolve`: its clock, what the directory answers in time, and whether a change of
the principal could be recorded. -/
structure Lookup where
  now : ℤ
  directory : Option AccountDirectory
  recorded : Bool

/-- `_consult` -/
def consult (d : DaemonSettings) (c : ConnectionIdentity) (directory : AccountDirectory)
    (credential : PeerCredential) : Option Str × Option PeerPrincipal :=
  let refusal := d.admits directory credential
  if refusal.isSome && c.principal.isNone then (refusal, none)
  else (refusal, some (d.principalOf directory credential))

/-- `differs_beyond_establishment`, where there are two principals. -/
def differs : Option PeerPrincipal → Option PeerPrincipal → Bool
  | some before, some after => before ≠ after
  | _, _ => false

/-- `resolve`, and what it raises. -/
def resolve (d : DaemonSettings) (c : ConnectionIdentity) (lookup : Lookup) :
    ConnectionIdentity × Option String :=
  match lookup.directory, c.peer with
  | some directory, some credential =>
    let (refusal, principal) := consult d c directory credential
    if differs c.principal principal && !lookup.recorded then
      (c, some "the change was not recorded")
    else
      match refusal, principal with
      | some code, _ => (c.refuse code, none)
      | none, some principal => c.bind principal lookup.now d.groupLifetimeSeconds
      | none, none => (c, none)
  | _, _ => c.markUnknown lookup.now d.groupLifetimeSeconds

/-- `refresh_if_due`, whether it asked the directory, and what it raises. -/
def refreshIfDue (d : DaemonSettings) (c : ConnectionIdentity) (now : ℤ) (lookup : Lookup) :
    Bool × ConnectionIdentity × Option String :=
  if c.status = .refused then (false, c, none)
  else if c.needsLookup now then (true, resolve d c lookup)
  else (false, c, none)

/-! ## The requests -/

/-- A consultation of the directory, and the request it was made in. -/
structure Consultation where
  request : ℕ
  lookup : Lookup

/-- An ask that reached the decision service. -/
structure AskReached where
  request : ℕ
  status : ConnectionStatus
  principal : Principal
  /-- What the clock read when the request was checked, and in the decision service. -/
  checkedAt : ℤ
  decidedAt : ℤ

/-- What a request is, as far as its identity is not concerned. -/
inductive RequestKind where
  /-- An ask; whether what is checked before the identity's status lets it through, and what is
  checked behind it. -/
  | ask (readable ofGeneration : Bool)
  | other

structure Connection where
  identity : ConnectionIdentity
  /-- `setup` raised. -/
  defect : Bool
  closed : Bool
  /-- The consultations and the asks so far, the latest first. -/
  consulted : List Consultation
  asked : List AskReached

/-- One request: its clock, the consultation it makes where one is due, whether the exchange ends
the connection or fails in what follows, and the clock of the decision service. -/
structure RequestAct where
  kind : RequestKind
  checkedAt : ℤ
  lookup : Lookup
  closes : Bool
  decidedAt : ℤ

namespace Connection

/-- `establish`, and `on_connection` behind it: the identity is refused, or resolved once. -/
def accepted (d : DaemonSettings) (peer : Option PeerCredential) (lookup : Lookup)
    (recorded : Bool) : Connection :=
  let c : ConnectionIdentity := { peer }
  match peer with
  | none => ⟨c.refuse (lit "peer_credential_unavailable"), !recorded, false, [], []⟩
  | some credential =>
    if d.isUnmapped credential then ⟨c.refuse (lit "peer_uid_unmapped"), !recorded, false, [], []⟩
    else
      let (c, raised) := resolve d c lookup
      ⟨c, raised.isSome || !recorded, false, [⟨0, lookup⟩], []⟩

/-- `do_POST` behind the guard, up to the question for the decision service. -/
def serve (c : Connection) (r : RequestAct) : Connection :=
  let c := { c with closed := r.closes }
  match r.kind, c.identity.status, c.identity.principal with
  | .ask true true, .established, some principal =>
    { c with asked :=
        ⟨c.identity.requestsBegun, c.identity.status, decidingPrincipal principal, r.checkedAt,
          r.decidedAt⟩ :: c.asked }
  -- the assertion of `do_POST`
  | .ask true _, .refused, some _ => { c with closed := true }
  | _, _, _ => c

/-- One request: `_guard`, and what it lets through. -/
def request (d : DaemonSettings) (c : Connection) (r : RequestAct) : Option Connection :=
  if c.closed then none
  else if c.defect then some { c with closed := true }
  else
    let begun := c.identity.beginRequest
    match refreshIfDue d begun r.checkedAt r.lookup with
    | (consults, identity, raised) =>
      let c := { c with
        identity
        consulted :=
          if consults then ⟨begun.requestsBegun, r.lookup⟩ :: c.consulted else c.consulted }
      if raised.isSome then some { c with closed := true }
      else if identity.status = .refused then some { c with closed := true }
      else some (c.serve r)

end Connection

end SayFirst.Plane
