import SayFirst.Spec.Ask
import SayFirst.Spec.Grants

/-!
# The grant of an ask (`application/decisions.py`)

`ask` reserves a slot before its decision is appended and opens it after the
answer is delivered. A `GrantHost` is the registry and the asks between the two:
`step` is one act of one of them, with every way a collaborator can answer it.

* `prepareGrant` — `_prepare_grant`.
* `AskStage` — where an ask stands between two of its calls.
* `step` — the acts.
-/

namespace SayFirst.Plane

open Py

/-- `GrantSettings`, as `__post_init__` admits them. -/
structure GrantSettings where
  defaultLifetimeSeconds : ℤ := 300
  maxLifetimeSeconds : ℤ := 3600
  heartbeatSeconds : ℤ := 5
  max_held : 1 ≤ maxLifetimeSeconds ∧ maxLifetimeSeconds ≤ 86400 := by decide
  default_held : 1 ≤ defaultLifetimeSeconds ∧ defaultLifetimeSeconds ≤ maxLifetimeSeconds := by
    decide
  heartbeat_held : 1 ≤ heartbeatSeconds ∧ heartbeatSeconds ≤ 60 := by decide

/-- `datetime.max`, in UTC. -/
def latestInstant : ℤ := 253402300799999999

/-- `now + timedelta(seconds=seconds)` -/
def later (now seconds : ℤ) : Except String ℤ :=
  if now + seconds * 1000000 ≤ latestInstant then .ok (now + seconds * 1000000)
  else .error "date value out of range"

/-- `mint_grant` (`domain/grant.py`), with the identity `uuid4` gave it. -/
def mintGrant (decision : Contract.Decision) (now lifetimeSeconds : ℤ) (policyVersion : Str)
    (heartbeatSeconds : ℤ) (grantId : Str) : Except String Grant :=
  if decision.outcome ≠ .allow then .error "only allow decisions can be cached"
  else if decision.policyVersion ≠ some policyVersion then
    .error "grant policy version must equal its decision's version"
  else
    let principalName : Option Json :=
      match Json.get decision.extra "principal" with
      | some (.obj principal) => Json.get principal "name"
      | _ => none
    match principalName, Json.get decision.extra "arguments_digest" with
    | some (.str name), some (.str digest) => mint name (some digest)
    | some (.str name), some .null => mint name none
    | _, _ => .error "decision lacks its pinned grant conditions"
where
  mint (name : Str) (argumentsDigest : Option Str) : Except String Grant := do
    let expiresAt ← later now lifetimeSeconds
    { grantId, decisionRef := decision.decisionRef, policyVersion, issuedAt := now,
      lifetimeSeconds, expiresAt, heartbeatSeconds,
      conditions := ⟨decision.scope, decision.capability, lit "user:" ++ name, argumentsDigest⟩ :
      GrantFields }.build

/-- The smallest of the bounds there are. -/
def grantLifetime (settings : GrantSettings) (ruleLifetime : Option ℤ) : ℤ :=
  let own := min settings.defaultLifetimeSeconds settings.maxLifetimeSeconds
  match ruleLifetime with
  | some bound => min bound own
  | none => own

/-- `_prepare_grant` -/
def prepareGrant (settings : GrantSettings) (decision : Contract.Decision)
    (ruleLifetime : Option ℤ) (now : ℤ) (policyVersion : Str) (reservation : Option ℕ)
    (grantId : Str) : Except String (Option Grant) :=
  if decision.outcome ≠ .allow ∨ reservation = none then .ok none
  else
    (mintGrant decision now (grantLifetime settings ruleLifetime) policyVersion
      settings.heartbeatSeconds grantId).map some

/-- What `_consult_approvals` can answer: an allow spends an approval, and only a suspension
opens a wait. -/
def Consulted.possible (c : Consulted) : Bool :=
  match c.outcome with
  | .allow => c.spend && !c.opened
  | .deny => !c.spend && !c.opened
  | .suspend => !c.spend

/-- An ask from its reservation on. -/
structure GrantAsk where
  asking : Asking
  consulted : Option Consulted
  reservation : Option ℕ
  signalWriter : Bool
  delivers : Bool

/-- How a call of a collaborator ends: `escaped` is what `except Exception` does not catch. -/
inductive CallFate where
  | returned
  | raised
  | escaped
  deriving DecidableEq, Repr

inductive AppendFate where
  | receipt
  | indeterminate
  | raised
  | escaped
  deriving DecidableEq, Repr

/-- Where an ask stands between two of its calls. -/
inductive AskStage where
  | idle
  | preparing (ask : GrantAsk)
  | appending (ask : GrantAsk) (grant : Option Grant)
  /-- `_publish_opened` behind an append that may have committed. -/
  | publishingUnsure (ask : GrantAsk)
  /-- `_consume_claimed` -/
  | consumingUnsure (ask : GrantAsk)
  | cancelling (ask : GrantAsk) (reservation : ℕ)
  /-- `_publish_opened` behind the record. -/
  | publishing (ask : GrantAsk) (grant : Option Grant)
  /-- `core_owned_position` -/
  | reading (ask : GrantAsk) (grant : Option Grant)
  /-- `approvals.consume` -/
  | spending (ask : GrantAsk) (grant : Option Grant)
  /-- `decision.recorded` -/
  | announcing (ask : GrantAsk) (grant : Option Grant)
  | delivering (ask : GrantAsk) (grant : Grant) (reservation : ℕ)
  /-- Also a call of `GrantConnections.open`, which no ask makes. -/
  | opening (grant : Grant) (signalWriter : Bool) (reservation : ℕ)

namespace AskStage

/-- The reservation an ask holds. -/
def reservation : AskStage → Option ℕ
  | idle => none
  | preparing ask | appending ask _ | publishingUnsure ask | consumingUnsure ask | publishing ask _
  | reading ask _ | spending ask _ | announcing ask _ => ask.reservation
  | cancelling _ r | delivering _ _ r | opening _ _ r => some r

/-- `if reservation is not None: reservation.cancel()`, and the ask is over. -/
def cancelled (ask : GrantAsk) : AskStage :=
  match ask.reservation with
  | some r => .cancelling ask r
  | none => .idle

/-- `_consume_claimed`, where there is something to spend. -/
def unsureConsumption (ask : GrantAsk) : AskStage :=
  if ask.consulted.any (·.spend) then .consumingUnsure ask else cancelled ask

/-- The branch of an append that may have committed. -/
def unsure (ask : GrantAsk) : AskStage :=
  if ask.consulted.any (·.opened) then .publishingUnsure ask else unsureConsumption ask

/-- The branch of a record that exists. -/
def recorded (ask : GrantAsk) (grant : Option Grant) : AskStage :=
  if ask.consulted.any (·.opened) then .publishing ask grant else .reading ask grant

def positioned (ask : GrantAsk) (grant : Option Grant) : AskStage :=
  if ask.consulted.any (·.spend) then .spending ask grant else .announcing ask grant

/-- The answer, where there is a grant to deliver it with. -/
def answered (ask : GrantAsk) (grant : Option Grant) : AskStage :=
  match grant, ask.reservation with
  | some grant, some r =>
    if ask.delivers then .delivering ask grant r else .opening grant ask.signalWriter r
  | _, _ => .idle

/-- Where the end of a call leaves an ask; `none` where no collaborator is called. -/
def answer : AskStage → CallFate → Option AskStage
  | publishingUnsure _, .escaped => some .idle
  | publishingUnsure ask, _ => some (unsureConsumption ask)
  | consumingUnsure _, .escaped => some .idle
  | consumingUnsure ask, _ => some (cancelled ask)
  | publishing _ _, .escaped => some .idle
  | publishing ask grant, _ => some (.reading ask grant)
  | reading ask grant, .returned => some (positioned ask grant)
  | reading ask _, .raised => some (unsureConsumption ask)
  | reading _ _, .escaped => some .idle
  | spending ask grant, .returned => some (.announcing ask grant)
  | spending ask _, .raised => some (cancelled ask)
  | spending _ _, .escaped => some .idle
  | announcing ask grant, .returned => some (answered ask grant)
  -- nothing between the record and the answer gives the reservation back
  | announcing _ _, _ => some .idle
  | delivering ask grant r, .returned => some (.opening grant ask.signalWriter r)
  | delivering ask _ r, .raised => some (.cancelling ask r)
  | delivering _ _ _, .escaped => some .idle
  | _, _ => none

end AskStage

/-- The registry, and the asks that hold or may hold a reservation of it. -/
structure GrantHost where
  service : GrantService
  stage : ℕ → AskStage

inductive GrantAct where
  /-- A call of the registry that takes no reservation, or a section of one. -/
  | service (call : GrantCall)
  /-- `events.record` raised, and the call of the thread with it. -/
  | sinkRaised (t : ℕ)
  /-- `GrantConnections.open`: it reserves, and opens in a second section. -/
  | openGrant (i principalUid : ℕ) (grant : Grant) (signalWriter : Bool)
  /-- An ask comes to its reservation. -/
  | reserve (i : ℕ) (asking : Asking) (consulted : Option Consulted)
      (grantConnection signalWriter delivers : Bool)
  /-- `_prepare_grant`, with the identity `uuid4` gave or none where it raised. -/
  | prepare (i : ℕ) (grantId : Option Str)
  | append (i : ℕ) (fate : AppendFate)
  | answer (i : ℕ) (fate : CallFate)
  | cancel (i : ℕ)
  | openReserved (i : ℕ)

/-- The calls that take, open or cancel a reservation. -/
def GrantCall.reserves : GrantCall → Bool
  | .reserve .. | .openReserved .. | .cancel .. => true
  | _ => false

namespace GrantHost

def initial (limits : GrantLimits) : GrantHost := ⟨.initial limits, fun _ => .idle⟩

def setStage (s : GrantHost) (i : ℕ) (stage : AskStage) : GrantHost :=
  { s with stage := fun j => if j = i then stage else s.stage j }

/-- What `_prepare_grant` answers an ask, where it returns. -/
def prepared (host : Composition) (settings : GrantSettings) (ask : GrantAsk)
    (grantId : Option Str) : Option (Option Grant) :=
  if ask.reservation.isSome && grantId.isNone then none
  else
    (prepareGrant settings (recordedDecision host ask.asking ask.consulted none)
      (ask.asking.verdict.rule.bind (·.grantLifetimeSeconds)) ask.asking.now
      (policyVersion host ask.asking.content) ask.reservation (grantId.getD [])).toOption

/-- One act. -/
def step (host : Composition) (settings : GrantSettings) (s : GrantHost) :
    GrantAct → Option GrantHost
  | .service call =>
    if call.reserves then none else (s.service.step call).map fun service => { s with service }
  | .sinkRaised t =>
    match s.service.thread t with
    | .record _ :: _ => some { s with service := s.service.setThread t [] }
    | _ => none
  | .openGrant i principalUid grant signalWriter =>
    match s.stage i, s.service.registry.reserve principalUid with
    | .idle, (none, _) => some s
    | .idle, (some r, registry) =>
      some ({ s with service := { s.service with registry } }.setStage i
        (.opening grant signalWriter r))
    | _, _ => none
  | .reserve i asking consulted grantConnection signalWriter delivers =>
    if (consulted.map (·.possible)).getD true then
      match s.stage i with
      | .idle =>
        if World.mayGrant asking consulted && (grantConnection || signalWriter) then
          let (reservation, registry) :=
            s.service.registry.reserve asking.question.principal.uid
          some ({ s with service := { s.service with registry } }.setStage i
            (.preparing ⟨asking, consulted, reservation, signalWriter, delivers⟩))
        else some (s.setStage i (.preparing ⟨asking, consulted, none, signalWriter, delivers⟩))
      | _ => none
    else none
  | .prepare i grantId =>
    match s.stage i with
    | .preparing ask =>
      match prepared host settings ask grantId with
      | none => some (s.setStage i .idle)
      | some grant => some (s.setStage i (.appending ask grant))
    | _ => none
  | .append i fate =>
    match s.stage i with
    | .appending ask grant =>
      some (s.setStage i
        (match fate with
          | .receipt => .recorded ask grant
          | .indeterminate => .unsure ask
          | .raised => .cancelled ask
          | .escaped => .idle))
    | _ => none
  | .answer i fate => ((s.stage i).answer fate).map (s.setStage i)
  | .cancel i =>
    match s.stage i with
    | .cancelling _ r =>
      (s.service.step (.cancel r)).map fun service => { s with service }.setStage i .idle
    | _ => none
  | .openReserved i =>
    match s.stage i with
    | .opening grant signalWriter r =>
      (s.service.step (.openReserved i r grant signalWriter)).map fun service =>
        { s with service }.setStage i .idle
    | _ => none

end GrantHost

end SayFirst.Plane
