import SayFirst.Spec.Acts
import SayFirst.Spec.GrantAsk

/-!
# A daemon and its boundaries

One life of a daemon, and the boundaries of the programs it governs. A question a boundary puts
reaches the daemon with the principal of its connection. The answer to an ask whose decision was
recorded is one document on that connection, and the boundary reads it for one question, or never:
a connection may be lost at any point, and the daemon serves other clients, too.

* `askDocument`, `askOf` — the question on the wire.
* `answeredDecision`, `grantDocument` — the answer on the wire.
* `Deployment.step` — a step of the daemon, of a boundary, or of a connection.
-/

namespace SayFirst

open Py
open Client (ClientHost Members)

/-! ## The documents -/

namespace Plane

/-- `DecisionAsk.to_document` -/
def askDocument (ask : DecisionAsk) : Members :=
  [(lit "contract_generation", .int Contract.contractGeneration),
    (lit "capability", .str ask.capability), (lit "scope", .str ask.scope)] ++
    (ask.argumentsDigest.map fun digest => (lit "arguments_digest", Json.str digest)).toList ++
    (ask.correlation.map fun correlation => (lit "correlation", Json.str correlation)).toList

/-- The ask `_decide` makes of a request; none where its two assertions fail. -/
def askOf (document : Members) : Option DecisionAsk := do
  let scope ← ((Json.get document "scope").getD (.str (lit "local"))).str?
  let capability ← (Json.get document "capability").bind Json.str?
  return { capability, scope
           argumentsDigest := (Json.get document "arguments_digest").bind Json.str?
           correlation := (Json.get document "correlation").bind Json.str? }

variable (host : Composition) (grants : GrantSettings)

/-- `_grant_document` -/
def grantDocument (g : GrantFields) : Members :=
  [(lit "grant_id", .str g.grantId), (lit "decision_ref", .str g.decisionRef),
    (lit "policy_version", .str g.policyVersion),
    (lit "issued_at", .str (host.instant g.issuedAt)),
    (lit "lifetime_seconds", .int g.lifetimeSeconds),
    (lit "expires_at", .str (host.instant g.expiresAt)),
    (lit "heartbeat_seconds", .int g.heartbeatSeconds),
    (lit "conditions", .obj [(lit "scope", .str g.conditions.scope),
      (lit "capability", .str g.conditions.capability),
      (lit "principal_reference", .str g.conditions.principalReference),
      (lit "arguments_digest", .ofOption .str g.conditions.argumentsDigest)])]

/-- The grant of an ask that minted one with this identity; none where nothing is minted so. -/
def minted (a : Asking) (consulted : Option Consulted) : Option Str → Option (Option Grant)
  | none => some none
  | some grantId =>
    match prepareGrant grants (recordedDecision host a consulted none)
      (a.verdict.rule.bind (·.grantLifetimeSeconds)) a.now (policyVersion host a.content) (some 0)
      grantId with
    | .ok (some grant) => some (some grant)
    | _ => none

/-- The decision of the answer: `{**extra, "grant": ...}` in the place of its `extra`. -/
def answeredDecision (a : Asking) (consulted : Option Consulted) (grantId : Option Str)
    (grant : Option Grant) : Contract.Decision :=
  { recordedDecision host a consulted grantId with
    extra := recordedExtra a grantId ++
      [(lit "grant", .ofOption (fun g => .obj (grantDocument host g.toGrantFields)) grant)] }

end Plane

/-- An answer of status 200, as a stream or as a document. -/
def Client.delivered (streamed : Bool) : Client.Response :=
  ⟨200, if streamed then .stream [] none else .document (.ok [])⟩

/-- What the client makes of an answer: none where it raises. -/
def Boundary.answerOf (py : ClientHost) (streamed : Bool) (frame : Members) : Boundary.Answer :=
  (Client.holdFrame py (Client.delivered streamed) frame).outcome.toOption

/-- An answer that is a decision. -/
def Boundary.Answer.answers : Boundary.Answer → Bool
  | some (.answered _ _, _) => true
  | _ => false

/-! ## The deployment -/

open Plane (World Composition GrantSettings DecisionAsk)
open Boundary (Acts ActEvent Settings FromIso)

deriving instance DecidableEq for DecisionAsk

/-- An answer on a connection, and the question it answers. -/
structure Reply where
  boundary : ℕ
  ask : DecisionAsk
  decision : Contract.Decision

structure Deployment where
  plane : World
  acts : ℕ → Acts
  /-- The boundary and the question an ask of the daemon is for. -/
  origin : ℕ → Option (ℕ × DecisionAsk)
  /-- The answers that are not read yet. -/
  replies : List Reply

inductive DeploymentEvent where
  /-- A step of the daemon; an ask of any other client is one. -/
  | plane (event : Plane.Event)
  /-- The question of a boundary reaches the daemon. -/
  | puts (boundary number i : ℕ) (principal : Plane.Principal)
  /-- A step of a boundary that reads no decision. -/
  | acts (boundary : ℕ) (event : ActEvent)
  /-- A boundary reads an answer to its question. -/
  | reads (boundary number reply : ℕ) (streamed : Bool)

/-- A boundary reads a decision. -/
def Boundary.ActEvent.answers : ActEvent → Bool
  | .boundary (.answer _ answer) => answer.answers
  | _ => false

namespace Deployment

variable (host : Composition) (grants : GrantSettings) (py : ClientHost) (fromIso : FromIso)
  (settings : ℕ → Settings)

def start (now : ℤ) (logs : ℕ → Boundary.OutcomeLog) : Deployment :=
  ⟨.initial now, fun b => .begin (logs b), fun _ => none, []⟩

/-- The answers a step of the daemon gives; none where the grant is not one of the ask. -/
def answering (d : Deployment) : Plane.Event → Option (List Reply)
  | .append i grantId (.position _ _) =>
    match d.plane.phase i with
    | .recording a consulted =>
      match Plane.minted host grants a consulted grantId with
      | none => none
      | some grant =>
        some ((d.origin i).map fun (boundary, ask) =>
          ⟨boundary, ask, Plane.answeredDecision host a consulted grantId grant⟩).toList
    | _ => some []
  | _ => some []

/-- What the asks are for, behind a step of the daemon. -/
def origins (d : Deployment) : Plane.Event → ℕ → Option (ℕ × DecisionAsk)
  | .ask i _ => fun j => if j = i then none else d.origin j
  | _ => d.origin

def setActs (d : Deployment) (boundary : ℕ) (acts : Acts) : Deployment :=
  { d with acts := fun b => if b = boundary then acts else d.acts b }

/-- One step of a deployment. -/
def step (d : Deployment) : DeploymentEvent → Option Deployment
  | .plane event => do
    let plane ← Plane.step host d.plane event
    let replies ← d.answering host grants event
    return { d with plane, origin := d.origins event, replies := d.replies ++ replies }
  | .puts boundary number i principal => do
    let ask ← (d.acts boundary).state.asking[number]?
    -- The question crosses the wire as its document.
    let asked ← Plane.askOf (Plane.askDocument ask)
    let plane ← Plane.step host d.plane (.ask i ⟨asked, principal⟩)
    return { d with plane, origin := fun j => if j = i then some (boundary, ask) else d.origin j }
  | .acts boundary event =>
    -- A decision is read off a connection, and by no other step.
    if event.answers then none
    else (Acts.step py fromIso (settings boundary) (d.acts boundary) event).map (d.setActs boundary)
  | .reads boundary number reply streamed => do
    let r ← d.replies[reply]?
    let ask ← (d.acts boundary).state.asking[number]?
    -- An answer is on the connection the question was put on.
    if r.boundary = boundary ∧ r.ask = ask then
      let acts ← Acts.step py fromIso (settings boundary) (d.acts boundary)
        (.boundary (.answer number (Boundary.answerOf py streamed r.decision.toDocument)))
      return { d.setActs boundary acts with replies := d.replies.eraseIdx reply }
    else none

end Deployment

end SayFirst
