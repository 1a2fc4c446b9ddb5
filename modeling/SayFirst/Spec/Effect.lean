import SayFirst.Lib.Interpreter
import SayFirst.Spec.Ask
import SayFirst.Spec.Evidence

/-!
# The effect of a decision (`_record_effect`, `emit_effect`)

`adapters/http_surface.py` copies the decision it answered with into an
`EffectDecision`, and `application/evidence_emitter.py` writes that into the body of
an effect entry. The daemon hands no payload over, so no capture is taken.
-/

namespace SayFirst.Plane

open Py

/-- `EffectDecision` -/
structure EffectDecision where
  decisionId : Str
  outcome : Outcome
  decidedAt : Instant
  policyVersion : Option Str
  reason : Str
  ruleId : Json
  argumentsDigest : Json
  correlation : Option Str
  principalReferences : List Json
  evaluationRecipe : Json
  position : Option (Str × ℤ)

/-- What `_record_effect` copies of a decision; none where `fromisoformat` raises, or reads an
instant with no offset. -/
def effectDecision (py : Interpreter) (d : Contract.Decision) (position : Option (Str × ℤ)) :
    Option EffectDecision := do
  let stamp ← py.fromIso d.decidedAt
  let decidedAt ← stamp
  let extra := fun key => (Json.get d.extra key).getD .null
  return {
    decisionId := d.decisionRef
    outcome := d.outcome
    decidedAt := decidedAt
    policyVersion := d.policyVersion
    reason := d.reason
    ruleId := extra "rule_id"
    argumentsDigest := extra "arguments_digest"
    correlation := d.correlation
    principalReferences := match extra "principal_references" with
      | .arr items => items
      | _ => []
    evaluationRecipe := extra "evaluation_recipe"
    position := position }

/-- The copied facts, recorded together or not at all. -/
def copiedFacts (d : EffectDecision) : Body :=
  match d.evaluationRecipe with
  | .null => []
  | recipe =>
    [(lit "reason", .str d.reason), (lit "rule_id", d.ruleId),
      (lit "arguments_digest", d.argumentsDigest), (lit "correlation", .ofOption .str d.correlation),
      (lit "correlation_source",
        .str (if d.correlation.isNone then lit "absent" else lit "boundary_supplied")),
      (lit "principal_references", .arr d.principalReferences),
      (lit "evaluation_recipe", recipe),
      (lit "decision_position",
        .ofOption (fun p => .obj [(lit "store_id", .str p.1), (lit "position", .int p.2)])
          d.position)]

/-- The body `emit_effect` writes; none where `decided_at` cannot be rendered. -/
def effectBody (capability recordingEpoch : Str) (d : EffectDecision) : Option Body := do
  let decidedAt ← renderInstant d.decidedAt
  return [(lit "capability", .str capability), (lit "decision_id", .str d.decisionId),
    (lit "outcome", .str d.outcome.value), (lit "decided_at", .str decidedAt),
    (lit "policy_version", .ofOption .str d.policyVersion),
    (lit "recording_epoch", .str recordingEpoch)] ++ copiedFacts d

/-- The body a decision is recorded in on the evidence chain. -/
def recordedEffect (py : Interpreter) (recordingEpoch : Str) (d : Contract.Decision)
    (position : Option (Str × ℤ)) : Option Body := do
  let copied ← effectDecision py d position
  effectBody d.capability recordingEpoch copied

/-- What the surface, the emitter and the decision store bring to the record of an effect. -/
structure Recording where
  recordingEpoch : Str
  connectionId : Str
  principal : EvidencePrincipal
  recordedAt : Instant
  storeId : Str
  position : ℤ
  /-- `recording_epoch or f"epoch:{uuid4()}"` -/
  epoch_ne : recordingEpoch ≠ []
  /-- `EvidenceConnection` requires an id, `Principal` a kind and an id. -/
  connection_ne : connectionId ≠ []
  admitted : principal.admitted = true
  /-- A store names itself, and its positions count from one. -/
  store_ne : storeId ≠ []
  position_pos : 1 ≤ position

/-- What `emit_effect` builds an `EvidenceRecord` of; none where an instant cannot be read or
rendered. -/
def Recording.effect (r : Recording) (py : Interpreter) (d : Contract.Decision) :
    Option EvidenceFields :=
  (recordedEffect py r.recordingEpoch d (some (r.storeId, r.position))).map fun body =>
    ⟨d.scope, lit "effect", r.recordedAt, r.connectionId, r.principal, body⟩

/-- The `EvidenceRecord` of the decision is accepted. -/
def Recording.Accepts (r : Recording) (py : Interpreter) (d : Contract.Decision) : Prop :=
  ∃ fields, r.effect py d = some fields ∧ fields.validate = .ok ()

end SayFirst.Plane
