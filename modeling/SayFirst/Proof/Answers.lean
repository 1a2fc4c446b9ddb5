import SayFirst.Lib.Raises
import SayFirst.Proof.ClientsAlike
import SayFirst.Spec.Deployment

/-!
# What the daemon answers, a boundary reads

* `askOf_askDocument` — the question comes back out of its document.
* `answerOf_answered` — the answer of a recorded decision is read as the decision and its grant.
-/

namespace SayFirst

open Py
open Client (ClientHost Members)

namespace Plane

variable {host : Composition}

/-- The question of a boundary reaches the daemon as it was put. -/
theorem askOf_askDocument (ask : DecisionAsk) : askOf (askDocument ask) = some ask := by
  obtain ⟨capability, scope, digest, correlation⟩ := ask
  cases digest <;> cases correlation <;> rfl

theorem toDocument_answered (a : Asking) (consulted : Option Consulted) (grantId : Option Str)
    (grant : Option Grant) : (answeredDecision host a consulted grantId grant).toDocument =
      (answeredDecision host a consulted grantId grant).members ++
        (answeredDecision host a consulted grantId grant).extra := by
  rfl

end Plane

namespace Client

variable {py : ClientHost}

/-- The grant a boundary reads. -/
def grantOf (host : Plane.Composition) (g : Plane.GrantFields) : Grant where
  grantId := g.grantId
  decisionRef := g.decisionRef
  policyVersion := g.policyVersion
  issuedAt := host.instant g.issuedAt
  lifetimeSeconds := g.lifetimeSeconds
  expiresAt := host.instant g.expiresAt
  heartbeatSeconds := g.heartbeatSeconds
  conditions := ⟨g.conditions.scope, g.conditions.capability, g.conditions.principalReference,
    g.conditions.argumentsDigest⟩

theorem grantFromDocument_grantDocument (host : Plane.Composition) (g : Plane.GrantFields) :
    grantFromDocument py (Plane.grantDocument host g) = .ok (grantOf host g) := by
  obtain ⟨a, b, c, d, e, f, h, ⟨i, j, k, l⟩⟩ := g
  cases l <;> rfl

theorem readEnum_outcome (outcome : Plane.Outcome) :
    readEnum Plane.Outcome py (.str outcome.value) = .known outcome := by
  cases outcome <;> rfl

/-- The decision of an answer reads as itself. -/
theorem readDecision_answered (host : Plane.Composition) (a : Plane.Asking)
    (consulted : Option Plane.Consulted) (grantId : Option Str) (grant : Option Plane.Grant) :
    readDecision py (Plane.answeredDecision host a consulted grantId grant).toDocument =
      .ok (.result (.answered (Plane.answeredDecision host a consulted grantId grant) 1)) := by
  have hread : decisionFromDocument py
      (Plane.answeredDecision host a consulted grantId grant).toDocument =
        .ok (Plane.answeredDecision host a consulted grantId grant) := by
    rw [Plane.toDocument_answered]
    unfold Plane.answeredDecision Plane.recordedDecision Contract.Decision.members
    generalize (consulted.map Plane.Consulted.outcome).getD a.verdict.outcome = outcome
    generalize ((consulted.map Plane.Consulted.reason).getD a.verdict.reason).value = reason
    generalize hcorrelation : a.question.ask.correlation = correlation
    generalize consulted.map Plane.Consulted.approvalRef = approvalRef
    have hreason := @readEnum_text py Plane.Reason inferInstance reason
    have hspelled : ∀ text : Option Str, (Json.ofOption .str text).str? = text := by
      intro text
      cases text <;> rfl
    refine Eq.trans (b := Except.ok
      { decisionRef := a.decisionRef
        scope := a.question.ask.scope
        capability := a.question.ask.capability
        outcome
        reason := (readEnum Plane.Reason py (.str reason)).text
        policyVersion := some (Plane.policyVersion host a.content)
        approvalRef := (Json.ofOption .str approvalRef).str?
        decidedAt := host.instant a.now
        correlation := (Json.ofOption .str correlation).str?
        contractGeneration := Contract.contractGeneration
        extra := Plane.recordedExtra a grantId ++ [(lit "grant",
          .ofOption (fun g => .obj (Plane.grantDocument host g.toGrantFields)) grant)] }) ?_ ?_
    · cases outcome <;> rfl
    · rw [hreason, hspelled, hspelled]
  unfold readDecision
  have houtcome : readEnum Plane.Outcome py (member
      (Plane.answeredDecision host a consulted grantId grant).toDocument "outcome") =
        .known (Plane.answeredDecision host a consulted grantId grant).outcome :=
    readEnum_outcome _
  rw [houtcome, hread]
  rfl

/-- **What the daemon answers, a boundary reads**: the decision, and on a stream its grant. -/
theorem answerOf_answered (streamed : Bool) (host : Plane.Composition) (a : Plane.Asking)
    (consulted : Option Plane.Consulted) (grantId : Option Str) (grant : Option Plane.Grant) :
    Boundary.answerOf py streamed
        (Plane.answeredDecision host a consulted grantId grant).toDocument =
      some (.answered (Plane.answeredDecision host a consulted grantId grant) 1,
        if streamed then some (grant.map fun g => grantOf host g.toGrantFields) else none) := by
  have hinterpret : interpret py 200
      (Plane.answeredDecision host a consulted grantId grant).toDocument (readDecision py) false =
        .ok (.answered (Plane.answeredDecision host a consulted grantId grant) 1) := by
    have hjudged := congrArg (judged 1) (@readDecision_answered py host a consulted grantId grant)
    exact hjudged
  unfold Boundary.answerOf holdFrame
  have hstatus : (delivered streamed).status = 200 := rfl
  rw [hstatus, hinterpret]
  cases streamed with
  | false => rfl
  | true =>
    have hmember :
        member (Plane.answeredDecision host a consulted grantId grant).toDocument "grant" =
        .ofOption (fun g => .obj (Plane.grantDocument host g.toGrantFields)) grant := rfl
    cases grant with
    | none => rfl
    | some g =>
      have hgrant : holdGrant py
          (Plane.answeredDecision host a consulted grantId (some g)).toDocument
          (.answered (Plane.answeredDecision host a consulted grantId (some g)) 1) =
            ⟨.ok (.answered (Plane.answeredDecision host a consulted grantId (some g)) 1,
              some (some (grantOf host g.toGrantFields))), false⟩ := by
        unfold holdGrant
        rw [hmember]
        simp only [Json.ofOption, grantFromDocument_grantDocument]
      exact congrArg (fun held => held.outcome.toOption) hgrant

end Client

end SayFirst
