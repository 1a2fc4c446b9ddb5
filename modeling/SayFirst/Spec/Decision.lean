import SayFirst.Lib.Json
import SayFirst.Spec.Policy

/-!
# The decision record (`sayfirst_contract/decisions.py`)

`reason` is kept as its text: `read_enum` reads a text it knows into the
enumeration and keeps any other, and both go back into the document unchanged.
-/

namespace SayFirst.Contract

open Py
open SayFirst.Plane (Outcome Reason)

structure Decision where
  decisionRef : Str
  scope : Str
  capability : Str
  outcome : Outcome
  reason : Str
  policyVersion : Option Str
  approvalRef : Option Str
  decidedAt : Str
  correlation : Option Str
  contractGeneration : ℤ
  extra : List (Str × Json)

/-- `CONTRACT_GENERATION` -/
def contractGeneration : ℤ := 1

/-- The members every decision has. -/
def Decision.members (d : Decision) : List (Str × Json) :=
  [(lit "contract_generation", .int d.contractGeneration),
    (lit "authority", .str (lit "authoritative")), (lit "decision_ref", .str d.decisionRef),
    (lit "scope", .str d.scope), (lit "capability", .str d.capability),
    (lit "outcome", .str d.outcome.value), (lit "reason", .str d.reason),
    (lit "policy_version", .ofOption .str d.policyVersion),
    (lit "approval_ref", .ofOption .str d.approvalRef), (lit "decided_at", .str d.decidedAt),
    (lit "correlation", .ofOption .str d.correlation)]

/-- `to_document`: what `extra` names stands in the place of a member of that name. -/
def Decision.toDocument (d : Decision) : List (Str × Json) :=
  (d.members.filter fun m => !d.extra.any (·.1 == m.1)) ++ d.extra

end SayFirst.Contract
