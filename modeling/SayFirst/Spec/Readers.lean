import SayFirst.Spec.Decision
import SayFirst.Spec.Problems

/-!
# The readers of answered documents

`from_document` of `whoami.py`, `status.py`, `decisions.py`, `policy.py`, `approvals.py` and
`grants.py`: the members in the order in which they are read, so that of two members that do
not read the exception of the first is raised.
-/

namespace SayFirst.Client

open Py
open SayFirst.Contract (Decision)
open SayFirst.Plane (Outcome Reason)

instance : StrEnum Outcome := ⟨[.allow, .deny, .suspend], Outcome.value⟩

instance : StrEnum Reason :=
  ⟨[.policyAllows, .policyDenies, .policyAbsent, .policyRequiresReview, .capabilityUnknown,
    .approvalGranted, .approvalRejected], Reason.value⟩

/-! ## What every reader asks of a document -/

/-- `document[key]` -/
def item (document : Members) (key : String) : Except ReadError Json :=
  match Json.get document key with
  | some value => .ok value
  | none => .error ⟨.keyError, 39 :: (lit key ++ [39])⟩

/-- `raise ValueError(message)` -/
def invalid {α : Type} (message : Str) : Except ReadError α := .error ⟨.valueError, message⟩

/-- A value that is an object, where any other raises `ValueError(message)`. -/
def object (message : String) : Json → Except ReadError Members
  | .obj members => .ok members
  | _ => invalid (lit message)

variable (py : ClientHost)

/-- `int(value)` -/
def whole (value : Json) : Except ReadError ℤ :=
  match value.toInt py.toInterpreter with
  | .ok n => .ok n
  | .error .overflowError => .error ⟨.overflowError, py.intError value⟩
  | .error .typeError => .error ⟨.typeError, py.intError value⟩
  | .error _ => .error ⟨.valueError, py.intError value⟩

/-- `str(document[key])` -/
def textAt (document : Members) (key : String) : Except ReadError Str :=
  (item document key).map (Json.text py.toInterpreter)

/-- `int(document[key])` -/
def wholeAt (document : Members) (key : String) : Except ReadError ℤ :=
  item document key >>= whole py

/-- `document[key] if isinstance(document[key], str) else None` -/
def stringAt (document : Members) (key : String) : Except ReadError (Option Str) :=
  (item document key).map Json.str?

/-- `read_enum(cls, document[key])` -/
def enumAt (α : Type) [StrEnum α] (document : Members) (key : String) :
    Except ReadError (Known α) :=
  (item document key).map (readEnum α py)

/-- The members a reader does not define. -/
def extra (defined : List String) (document : Members) : Members :=
  document.filter fun m => !defined.any (lit · == m.1)

/-- `iter(value)`: a text gives its characters, an object its keys. -/
def iterated : Json → Except ReadError (List Json)
  | .arr items => .ok items
  | .str s => .ok (s.map fun c => .str [c])
  | .obj members => .ok (members.map fun m => .str m.1)
  | other => .error ⟨.typeError, py.iterError other⟩

/-! ## `decisions.py` -/

/-- `Decision.from_document` -/
def decisionFromDocument (document : Members) : Except ReadError Decision := do
  match readEnum Outcome py (← item document "outcome") with
  | .unknown raw => invalid (lit "unknown outcome " ++ py.repr (.str raw))
  | .known outcome =>
    let decisionRef ← textAt py document "decision_ref"
    let scope ← textAt py document "scope"
    let capability ← textAt py document "capability"
    let reason ← enumAt py Reason document "reason"
    let policyVersion ← stringAt document "policy_version"
    let decidedAt ← textAt py document "decided_at"
    let correlation ← stringAt document "correlation"
    let contractGeneration ← wholeAt py document "contract_generation"
    return { decisionRef, scope, capability, outcome, reason := reason.text, policyVersion
             approvalRef := (member document "approval_ref").str?
             decidedAt, correlation, contractGeneration
             extra := extra ["contract_generation", "authority", "decision_ref", "scope",
               "capability", "outcome", "reason", "policy_version", "approval_ref",
               "decided_at", "correlation"] document }

/-- `read_decision`, which also gives the generation of the decision it read. -/
def readDecision : Reader Decision := fun document =>
  match readEnum Outcome py (member document "outcome") with
  | .unknown raw =>
    .ok (.result (.couldNotAsk
      { code := .known .outcomeUnknown
        message := lit "unknown decision outcome " ++ py.repr (.str raw)
        retryable := some false
        contractGeneration := (member document "contract_generation").int? }))
  | .known _ => do
    let value ← decisionFromDocument py document
    return .result (.answered value value.contractGeneration)

/-! ## `approvals.py` -/

inductive ApprovalState where
  | pending
  | approved
  | rejected
  | expired
  | unknown
  deriving DecidableEq, Repr

instance : StrEnum ApprovalState where
  members := [.pending, .approved, .rejected, .expired, .unknown]
  value
    | .pending => lit "pending"
    | .approved => lit "approved"
    | .rejected => lit "rejected"
    | .expired => lit "expired"
    | .unknown => lit "unknown"

structure Approval where
  approvalRef : Str
  decisionRef : Str
  scope : Str
  capability : Str
  state : Known ApprovalState
  requestedAt : Str
  deadline : Str
  resolvedAt : Option Str
  resolutionReason : Option Str
  contractGeneration : ℤ
  extra : Members
  person : Option Str

/-- `Approval.from_document` -/
def approvalFromDocument (document : Members) : Except ReadError Approval := do
  let approvalRef ← textAt py document "approval_ref"
  let decisionRef ← textAt py document "decision_ref"
  let scope ← textAt py document "scope"
  let capability ← textAt py document "capability"
  let state ← enumAt py ApprovalState document "state"
  let requestedAt ← textAt py document "requested_at"
  let deadline ← textAt py document "deadline"
  let resolvedAt ← stringAt document "resolved_at"
  let resolutionReason ← stringAt document "resolution_reason"
  let contractGeneration ← wholeAt py document "contract_generation"
  return { approvalRef, decisionRef, scope, capability, state, requestedAt, deadline, resolvedAt
           resolutionReason, contractGeneration
           extra := extra ["contract_generation", "authority", "approval_ref", "decision_ref",
             "scope", "capability", "state", "requested_at", "deadline", "resolved_at",
             "resolution_reason", "person"] document
           person := (member document "person").str? }

/-! ## `policy.py` -/

inductive ProjectionStep where
  | yes
  | no
  | unknown
  deriving DecidableEq, Repr

instance : StrEnum ProjectionStep where
  members := [.yes, .no, .unknown]
  value
    | .yes => lit "yes"
    | .no => lit "no"
    | .unknown => lit "unknown"

structure ProjectionStatus where
  kind : Str
  policyVersion : Option Str
  inStep : Known ProjectionStep

structure PolicyStatus where
  authority : Str
  policyVersion : Str
  format : ℤ
  loadedAt : Str
  ruleCount : ℤ
  projection : ProjectionStatus
  contractGeneration : ℤ
  extra : Members

/-- `PolicyStatus.from_document` -/
def policyStatusFromDocument (document : Members) : Except ReadError PolicyStatus := do
  let projected ← item document "projection" >>= object "projection must be an object"
  let authority ← textAt py document "authority"
  let policyVersion ← textAt py document "policy_version"
  let format ← wholeAt py document "format"
  let loadedAt ← textAt py document "loaded_at"
  let ruleCount ← wholeAt py document "rule_count"
  let kind ← textAt py projected "kind"
  let inStep ← enumAt py ProjectionStep projected "in_step"
  let contractGeneration ← wholeAt py document "contract_generation"
  return { authority, policyVersion, format, loadedAt, ruleCount
           projection := ⟨kind, (member projected "policy_version").str?, inStep⟩
           contractGeneration
           extra := extra ["authority", "policy_version", "format", "loaded_at", "rule_count",
             "projection", "contract_generation"] document }

/-! ## `status.py` -/

inductive IntegrityGrade where
  | observability
  | evidence
  | unverified
  deriving DecidableEq, Repr

instance : StrEnum IntegrityGrade where
  members := [.observability, .evidence, .unverified]
  value
    | .observability => lit "observability"
    | .evidence => lit "evidence"
    | .unverified => lit "unverified"

inductive GradeBasis where
  | callerCanWrite
  | callerCannotWrite
  | accessNotEstablished
  deriving DecidableEq, Repr

instance : StrEnum GradeBasis where
  members := [.callerCanWrite, .callerCannotWrite, .accessNotEstablished]
  value
    | .callerCanWrite => lit "caller_can_write"
    | .callerCannotWrite => lit "caller_cannot_write"
    | .accessNotEstablished => lit "access_not_established"

inductive Authority where
  | authoritative
  | projection
  | observation
  | unknown
  deriving DecidableEq, Repr

instance : StrEnum Authority where
  members := [.authoritative, .projection, .observation, .unknown]
  value
    | .authoritative => lit "authoritative"
    | .projection => lit "projection"
    | .observation => lit "observation"
    | .unknown => lit "unknown"

structure IntegrityGradeStatus where
  grade : Known IntegrityGrade
  basis : Known GradeBasis
  evaluatedAt : Str
  store : Str
  reevaluationIntervalSeconds : ℤ
  extra : Members

/-- `status.Principal` -/
structure DaemonPrincipal where
  kind : Str
  uid : ℤ
  name : Option Str

structure Status where
  contractGeneration : ℤ
  supportedGenerations : List ℤ
  integrityGrade : IntegrityGradeStatus
  privacyProvider : Str
  principal : DaemonPrincipal
  storeAuthority : Known Authority
  storeKind : Str
  extra : Members

/-- `IntegrityGradeStatus.from_document` -/
def gradeFromDocument (document : Members) : Except ReadError IntegrityGradeStatus := do
  let grade ← enumAt py IntegrityGrade document "grade"
  let basis ← enumAt py GradeBasis document "basis"
  let evaluatedAt ← textAt py document "evaluated_at"
  let store ← textAt py document "store"
  let reevaluationIntervalSeconds ← wholeAt py document "reevaluation_interval_seconds"
  return { grade, basis, evaluatedAt, store, reevaluationIntervalSeconds
           extra := extra ["grade", "basis", "evaluated_at", "store",
             "reevaluation_interval_seconds"] document }

/-- `Principal(kind=…, uid=…, name=…)` of the daemon. -/
def daemonPrincipal (principal : Members) : Except ReadError DaemonPrincipal := do
  let kind ← textAt py principal "kind"
  let uid ← wholeAt py principal "uid"
  let name ← stringAt principal "name"
  return ⟨kind, uid, name⟩

/-- What `Status.from_document` asks of three members at once. -/
def threeObjects : Json → Json → Json → Except ReadError (Members × Members × Members)
  | .obj a, .obj b, .obj c => .ok (a, b, c)
  | _, _, _ => invalid (lit "principal, integrity_grade and store must be objects")

/-- `supported_generations`, each read as an integer, holding the generation of the answer. -/
def supportedFromDocument (document : Members) : Except ReadError (ℤ × List ℤ) := do
  match ← item document "supported_generations" with
  | .arr supported =>
    match ← item document "contract_generation" with
    | .int generation =>
      let supportedGenerations ← supported.mapM (whole py)
      if supportedGenerations.contains generation then return (generation, supportedGenerations)
      else invalid (lit "supported_generations must contain contract_generation")
    | _ => invalid (lit "contract_generation must be an integer")
  | _ => invalid (lit "supported_generations must be a list")

/-- `Status.from_document` -/
def statusFromDocument (document : Members) : Except ReadError Status := do
  let principal ← item document "principal"
  let store ← item document "store"
  let integrityGrade ← item document "integrity_grade"
  let (principal, store, integrityGrade) ← threeObjects principal store integrityGrade
  let (contractGeneration, supportedGenerations) ← supportedFromDocument py document
  let integrityGrade ← gradeFromDocument py integrityGrade
  let privacyProvider ← textAt py document "privacy_provider"
  let principal ← daemonPrincipal py principal
  let storeAuthority ← enumAt py Authority store "authority"
  let storeKind ← textAt py store "kind"
  return { contractGeneration, supportedGenerations, integrityGrade, privacyProvider, principal
           storeAuthority, storeKind
           extra := extra ["contract_generation", "supported_generations", "integrity_grade",
             "privacy_provider", "principal", "store"] document }

end SayFirst.Client
