import SayFirst.Lib.Interpreter
import SayFirst.Lib.Raises

/-!
# Problems and results (`sayfirst_contract/problems.py`, `values.py`, `client.py`)

The closed enumerations with their tolerant reader, the registry of problem codes, and the
three results of a question put to a control plane.
-/

namespace SayFirst.Client

open Py

abbrev Members := List (Str × Json)

/-- What `json.loads` raises: bytes that are no text, a text that is no JSON, an integer of
more digits than are converted (a plain `ValueError`), a nesting deeper than is parsed. -/
inductive LoadError where
  | unicodeDecodeError (text : Str)
  | jsonDecodeError (text : Str)
  | valueError (text : Str)
  | recursionError (text : Str)

def LoadError.text : LoadError → Str
  | unicodeDecodeError text | jsonDecodeError text | valueError text | recursionError text => text

/-- What the clients call of the interpreter, beyond what every module does. -/
structure ClientHost extends Interpreter where
  /-- The text of what `int(value)` raises. -/
  intError : Json → Str
  /-- The text of what `iter(value)` raises. -/
  iterError : Json → Str
  /-- The text of what `value["key"]` or `value.get` raises where the value is no object. -/
  memberError : Json → Str
  /-- The text of what `text.encode()` raises. -/
  encodeError : Str → Str
  /-- `json.loads` of bytes, or what it raises. -/
  loads : Bytes → Except LoadError Json

inductive ErrorKind where
  | attributeError
  | keyError
  | typeError
  | valueError
  | overflowError
  deriving DecidableEq, Repr

/-- An exception a reader raises, with its text. -/
structure ReadError where
  kind : ErrorKind
  text : Str

/-! ## Closed values -/

/-- `StrEnum`: the members of a closed set, each with its text. -/
class StrEnum (α : Type) where
  members : List α
  value : α → Str

/-- A member of a closed set, or `Unknown` with the value as it came. -/
inductive Known (α : Type) where
  | known (a : α)
  | unknown (raw : Str)
  deriving DecidableEq, Repr

/-- `read_enum` -/
def readEnum (α : Type) [StrEnum α] (py : ClientHost) : Json → Known α
  | .str raw =>
    match (StrEnum.members (α := α)).find? (StrEnum.value · == raw) with
    | some a => .known a
    | none => .unknown raw
  | other => .unknown (py.repr other)

/-- The text of a value that was read from a closed set. -/
def Known.text {α : Type} [StrEnum α] : Known α → Str
  | known a => StrEnum.value a
  | unknown raw => raw

/-! ## Problems -/

inductive ProblemCode where
  | answerUnreadable
  | approvalProviderUnavailable
  | approvalResolved
  | approvalUnknown
  | configurationWritableByPrincipal
  | decisionContended
  | decisionNotFound
  | decisionStoreUnavailable
  | delegationInvalid
  | evidenceRangeInvalid
  | evidenceStoreUnavailable
  | generationMissing
  | generationUnreadable
  | generationUnsupported
  | impostor
  | internal
  | memberUnknown
  | operationUnknown
  | outcomeUnknown
  | peerCredentialUnavailable
  | peerIdentityUnsupported
  | peerNotAdmitted
  | peerUidUnmapped
  | policyArchiveUnavailable
  | policyUnavailable
  | policyWritableByPrincipal
  | principalGroupsUnavailable
  | principalRefused
  | requestMalformed
  | scopeInvalid
  | scopeRefused
  | scopeRequired
  | serverNotTheDaemonPrincipal
  | unreachable
  deriving DecidableEq, Repr

namespace ProblemCode

def name : ProblemCode → String
  | answerUnreadable => "answer_unreadable"
  | approvalProviderUnavailable => "approval_provider_unavailable"
  | approvalResolved => "approval_resolved"
  | approvalUnknown => "approval_unknown"
  | configurationWritableByPrincipal => "configuration_writable_by_principal"
  | decisionContended => "decision_contended"
  | decisionNotFound => "decision_not_found"
  | decisionStoreUnavailable => "decision_store_unavailable"
  | delegationInvalid => "delegation_invalid"
  | evidenceRangeInvalid => "evidence_range_invalid"
  | evidenceStoreUnavailable => "evidence_store_unavailable"
  | generationMissing => "generation_missing"
  | generationUnreadable => "generation_unreadable"
  | generationUnsupported => "generation_unsupported"
  | impostor => "impostor"
  | internal => "internal"
  | memberUnknown => "member_unknown"
  | operationUnknown => "operation_unknown"
  | outcomeUnknown => "outcome_unknown"
  | peerCredentialUnavailable => "peer_credential_unavailable"
  | peerIdentityUnsupported => "peer_identity_unsupported"
  | peerNotAdmitted => "peer_not_admitted"
  | peerUidUnmapped => "peer_uid_unmapped"
  | policyArchiveUnavailable => "policy_archive_unavailable"
  | policyUnavailable => "policy_unavailable"
  | policyWritableByPrincipal => "policy_writable_by_principal"
  | principalGroupsUnavailable => "principal_groups_unavailable"
  | principalRefused => "principal_refused"
  | requestMalformed => "request_malformed"
  | scopeInvalid => "scope_invalid"
  | scopeRefused => "scope_refused"
  | scopeRequired => "scope_required"
  | serverNotTheDaemonPrincipal => "server_not_the_daemon_principal"
  | unreachable => "unreachable"

def all : List ProblemCode :=
  [answerUnreadable, approvalProviderUnavailable, approvalResolved, approvalUnknown,
    configurationWritableByPrincipal, decisionContended, decisionNotFound,
    decisionStoreUnavailable, delegationInvalid, evidenceRangeInvalid, evidenceStoreUnavailable,
    generationMissing, generationUnreadable, generationUnsupported, impostor, internal,
    memberUnknown, operationUnknown, outcomeUnknown, peerCredentialUnavailable,
    peerIdentityUnsupported, peerNotAdmitted, peerUidUnmapped, policyArchiveUnavailable,
    policyUnavailable, policyWritableByPrincipal, principalGroupsUnavailable, principalRefused,
    requestMalformed, scopeInvalid, scopeRefused, scopeRequired, serverNotTheDaemonPrincipal,
    unreachable]

instance : StrEnum ProblemCode := ⟨all, fun code => lit code.name⟩

/-- The `retryable` column of `problem-codes.json`: `problem_retryable`. -/
def retryable : ProblemCode → Option Bool
  | answerUnreadable | internal => none
  | approvalProviderUnavailable | decisionContended | decisionStoreUnavailable
  | evidenceStoreUnavailable | peerCredentialUnavailable | policyArchiveUnavailable
  | policyUnavailable | principalGroupsUnavailable | unreachable => some true
  | _ => some false

end ProblemCode

/-- The two classes of the registry. -/
inductive ProblemClass where
  | refused
  | couldNotAsk
  deriving DecidableEq, Repr

/-- The `class` column of `problem-codes.json`. -/
def ProblemCode.publishedClass : ProblemCode → ProblemClass
  | answerUnreadable | approvalProviderUnavailable | decisionContended | decisionStoreUnavailable
  | evidenceStoreUnavailable | impostor | internal | outcomeUnknown | peerCredentialUnavailable
  | peerIdentityUnsupported | policyArchiveUnavailable | policyUnavailable
  | principalGroupsUnavailable | serverNotTheDaemonPrincipal | unreachable => .couldNotAsk
  | _ => .refused

/-- `classes_by_code().get(name)` -/
def classOfName (name : Str) : Option ProblemClass :=
  (ProblemCode.all.find? (lit ·.name == name)).map (·.publishedClass)

/-- `problem_class` -/
def problemClass (code : Known ProblemCode) : ProblemClass :=
  if classOfName code.text = some .refused then .refused else .couldNotAsk

structure Problem where
  code : Known ProblemCode
  message : Str
  retryable : Option Bool
  contractGeneration : Option ℤ
  member : Option Str := none
  controlPlaneAnswered : Bool := false

/-- `problem_class_of` -/
def problemClassOf (problem : Problem) : ProblemClass :=
  if !problem.controlPlaneAnswered then .couldNotAsk else problemClass problem.code

/-- `document.get(key)`: `None` where it is absent. -/
def member (document : Members) (key : String) : Json := (Json.get document key).getD .null

/-- `read_problem` -/
def readProblem (py : ClientHost) (document : Members) : Problem where
  code := readEnum ProblemCode py (member document "code")
  message := ((Json.get document "message").getD (.str [])).text py.toInterpreter
  retryable :=
    match member document "retryable" with
    | .bool b => some b
    | _ => none
  contractGeneration := (member document "contract_generation").int?
  member := (member document "member").str?
  controlPlaneAnswered := true

/-! ## Results -/

inductive Result (α : Type) where
  | answered (value : α) (contractGeneration : ℤ)
  | refused (problem : Problem)
  | couldNotAsk (problem : Problem)

/-- `result.is_ok` -/
def Result.isOk {α : Type} : Result α → Bool
  | answered _ _ => true
  | refused _ => false
  | couldNotAsk _ => false

/-- What a reader gives: the value of a document, or a result of its own. -/
inductive Reading (α : Type) where
  | value (a : α)
  | result (r : Result α)

/-- A reader of documents. -/
abbrev Reader (α : Type) := Members → Except ReadError (Reading α)

end SayFirst.Client
