import SayFirst.Lib.Percent
import SayFirst.Lib.Template
import SayFirst.Spec.EvidenceReads
import SayFirst.Spec.VerifiedConnection

/-!
# Request targets

The targets of `binding/http_unix_socket/`, `transport/socket_client.py` and
`adapters/http_surface.py`. A client writes what it asks for into the target of its request: into a
segment of the path, or into the query behind it. The daemon reads it there again. Both take the
paths from one table of templates, and neither sees what the other meant but for the text between
them.

* `Inquiry.target` — the target a client writes.
* `Surface.matchTarget` — the operation a target names, with the values in its path.
* `Surface.request` — what a request asks of the services, or the problem it is answered with.
-/

namespace SayFirst

open Py

namespace Client

/-! ## The client's side -/

/-- The path of an operation in `ROUTES`. -/
def Operation.path : Operation → Str
  | readStatus => lit "/status"
  | readWhoami => lit "/whoami"
  | askDecision => lit "/decisions"
  | readDecision => lit "/decisions/\x7bdecision_ref\x7d"
  | readPolicyStatus => lit "/policy/status"
  | readApproval => lit "/approvals/\x7bapproval_ref\x7d"
  | resolveApproval => lit "/approvals/\x7bapproval_ref\x7d/resolution"
  | readEvidence => lit "/scopes/\x7bscope\x7d/evidence"
  | exportEvidence => lit "/scopes/\x7bscope\x7d/evidence/export"

/-- `_Operation.target` -/
def Operation.target (operation : Operation) (values : Values) : Option Str :=
  Template.fill values (Template.pieces operation.path)

/-- An operation, with what its target carries. -/
inductive Inquiry where
  | readStatus
  | readWhoami
  | askDecision
  | readDecision (scope decisionRef : Str)
  | readPolicyStatus
  | readApproval (scope approvalRef : Str)
  | resolveApproval (approvalRef : Str)
  | readEvidence (scope : Str) (fromSequence pageSize : ℤ)
  | exportEvidence (scope : Str) (fromSequence : ℤ) (toSequence : Option ℤ)
  deriving DecidableEq, Repr

namespace Inquiry

def operation : Inquiry → Operation
  | readStatus => .readStatus
  | readWhoami => .readWhoami
  | askDecision => .askDecision
  | readDecision _ _ => .readDecision
  | readPolicyStatus => .readPolicyStatus
  | readApproval _ _ => .readApproval
  | resolveApproval _ => .resolveApproval
  | readEvidence _ _ _ => .readEvidence
  | exportEvidence _ _ _ => .exportEvidence

/-- What is written into the path. -/
def parameters : Inquiry → Values
  | readStatus | readWhoami | askDecision | readPolicyStatus => []
  | readDecision _ ref => [(lit "decision_ref", ref)]
  | readApproval _ ref | resolveApproval ref => [(lit "approval_ref", ref)]
  | readEvidence scope _ _ | exportEvidence scope _ _ => [(lit "scope", scope)]

/-- `str(n)`: past 4300 digits it raises `ValueError`. -/
def written (n : ℤ) : Option Str :=
  if (decimal n.natAbs).length ≤ 4300 then some (intText n) else none

/-- What is written into the query, behind the generation; none where there is no query, and of
that none where it raises. -/
def members : Inquiry → Option (Option Values)
  | readStatus | readWhoami | askDecision | resolveApproval _ => none
  | readPolicyStatus => some (some [])
  | readDecision scope _ | readApproval scope _ => some (some [(lit "scope", scope)])
  | readEvidence _ start size => some do
    return [(lit "from_sequence", ← written start), (lit "page_size", ← written size)]
  | exportEvidence _ start none => some do
    return [(lit "from_sequence", ← written start)]
  | exportEvidence _ start (some stop) => some do
    return [(lit "from_sequence", ← written start), (lit "to_sequence", ← written stop)]

/-- The value of a variable, quoted. -/
def quoted (values : Values) : Option Values :=
  values.mapM fun value => (quote value.2).map ((value.1, ·))

/-- `f"?{query}"`, where there is one. -/
def querySuffix (generation : ℤ) : Option (Option Values) → Option Str
  | none => some []
  | some members => do
    let query ← urlencode ((lit "contract_generation", ← written generation) :: (← members))
    return 63 :: query

/-- The target of a request; none where writing it raises. -/
def target (generation : ℤ) (inquiry : Inquiry) : Option Str := do
  let path ← inquiry.operation.target (← quoted inquiry.parameters)
  return path ++ (← querySuffix generation inquiry.members)

end Inquiry

namespace VerifiedConnection

open Inquiry (written)

/-- `f"{address}?{query}"`, of the generation and these members. -/
def asked (address : Str) (generation : ℤ) (members : Values) : Option Str := do
  let query ← urlencode ((lit "contract_generation", ← written generation) :: members)
  return address ++ 63 :: query

/-- The target of a request of `VerifiedConnection`; none where writing it raises. -/
def target (generation : ℤ) : Inquiry → Option Str
  | .readStatus => some (lit "/status")
  | .readWhoami => some (lit "/whoami")
  | .askDecision => some (lit "/decisions")
  | .readDecision scope ref => do
    asked (lit "/decisions" ++ 47 :: (← quote ref)) generation [(lit "scope", scope)]
  | .readPolicyStatus => asked (lit "/policy/status") generation []
  | .readApproval scope ref => do
    asked (lit "/approvals" ++ 47 :: (← quote ref)) generation [(lit "scope", scope)]
  | .resolveApproval ref => do return lit "/approvals" ++ 47 :: (← quote ref) ++ lit "/resolution"
  | .readEvidence scope start size => do
    asked (lit "/scopes/" ++ (← quote scope) ++ lit "/evidence") generation
      [(lit "from_sequence", ← written start), (lit "page_size", ← written size)]
  | .exportEvidence scope start none => do
    asked (lit "/scopes/" ++ (← quote scope) ++ lit "/evidence/export") generation
      [(lit "from_sequence", ← written start)]
  | .exportEvidence scope start (some stop) => do
    asked (lit "/scopes/" ++ (← quote scope) ++ lit "/evidence/export") generation
      [(lit "from_sequence", ← written start), (lit "to_sequence", ← written stop)]

end VerifiedConnection

end Client

namespace Plane

open Client (Operation Method)

/-! ## The daemon's side -/

/-- What a request asks of the services. -/
inductive Routed where
  | status
  | whoami
  | policyStatus
  | decision (scope decisionRef : Str)
  | approval (scope approvalRef : Str)
  | page (scope : Str) (fromSequence pageSize : ℤ)
  | export_ (scope : Str) (fromSequence : ℤ) (toSequence : Option ℤ)
  | ask
  | resolution (approvalRef : Str)
  deriving DecidableEq, Repr

/-- A problem a request is answered with. -/
structure Refusal where
  code : String
  message : String
  deriving DecidableEq, Repr

namespace Surface

def unknown : Refusal := ⟨"operation_unknown", "operation is not defined"⟩

/-- `SERVED_OPERATIONS` -/
def servedOperations : List Operation :=
  [.readStatus, .readWhoami, .askDecision, .readDecision, .readPolicyStatus, .readApproval,
    .resolveApproval, .readEvidence, .exportEvidence]

/-- `_MATCHERS`, of one method. -/
def matchers (method : Method) : List (List Piece × Operation) :=
  (servedOperations.filter (·.method = method)).map fun operation =>
    (Template.pieces operation.path, operation)

/-- `match_target` -/
def matchTarget (method : Method) (target : Str) : Option (Operation × Values) :=
  (Template.firstMatch (matchers method) target).map fun found =>
    (found.1, found.2.map fun value => (value.1, unquote value.2))

/-- The path of the base handler: slashes before it count once. -/
def folded (target : Str) : Str :=
  match target with
  -- Two slashes would begin an authority, and `urlsplit` would take what follows for a host.
  | 47 :: 47 :: _ => 47 :: target.dropWhile (· = 47)
  | _ => target

/-- `urlsplit` of a target that begins with one slash: its path and its query. -/
def urlsplit (target : Str) : Str × Str :=
  let before := target.takeWhile (· ≠ 35)
  (before.takeWhile (· ≠ 63), (before.dropWhile (· ≠ 63)).drop 1)

/-- `_one` -/
def one (query : Values) (name : String) : Option Str :=
  match query.filter (·.1 = lit name) with
  | [(_, value)] => some value
  -- A member that is repeated counts as one that is missing.
  | _ => none

variable (py : Interpreter)

/-- `_generation_refusal` -/
def generationRefusal (query : Values) : Option Refusal :=
  match one query "contract_generation" with
  | none => some ⟨"generation_missing", "contract_generation is required"⟩
  | some raw =>
    match py.intOfText raw with
    | none => some ⟨"generation_unreadable", "contract_generation is not an integer"⟩
    | some generation =>
      if Client.supportedGenerations.contains generation then none
      else some ⟨"generation_unsupported", "contract_generation is not supported"⟩

def rangeInvalid (message : String) : Refusal := ⟨"evidence_range_invalid", message⟩

/-- `_query` (`adapters/api/evidence_routes.py`) -/
def queryValues (allowed : List String) (query : Values) : Except Refusal Values :=
  query.foldlM (m := Except Refusal) (fun (values : Values) member =>
    if member.1 ∉ allowed.map lit ∨ (values.lookup member.1).isSome then
      -- Here a repeated member is refused.
      .error (rangeInvalid "an evidence query member is repeated or unknown")
    else .ok (values ++ [member])) []

/-- `_integer`, of a member that may be left out. -/
def integer (values : Values) (name : String) : Except Refusal (Option ℤ) :=
  match values.lookup (lit name) with
  | none => .ok none
  | some text =>
    match py.intOfText text with
    | none => .error (rangeInvalid (name ++ " must be an integer"))
    | some n => .ok (some n)

/-- `_integer`, of a member that may not. -/
def required (values : Values) (name : String) : Except Refusal ℤ := do
  match ← integer py values name with
  | none => .error (rangeInvalid (name ++ " is required"))
  | some n => return n

/-- The routes of the evidence reads, up to the call of the service. -/
def readEvidence (scope : Str) (query : Values) : Except Refusal Routed := do
  let values ← queryValues ["contract_generation", "from_sequence", "page_size"] query
  let start ← required py values "from_sequence"
  let size ← integer py values "page_size"
  return .page scope start (size.getD pageBound)

def exportEvidence (scope : Str) (query : Values) : Except Refusal Routed := do
  let values ← queryValues ["contract_generation", "from_sequence", "to_sequence"] query
  return .export_ scope (← required py values "from_sequence") (← integer py values "to_sequence")

/-- The services that were composed: whether there are any, and whether these keep approvals. -/
structure Composed where
  services : Bool
  approvals : Bool

variable (composed : Composed)

/-- `parameters[name]`, of a route that has the variable. -/
def parameter (parameters : Values) (name : String) : Str :=
  (parameters.lookup (lit name)).getD []

/-- `do_GET`, behind the generation of the request. -/
def reads (operation : Operation) (parameters query : Values) : Except Refusal Routed :=
  match operation with
  | .readPolicyStatus => .ok .policyStatus
  | .readDecision =>
    .ok (.decision ((one query "scope").getD []) (parameter parameters "decision_ref"))
  | .readApproval =>
    if !composed.approvals then .error unknown
    else .ok (.approval ((one query "scope").getD []) (parameter parameters "approval_ref"))
  | .readEvidence => readEvidence py (parameter parameters "scope") query
  | _ => exportEvidence py (parameter parameters "scope") query

/-- `do_GET`, from the target on. -/
def doGet (target : Str) : Except Refusal Routed :=
  match matchTarget .get (urlsplit target).1 with
  | none => .error unknown
  -- These two are answered whatever the query says.
  | some (.readWhoami, _) => .ok .whoami
  | some (.readStatus, _) => .ok .status
  | some (operation, parameters) =>
    if !composed.services then .error unknown
    else
      match generationRefusal py (parseQsl (urlsplit target).2) with
      | some refusal => .error refusal
      | none => reads py composed operation parameters (parseQsl (urlsplit target).2)

/-- `do_POST`, from the target on. -/
def doPost (target : Str) : Except Refusal Routed :=
  match matchTarget .post (urlsplit target).1 with
  | none => .error unknown
  | some (.resolveApproval, parameters) =>
    if !(composed.services && composed.approvals) then .error unknown
    else .ok (.resolution (parameter parameters "approval_ref"))
  | some (_, _) => .ok .ask

/-- A request, from its request line on. -/
def request (method : Method) (target : Str) : Except Refusal Routed :=
  match method with
  | .get => doGet py composed (folded target)
  | .post => doPost composed (folded target)

end Surface

end Plane

end SayFirst
