import SayFirst.Spec.SocketClient

/-!
# The client of the local transport (`transport/socket_client.py`)

What `VerifiedConnection` makes of an answer that arrived: its status and its JSON value.
Three operations check the answer themselves; the others share `documentAnswer`.
-/

namespace SayFirst.Client

open Py
open SayFirst.Contract (Decision contractGeneration)

/-- `SUPPORTED_GENERATIONS`: the marker names no deprecated generation. -/
def supportedGenerations : List ℤ := [contractGeneration]

/-- `negotiate_generation` -/
def negotiateGeneration (supported : List ℤ) (requested : ℤ) : Option Problem :=
  if supported.contains requested then none
  else some
    { code := .known .generationUnsupported
      message := lit "contract generation " ++ intText requested ++ lit " is not supported"
      retryable := ProblemCode.retryable .generationUnsupported
      contractGeneration := some requested }

variable (py : ClientHost)

namespace VerifiedConnection

variable (negotiated : ℤ)

/-- `_problem` -/
def problem (code : ProblemCode) (message : Str) (generation : ℤ) : Problem :=
  ⟨.known code, message, code.retryable, some generation, none, false⟩

/-- `_echoed_generation` -/
def echoedGeneration : Json → Option Problem
  | .obj document =>
    match (member document "contract_generation").plainInt? with
    | none => none
    | some echoed =>
      match negotiateGeneration supportedGenerations echoed with
      | some problem => some problem
      | none =>
        if echoed ≠ negotiated then
          some (problem .generationUnsupported
            (lit "this connection was opened on contract generation " ++ intText negotiated ++
              lit " and the answer echoes " ++ intText echoed) echoed)
        else none
  | _ => none

/-- `_unreadable` -/
def unreadable {α : Type} (detail : Str) : Result α :=
  .couldNotAsk (problem .answerUnreadable
    (lit "the answer is not a document of this generation: " ++ detail) negotiated)

/-- `_classified` -/
def classified {α : Type} (document : Members) : Result α :=
  if problemClassOf (readProblem py document) = .refused then .refused (readProblem py document)
  else .couldNotAsk (readProblem py document)

/-- The complaint about a body of no use at its status. -/
def bodyAt (status : ℤ) (complaint : String) : Str :=
  lit "the body at status " ++ intText status ++ lit complaint

/-- `_classify` -/
def classify {α : Type} (status : ℤ) : Json → Result α
  | .obj document =>
    match member document "code" with
    | .str _ => classified py document
    | _ => unreadable negotiated (bodyAt status " carries no problem code")
  | _ => unreadable negotiated (bodyAt status " is not an object")

/-- `except _UNREADABLE` -/
def isUnreadable (error : ReadError) : Bool :=
  match error.kind with
  | .attributeError | .keyError | .typeError | .valueError | .overflowError => true

/-- A reader within the clause for `_UNREADABLE`. -/
def guarded {α : Type} (reading : Except ReadError (Result α)) : Except ReadError (Result α) :=
  match reading with
  | .ok result => .ok result
  | .error error =>
    if isUnreadable error then .ok (unreadable negotiated error.text) else .error error

/-- A reader that indexes its argument. -/
def indexing {α : Type} (reader : Members → Except ReadError α) : Json → Except ReadError α
  | .obj document => reader document
  | other => .error ⟨.typeError, py.memberError other⟩

/-- `read_decision`, which asks its argument for a member. -/
def decisionOf : Json → Except ReadError (Result Decision)
  | .obj document => do
    match ← readDecision py document with
    | .result result => return result
    | .value decision => return .answered decision decision.contractGeneration
  | other => .error ⟨.attributeError, py.memberError other⟩

/-- `read_whoami` -/
def readWhoami (status : ℤ) (document : Json) : Except ReadError (Result WhoAmI) :=
  match echoedGeneration negotiated document with
  | some refusal => .ok (.couldNotAsk refusal)
  | none =>
    if status ≠ 200 then .ok (classify py negotiated status document)
    else guarded negotiated do
      let value ← indexing py (whoAmIFromDocument py) document
      return .answered value value.contractGeneration

/-- `ask_decision` -/
def askDecision (status : ℤ) (answer : Json) : Except ReadError (Result Decision) :=
  match echoedGeneration negotiated answer with
  | some refusal => .ok (.couldNotAsk refusal)
  | none =>
    if status = 200 then guarded negotiated (decisionOf py answer)
    else .ok (classify py negotiated status answer)

/-- `_document_answer` -/
def documentAnswer {α : Type} (status : ℤ) (document : Json) (reader : Reader α) :
    Except ReadError (Result α) :=
  match echoedGeneration negotiated document with
  | some refusal => .ok (.couldNotAsk refusal)
  | none =>
    if status ≠ 200 then .ok (classify py negotiated status document)
    else
      match document with
      | .obj document => guarded negotiated do
        match ← reader document with
        | .result result => return result
        | .value value => return .answered value negotiated
      | _ => .ok (unreadable negotiated (bodyAt status " is not an object"))

end VerifiedConnection

/-- The document operations of both clients but the status and the evidence reads. -/
inductive SharedOperation where
  | askDecision
  | readWhoami
  | readDecision
  | readPolicyStatus
  | readApproval
  | resolveApproval
  deriving DecidableEq, Repr

/-- The operation of `SocketClient`. -/
def SharedOperation.operation : SharedOperation → Operation
  | askDecision => .askDecision
  | readWhoami => .readWhoami
  | readDecision => .readDecision
  | readPolicyStatus => .readPolicyStatus
  | readApproval => .readApproval
  | resolveApproval => .resolveApproval

/-- What `SocketClient` makes of an answer to an operation. -/
def SharedOperation.socketClient (operation : SharedOperation) (status : ℤ) (document : Members) :
    Except Raised (Result Value) :=
  interpret py status document (operation.operation.reader py) false

/-- What a `VerifiedConnection` makes of it. -/
def SharedOperation.verifiedConnection (operation : SharedOperation) (negotiated status : ℤ)
    (document : Members) : Except ReadError (Result Value) :=
  match operation with
  | .askDecision =>
    (VerifiedConnection.askDecision py negotiated status (.obj document)).map (.map .decision)
  | .readWhoami =>
    (VerifiedConnection.readWhoami py negotiated status (.obj document)).map (.map .whoami)
  | _ =>
    VerifiedConnection.documentAnswer py negotiated status (.obj document)
      (operation.operation.reader py)

end SayFirst.Client
