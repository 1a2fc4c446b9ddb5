import SayFirst.Spec.WhoAmI

/-!
# The client of the published binding (`binding/http_unix_socket/client.py`)

One request a connection: what the HTTP library delivers of it is the input. The document
operations close their connection in every case; `holdDecision` keeps it open where it
gives a channel back.
-/

namespace SayFirst.Client

open Py
open SayFirst.Contract (Decision contractGeneration)

/-- What a call on the connection raises, with its text. -/
inductive WireFault where
  | unexpectedPeer (text : Str)
  | noPeerCredential (text : Str)
  | unsupportedPlatform (text : Str)
  | osError (text : Str)
  | httpException (text : Str)
  /-- An exception of the HTTP library outside `OSError` and `HTTPException`: the
  `OverflowError` of a declared length that no read can be asked for, say. -/
  | other (text : Str)

/-- The body of a response, by its media type. -/
inductive Content where
  /-- What `response.read()` gives. -/
  | document (body : Except WireFault Bytes)
  /-- What `response.readline()` gives, time after time, and what it raises after these
  lines; where it raises nothing the stream has ended. -/
  | stream (lines : List Bytes) (fault : Option WireFault)

structure Response where
  status : ℤ
  content : Content

/-- What becomes of a request: `connection.request`, then `connection.getresponse`. -/
structure Exchange where
  request : Except WireFault Unit
  response : Except WireFault Response

/-- An exception that leaves an operation. -/
inductive Raised where
  | wire (fault : WireFault)
  | load (error : LoadError)
  | read (error : ReadError)

/-! ## Reading the answer off the wire -/

/-- `line.rstrip(b"\r\n")` -/
def stripLine (line : Bytes) : Bytes :=
  (line.reverse.dropWhile fun b => b == 13 || b == 10).reverse

/-- `b"data: "` -/
def dataPrefix : Bytes := [100, 97, 116, 97, 58, 32]

/-- The data of the first frame: what it has carried when a blank line or the end of the
stream is read. -/
def frameData (payload : Bytes) : List Bytes → Option WireFault → Except WireFault Bytes
  | [], some fault => .error fault
  | [], none => .ok payload
  | line :: lines, fault =>
    if line.isEmpty then .ok payload
    else
      let stripped := stripLine line
      if stripped.isEmpty then
        if payload.isEmpty then frameData payload lines fault else .ok payload
      else if dataPrefix.isPrefixOf stripped then
        frameData (stripped.drop dataPrefix.length) lines fault
      else frameData payload lines fault

/-- `_first_frame` -/
def firstFrame (lines : List Bytes) (fault : Option WireFault) : Except WireFault Bytes := do
  let payload ← frameData [] lines fault
  if payload.isEmpty then
    .error (.httpException (lit "the answered stream carried no frame"))
  else return payload

variable (py : ClientHost)

/-- `_next_frame`: `None` once the stream has ended. -/
def nextFrame (lines : List Bytes) (fault : Option WireFault) : Except Raised (Option Json) :=
  match frameData [] lines fault with
  | .error fault => .error (.wire fault)
  | .ok [] => .ok none
  | .ok payload =>
    match py.loads payload with
    | .error error => .error (.load error)
    | .ok value => .ok (some value)

/-! ## Problems of the client's own -/

/-- `_client_problem` -/
def clientProblem {α : Type} (code : ProblemCode) (message : Str)
    (generation : Option ℤ) (repeatable : Bool) : Result α :=
  .couldNotAsk ⟨.known code, message, if repeatable then code.retryable else none, generation,
    none, false⟩

def ownProblem {α : Type} (code : ProblemCode) (message : Str) : Result α :=
  clientProblem code message (some contractGeneration) true

def unreadable {α : Type} (message : Str) : Result α := ownProblem .answerUnreadable message

/-- The complaint about the generation a response echoed. -/
def generationProblem {α : Type} (echoed : Json) (generation : Option ℤ) : Result α :=
  clientProblem .generationUnsupported
    (lit "response echoed contract generation " ++ py.repr echoed ++ lit ", expected " ++
      intText contractGeneration) generation true

/-! ## A document operation -/

inductive Method where
  | get
  | post
  deriving DecidableEq, Repr

/-- `method in _WRITES` -/
def Method.writes : Method → Bool
  | get => false
  | post => true

/-- What the clauses around the request answer; none where they let the exception pass. -/
def wireProblem {α : Type} (method : Method) (sent : Bool) : WireFault → Option (Result α)
  | .unexpectedPeer text => some (ownProblem .impostor text)
  | .noPeerCredential text => some (ownProblem .peerCredentialUnavailable text)
  | .unsupportedPlatform _ => none
  | .osError text =>
    some (clientProblem .unreachable text (some contractGeneration) (!(sent && method.writes)))
  | .httpException text => some (unreadable text)
  | .other _ => none

/-- The bytes of an answer: the first frame of a stream, the whole of a document. -/
def Response.payload (response : Response) : Except WireFault Bytes :=
  match response.content with
  | .document body => body
  | .stream lines fault => firstFrame lines fault

/-- A call that raised: the answer of the clause around it, or the exception. -/
def caught {α β : Type} (method : Method) (sent : Bool) (fault : WireFault) :
    Except Raised (β ⊕ Result α) :=
  match wireProblem method sent fault with
  | some result => .ok (.inr result)
  | none => .error (.wire fault)

/-- `_request`: the status and the document of the answer, or the problem there was. -/
def request {α : Type} (method : Method) (exchange : Exchange) :
    Except Raised ((ℤ × Members) ⊕ Result α) :=
  match exchange.request with
  | .error fault => caught method false fault
  | .ok () =>
    match exchange.response with
    | .error fault => caught method true fault
    | .ok response =>
      match response.payload with
      | .error fault => caught method true fault
      | .ok payload =>
        match py.loads payload with
        | .error error => .ok (.inr (unreadable error.text))
        | .ok (.obj document) => .ok (.inl (response.status, document))
        | .ok _ => .ok (.inr (unreadable (lit "response document is not an object")))

/-- `except (KeyError, TypeError, ValueError)` -/
def ReadError.isCaught (error : ReadError) : Bool :=
  match error.kind with
  | .keyError | .typeError | .valueError => true
  | .attributeError | .overflowError => false

/-- The reader within its clause, and what is made of its value. -/
def judged {α : Type} (generation : ℤ) : Except ReadError (Reading α) → Except Raised (Result α)
  | .error error => if error.isCaught then .ok (unreadable error.text) else .error (.read error)
  | .ok (.result result) => .ok result
  | .ok (.value value) => .ok (.answered value generation)

/-- `_interpret` -/
def interpret {α : Type} (status : ℤ) (payload : Members) (reader : Reader α)
    (acceptServerGeneration : Bool) : Except Raised (Result α) :=
  match (member payload "contract_generation").plainInt? with
  | none => .ok (generationProblem py (member payload "contract_generation") none)
  | some generation =>
    if status ≠ 200 then
      let problem := readProblem py payload
      if problem.code ≠ .known .generationUnsupported ∧ generation ≠ contractGeneration then
        .ok (generationProblem py (.int generation) (some generation))
      else if problemClassOf problem = .couldNotAsk then .ok (.couldNotAsk problem)
      else .ok (.refused problem)
    else if !acceptServerGeneration ∧ generation ≠ contractGeneration then
      .ok (generationProblem py (.int generation) (some generation))
    else judged generation (reader payload)

/-- `_read` -/
def read {α : Type} (method : Method) (exchange : Exchange) (reader : Reader α)
    (acceptServerGeneration : Bool) : Except Raised (Result α) := do
  match ← request py method exchange with
  | .inr result => return result
  | .inl (status, payload) => interpret py status payload reader acceptServerGeneration

/-- `_evidence_read` -/
def evidenceRead (exchange : Exchange) : Except Raised (Result Members) := do
  match ← request py .get exchange with
  | .inr result => return result
  | .inl (status, payload) =>
    if status ≠ 200 then interpret py status payload (fun d => .ok (.value d)) false
    else
      let version := member payload "contract_version"
      if version.str? ≠ some (intText contractGeneration) then
        return ownProblem .generationUnsupported
          (lit "response carries contract version " ++ py.repr version ++ lit ", expected " ++
            py.repr (.str (intText contractGeneration)))
      else return .answered payload contractGeneration

/-! ## The operations -/

/-- The document operations of the client. -/
inductive Operation where
  | readStatus
  | readWhoami
  | askDecision
  | readApproval
  | readDecision
  | readPolicyStatus
  | readEvidence
  | exportEvidence
  | resolveApproval
  deriving DecidableEq, Repr

/-- The method the binding publishes for an operation. -/
def Operation.method : Operation → Method
  | askDecision | resolveApproval => .post
  | _ => .get

/-- What an operation answers. -/
inductive Value where
  | status (value : Status)
  | whoami (value : WhoAmI)
  | decision (value : Decision)
  | approval (value : Approval)
  | policyStatus (value : PolicyStatus)
  | evidence (value : Members)

def Result.map {α β : Type} (f : α → β) : Result α → Result β
  | answered value generation => answered (f value) generation
  | refused problem => refused problem
  | couldNotAsk problem => couldNotAsk problem

def Reading.map {α β : Type} (f : α → β) : Reading α → Reading β
  | value a => value (f a)
  | result r => result (r.map f)

/-- A reader of values as a reader of documents. -/
def valueReader {α : Type} (from_document : Members → Except ReadError α) (f : α → Value) :
    Reader Value := fun document => (from_document document).map fun a => .value (f a)

/-- The reader an operation hands to `_read`. -/
def Operation.reader : Operation → Reader Value
  | readStatus => valueReader (statusFromDocument py) .status
  | readWhoami => valueReader (whoAmIFromDocument py) .whoami
  | askDecision | readDecision => fun document => (Client.readDecision py document).map (.map .decision)
  | readApproval | resolveApproval => valueReader (approvalFromDocument py) .approval
  | readPolicyStatus => valueReader (policyStatusFromDocument py) .policyStatus
  | readEvidence | exportEvidence => fun document => .ok (.value (.evidence document))

/-- An operation of `SocketClient` over what became of its request. -/
def perform (operation : Operation) (exchange : Exchange) : Except Raised (Result Value) :=
  match operation with
  | .readEvidence | .exportEvidence => (evidenceRead py exchange).map (.map .evidence)
  | .readStatus => read py operation.method exchange (operation.reader py) true
  | _ => read py operation.method exchange (operation.reader py) false

/-! ## `hold_decision` -/

/-- What a hold leaves: its outcome, with the grant of the channel where it gives one, and
whether it closed its connection. -/
structure Held where
  outcome : Except Raised (Result Decision × Option (Option Grant))
  closed : Bool

/-- `connection.close(); return result, None` -/
def Held.givenUp (result : Result Decision) : Held := ⟨.ok (result, none), true⟩

/-- An exception that leaves `hold_decision`: nothing closes the connection. -/
def Held.raised (error : Raised) : Held := ⟨.error error, false⟩

/-- The clauses around the request of a hold. -/
def holdFault (sent : Bool) : Raised → Held
  | .wire (.unsupportedPlatform text) => .givenUp (ownProblem .peerIdentityUnsupported text)
  | .wire fault =>
    match wireProblem .post sent fault with
    | some result => .givenUp result
    | none => .raised (.wire fault)
  | .load (.valueError text) => .raised (.load (.valueError text))
  | .load error => .givenUp (unreadable error.text)
  | .read error => .raised (.read error)

/-- The frame that answers: of a stream, the next one; of a document, its value. -/
def Response.frame (response : Response) : Except Raised (Option Json) :=
  match response.content with
  | .stream lines fault => nextFrame py lines fault
  | .document (.error fault) => .error (.wire fault)
  | .document (.ok body) =>
    match py.loads body with
    | .error error => .error (.load error)
    | .ok value => .ok (some value)

def Response.streamed (response : Response) : Bool :=
  match response.content with
  | .stream _ _ => true
  | .document _ => false

/-- The channel of an answer that reads. -/
def holdGrant (frame : Members) (result : Result Decision) : Held :=
  match member frame "grant" with
  | .obj held =>
    match grantFromDocument py held with
    | .ok grant => ⟨.ok (result, some (some grant)), false⟩
    | .error error =>
      if error.isCaught then
        .givenUp (unreadable (lit "the grant does not read: " ++ error.text))
      else .raised (.read error)
  | _ => ⟨.ok (result, some none), false⟩

/-- `hold_decision`, from the frame on. -/
def holdFrame (response : Response) (frame : Members) : Held :=
  match interpret py response.status frame (readDecision py) false with
  | .error error => .raised error
  | .ok result =>
    if !result.isOk || !response.streamed then .givenUp result else holdGrant py frame result

/-- `hold_decision` -/
def holdDecision (exchange : Exchange) : Held :=
  match exchange.request with
  | .error fault => holdFault false (.wire fault)
  | .ok () =>
    match exchange.response with
    | .error fault => holdFault true (.wire fault)
    | .ok response =>
      match response.frame py with
      | .error error => holdFault true error
      | .ok (some (.obj frame)) => holdFrame py response frame
      | .ok _ => .givenUp (unreadable (lit "the stream carried no answer"))

end SayFirst.Client
