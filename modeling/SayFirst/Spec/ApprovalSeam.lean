import SayFirst.Lib.Interpreter
import SayFirst.Spec.ApprovalStore

/-!
# The approval seam (`plugins/approval.py`)

An approval provider is code from elsewhere: it raises anything, or answers any object, whose
members may be missing and may answer a comparison as they like. It is handed a suspension and an
act, which it may rewrite, and other threads use the store of the waits while it runs.

* `unsupportedByActs` — the judgement of an answer.
* `resumeThroughProvider` — the provider's answer is judged, applied, recorded and handed back.
* `writeResolution` — the one writer of the waits.
-/

namespace SayFirst.Plane.ApprovalSeam

open Py

/-! ## The values of the port (`plugins/interfaces.py`) -/

structure ApprovalRequest where
  approvalRef : Str
  decisionRef : Str
  scope : Str
  capability : Str
  requestedAt : ℤ
  deadline : ℤ
  held : requestedAt < deadline

structure ApprovalAction where
  approvalRef : Str
  scope : Str
  person : Str
  resolution : ApprovalResolution
  reason : Option Str
  deriving DecidableEq

structure SuspendedApproval where
  request : ApprovalRequest
  scope : Str
  held : scope = request.scope

def SuspendedApproval.approvalRef (s : SuspendedApproval) : Str := s.request.approvalRef

structure ResolvedApproval where
  approvalRef : Str
  decisionRef : Str
  scope : Str
  person : Str
  resolution : ApprovalResolution
  reason : Option Str
  deriving DecidableEq

/-- `RefusedProviderAnswer` -/
structure RefusedProviderAnswer where
  approvalRef : Str
  decisionRef : Str
  scope : Str
  person : Str
  complaint : Str

/-! ## What a provider may do -/

inductive RaisedKind where
  /-- An `ApprovalProviderError`. -/
  | providerError
  /-- Any other `Exception`. -/
  | exception
  /-- What is no `Exception`. -/
  | baseException
  deriving DecidableEq

/-- What something raises, by its kind and the name of its class. -/
structure Raised where
  kind : RaisedKind
  name : Str
  deriving DecidableEq

/-- A member of an answer: an object of any type, by what it does when it is asked. -/
structure Foreign where
  /-- `member != text` -/
  differs : Option Str → Except Raised Bool
  /-- `repr(member)` -/
  repr : Except Raised Str
  /-- The verdict the member is, where it is one. -/
  verdict : Option ApprovalResolution
  /-- `repr(member.value)` -/
  valueRepr : Except Raised Str

/-- A member as it is read: a missing one raises. -/
abbrev Member := Except Raised Foreign

/-- A value a provider answers with. -/
inductive Answer where
  /-- A value of neither class of the contract. -/
  | foreign
  /-- A `SuspendedApproval`, and what `result.request != request` answers. -/
  | suspended (approvalRef scope : Member) (otherRequest : ApprovalRequest → Except Raised Bool)
  /-- A `ResolvedApproval`. -/
  | resolved (approvalRef scope decisionRef person resolution reason : Member)

/-! ## The judgement -/

/-- What an operation on a foreign value answers, or raises. -/
abbrev Read (α : Type) := Except Raised α

/-- `member != fact` -/
def differs (member : Member) (fact : Option Str) : Read Bool := do (← member).differs fact

variable (py : Interpreter)

/-- `ApprovalResolution`'s own texts. -/
def verdictText : ApprovalResolution → Str
  | .approve => lit "approve"
  | .reject => lit "reject"

/-- The judgement of a resolution against the last act that was put. -/
def unsupportedByAct (person resolution reason : Foreign) (act : ApprovalAction) :
    Read (Option Str) := do
  if ← person.differs (some act.person) then
    return some (lit "it attributes the act of " ++ py.repr (.str act.person) ++ lit " to " ++
      (← person.repr))
  else if resolution.verdict ≠ some act.resolution then
    return some (lit "it records " ++ (← resolution.valueRepr) ++ lit " where the person's act was " ++
      py.repr (.str (verdictText act.resolution)))
  else if ← reason.differs act.reason then
    return some (lit "it rewrites the reason the person gave")
  else return none

/-- The judgement of what a resolution alone has. -/
def unsupportedResolution (decisionRef person resolution reason : Member)
    (request : ApprovalRequest) (acts : List ApprovalAction) : Read (Option Str) := do
  let decisionRef ← decisionRef
  let person ← person
  let resolution ← resolution
  let reason ← reason
  if ← decisionRef.differs (some request.decisionRef) then return some (lit "it names another decision")
  else
    match acts.getLast? with
    | none => return some (lit "no act of any person was put to it")
    | some act => unsupportedByAct py person resolution reason act

/-- The judgement of what both classes have, and then of the rest. -/
def unsupportedReferences (approvalRef scope : Member) (request : ApprovalRequest)
    (rest : Read (Option Str)) : Read (Option Str) := do
  if ← differs approvalRef (some request.approvalRef) then return some (lit "it names another approval")
  else if ← differs scope (some request.scope) then return some (lit "it names another scope")
  else rest

/-- `unsupported_by_acts`: why the answer is not derivable, or none where it is. -/
def unsupportedByActs (result : Answer) (request : ApprovalRequest) (acts : List ApprovalAction) :
    Read (Option Str) :=
  match result with
  | .foreign => .ok (some (lit "it is not a value of the ApprovalProvider v1 contract"))
  | .suspended approvalRef scope otherRequest =>
    unsupportedReferences approvalRef scope request do
      if ← otherRequest request then return some (lit "it names another suspended request")
      else return none
  | .resolved approvalRef scope decisionRef person resolution reason =>
    unsupportedReferences approvalRef scope request
      (unsupportedResolution py decisionRef person resolution reason request acts)

/-- `_acts_put_to` -/
def actsPutTo (action : ApprovalAction) (suspended : SuspendedApproval) : List ApprovalAction :=
  if action.approvalRef ≠ suspended.approvalRef ∨ action.scope ≠ suspended.scope then []
  else [action]

/-- `_resolution_of` -/
def resolutionOf (suspended : SuspendedApproval) (act : ApprovalAction) : ResolvedApproval where
  approvalRef := suspended.approvalRef
  decisionRef := suspended.request.decisionRef
  scope := suspended.scope
  person := act.person
  resolution := act.resolution
  reason := act.reason

/-! ## The seam -/

/-- What a call of a port lets see. -/
inductive Event where
  /-- The provider's answer was judged. -/
  | judged (complaint : Option Str)
  /-- The writer was handed a resolution, and ended the wait or raised. -/
  | applied (resolution : ResolvedApproval) (succeeded : Bool)
  /-- The recorder was handed the record of an act. -/
  | recorded (resolution : ResolvedApproval)
  /-- The recorder was handed a refusal. -/
  | refused (refusal : RefusedProviderAnswer)

/-- The waits, the two objects the provider is handed, and what was seen so far. -/
structure World where
  store : ApprovalStore
  suspended : SuspendedApproval
  action : ApprovalAction
  events : List Event

/-- What `resume` does: it raises or answers, and leaves the objects it was handed and the waits,
which other threads use, as it likes. -/
structure Provider where
  outcome : Except Raised Answer
  suspended : SuspendedApproval
  action : ApprovalAction
  store : ApprovalStore

/-- What the recorder does with a record, and with a refusal. -/
structure Recorder where
  record : Except Raised Unit
  recordRefusal : Except Raised Unit

/-- A writer of the waits. -/
abbrev Writer := ResolvedApproval → ApprovalStore → Except Raised Unit × ApprovalStore

inductive SeamError where
  /-- `ApprovalAnswerRefused` -/
  | answerRefused (message : Str)
  /-- `UnrecordedApprovalResolution` -/
  | unrecorded (message : Str)
  /-- What a port, the writer or the judgement raised. -/
  | raised (r : Raised)

inductive Progress where
  | suspended (held : SuspendedApproval)
  | resolved (resolution : ResolvedApproval)

abbrev Seam := EStateM SeamError World

def see (event : Event) : Seam Unit := modify fun w => { w with events := w.events ++ [event] }

/-- `try: ... except Exception as error: raise UnrecordedApprovalResolution(...)` -/
def orUnrecorded (message : Str) : Except Raised Unit → Seam Unit
  | .ok () => pure ()
  | .error r => if r.kind = .baseException then throw (.raised r) else throw (.unrecorded message)

variable (recorder : Recorder)

/-- `_record_refusal` -/
def recordRefusal (suspended : SuspendedApproval) (action : ApprovalAction) (complaint : Str) :
    Seam Unit := do
  see (.refused
    ⟨suspended.approvalRef, suspended.request.decisionRef, suspended.scope, action.person, complaint⟩)
  orUnrecorded (lit "the act on approval " ++ py.repr (.str suspended.approvalRef) ++
    lit " was refused (" ++ complaint ++ lit ") and the refusal could not be recorded")
    recorder.recordRefusal

/-- `_refuse` -/
def refuse {α : Type} (suspended : SuspendedApproval) (action : ApprovalAction) (complaint : Str) :
    Seam α := do
  recordRefusal py recorder suspended action complaint
  throw (.answerRefused (lit "provider answer for approval " ++
    py.repr (.str suspended.approvalRef) ++ lit " is refused: " ++ complaint))

/-- `provider.resume(suspended, action)` -/
def resume (provider : Provider) : Seam (Except Raised Answer) :=
  modifyGet fun w => (provider.outcome,
    { w with suspended := provider.suspended, action := provider.action, store := provider.store })

/-- What is made of an exception of the provider. -/
def providerRaised (held : SuspendedApproval) (submitted : ApprovalAction) (r : Raised) :
    Seam Progress :=
  match r.kind with
  | .providerError => do
    recordRefusal py recorder held submitted
      (lit "the provider refused the act with " ++ r.name)
    throw (.raised r)
  | .exception => refuse py recorder held submitted (lit "it raised " ++ r.name)
  | .baseException => throw (.raised r)

/-- `apply(...)` -/
def applied (apply : Option Writer) (resolution : ResolvedApproval) : Seam Unit := do
  match apply with
  | none => pure ()
  | some write =>
    match write resolution (← get).store with
    | (.ok (), store) =>
      modify fun w => { w with store }
      see (.applied resolution true)
    | (.error r, store) =>
      modify fun w => { w with store }
      see (.applied resolution false)
      throw (.raised r)

/-- What is made of a resolution that is derivable. -/
def conclude (apply : Option Writer) (held : SuspendedApproval) (act : ApprovalAction) :
    Seam Progress := do
  applied apply (resolutionOf held act)
  see (.recorded (resolutionOf held act))
  orUnrecorded (lit "approval " ++ py.repr (.str held.approvalRef) ++
    lit " resolved but could not be recorded") recorder.record
  return .resolved (resolutionOf held act)

/-- What is made of an answer. -/
def answered (apply : Option Writer) (held : SuspendedApproval) (submitted : ApprovalAction)
    (acts : List ApprovalAction) (progress : Answer) : Seam Progress := do
  match unsupportedByActs py progress held.request acts with
  | .error r => throw (.raised r)
  | .ok (some complaint) =>
    see (.judged (some complaint))
    refuse py recorder held submitted complaint
  | .ok none =>
    see (.judged none)
    match progress, acts.getLast? with
    | .resolved .., some act => conclude py recorder apply held act
    | .resolved .., none => throw (.raised ⟨.exception, lit "AssertionError"⟩)
    | _, _ => return .suspended held

/-- `resume_through_provider` -/
def resumeThroughProvider (provider : Provider) (apply : Option Writer) : Seam Progress := do
  -- the core's own copies, taken before the provider sees either object
  let held := (← get).suspended
  let submitted := (← get).action
  let acts := actsPutTo submitted held
  match ← resume provider with
  | .error r => providerRaised py recorder held submitted r
  | .ok progress => answered py recorder apply held submitted acts progress

/-! ## The writer -/

/-- What the store raises. -/
def raisedBy : ApprovalError → Raised
  | .valueError _ => ⟨.exception, lit "ValueError"⟩
  | .keyError => ⟨.exception, lit "KeyError"⟩
  | .approvalAlreadyExists => ⟨.providerError, lit "ApprovalAlreadyExists"⟩
  | .approvalAlreadyResolved => ⟨.providerError, lit "ApprovalAlreadyResolved"⟩
  | .approvalAlreadyClaimed => ⟨.exception, lit "ApprovalAlreadyClaimed"⟩
  | .approvalUnknown => ⟨.exception, lit "ApprovalUnknown"⟩

/-- `write_resolution`, where the clock reads `now`. -/
def writeResolution (now : ℤ) : Writer := fun resolved store =>
  match store.resolve (resolved.scope, resolved.approvalRef) resolved.person resolved.resolution
    resolved.reason now with
  | (.ok _, store) => (.ok (), store)
  | (.error e, store) => (.error (raisedBy e), store)

end SayFirst.Plane.ApprovalSeam
