import SayFirst.Lib.Run
import SayFirst.Spec.ApprovalStore
import SayFirst.Spec.Decision

/-!
# The asks of a daemon (`application/decisions.py`)

A `World` is one approval store, the asks in flight over it and what the decision
store has taken. `step` is one atomic act: a store operation under its lock, an
append, a resolution, a sweep. Between two acts of one ask any act of any other
can happen.

* `consult` — one look of `_consult_approvals`.
* `recordedDecision` — the decision `ask` builds.
* `step` — the acts, with every way an ask can leave each of its points.
-/

namespace SayFirst.Plane

open Py

/-- What the daemon is composed with, and the parts of its host it calls. -/
structure Composition where
  toml : TomlLib
  /-- `hashlib.sha256(raw).hexdigest()` -/
  sha256 : List UInt8 → Str
  /-- `_instant`, on an instant in microseconds. -/
  instant : ℤ → Str
  maxLifetimeSeconds : ℤ
  /-- Whether an approval store and its provider are composed. -/
  approvals : Bool

/-- `_CLAIM_TRIES` -/
def claimTries : ℕ := 5

/-- `_NO_DIGEST` -/
def noDigest : Str := lit "-"

/-- `EVALUATION_RECIPE` -/
def evaluationRecipe : Str := lit "sayfirst/policy-evaluation/v1"

/-- `policy_version` -/
def policyVersion (host : Composition) (raw : List UInt8) : Str := lit "sha256:" ++ host.sha256 raw

/-- `question.ask.arguments_digest or _NO_DIGEST` -/
def DecisionAsk.digestOrNone (ask : DecisionAsk) : Str :=
  match ask.argumentsDigest with
  | some (c :: cs) => c :: cs
  | _ => noDigest

/-- The question an approval of this ask answers. -/
def DecisionQuestion.asked (q : DecisionQuestion) : Question where
  scope := q.ask.scope
  principalReference := q.principal.reference
  capability := q.ask.capability
  argumentsDigest := q.ask.digestOrNone

/-- What consulting the approval store made of a `suspend` verdict. -/
structure Consulted where
  outcome : Outcome
  reason : Reason
  approvalRef : Str
  spend : Bool
  opened : Bool
  deriving DecidableEq

/-- What an ask holds between its evaluation and its record. -/
structure Asking where
  question : DecisionQuestion
  content : List UInt8
  policy : Policy
  verdict : Verdict
  decisionRef : Str
  now : ℤ

/-- The members of the record beside the published ones. -/
def recordedExtra (a : Asking) (grantId : Option Str) : List (Str × Json) :=
  [(lit "principal", .obj [(lit "kind", .str a.question.principal.kind),
      (lit "uid", .int a.question.principal.uid),
      (lit "name", .str a.question.principal.userName)]),
    (lit "arguments_digest", .ofOption .str a.question.ask.argumentsDigest),
    (lit "rule_id", .ofOption .str a.verdict.ruleId),
    (lit "grant_id", .ofOption .str grantId),
    (lit "principal_references", .arr ((referencesRead a.policy a.question).map .str)),
    (lit "evaluation_recipe", .str evaluationRecipe),
    (lit "correlation_source",
      .str (if a.question.ask.correlation.isNone then lit "absent" else lit "boundary_supplied"))]

/-- The decision an ask builds. -/
def recordedDecision (host : Composition) (a : Asking) (consulted : Option Consulted)
    (grantId : Option Str) : Contract.Decision where
  decisionRef := a.decisionRef
  scope := a.question.ask.scope
  capability := a.question.ask.capability
  outcome := (consulted.map Consulted.outcome).getD a.verdict.outcome
  reason := ((consulted.map Consulted.reason).getD a.verdict.reason).value
  policyVersion := some (policyVersion host a.content)
  approvalRef := consulted.map Consulted.approvalRef
  decidedAt := host.instant a.now
  correlation := a.question.ask.correlation
  contractGeneration := Contract.contractGeneration
  extra := recordedExtra a grantId

/-- How an ask settles with the approval store once its append is over. -/
inductive Settlement where
  | publish
  | consume
  | release
  | abandon
  deriving DecidableEq

/-- Where an ask stands between two of its acts. -/
inductive Phase where
  | idle
  | expiring (question : DecisionQuestion) (now : ℤ)
  | forgetting (question : DecisionQuestion) (now : ℤ)
  | deciding (question : DecisionQuestion) (now : ℤ)
  | looking (a : Asking) (opening : Approval) (attempt : ℕ)
  | claiming (a : Asking) (opening : Approval) (attempt : ℕ) (found : Approval)
  | suspending (a : Asking) (opened : Approval)
  | recording (a : Asking) (consulted : Option Consulted)
  | settling (key : ApprovalKey) (how : Settlement)

/-- What one append answered. Only `refused` says that nothing was committed. -/
inductive AppendOutcome where
  | position (storeId : Str) (position : ℤ)
  | unreadable
  | indeterminate
  | refused
  deriving DecidableEq

/-- A decision that is, or may be, committed, and what it was decided on. -/
structure Committed where
  decision : Contract.Decision
  asking : Asking
  consulted : Option Consulted

structure World where
  now : ℤ
  store : ApprovalStore
  phase : ℕ → Phase
  /-- The identities minted so far. -/
  issued : List Str
  /-- The waits opened so far, as they were opened. -/
  opened : List Approval
  /-- What `resolve` answered so far. -/
  acts : List Approval
  /-- The decisions committed, or possibly committed, so far. -/
  ledger : List Committed

inductive Event where
  | tick (now : ℤ)
  | resolve (key : ApprovalKey) (person : Str) (resolution : ApprovalResolution)
      (reason : Option Str) (at_ : ℤ)
  | expirePast (at_ : ℤ)
  | forgetLapsed (at_ : ℤ)
  | ask (i : ℕ) (question : DecisionQuestion)
  /-- The next act of an ask that calls the approval store. -/
  | act (i : ℕ)
  /-- The policy that was loaded, and the two identities `ask` and its consultation mint. -/
  | decide (i : ℕ) (content : List UInt8) (decisionRef approvalRef : Str)
  /-- The provider took the wait up, or gave no usable answer. -/
  | suspended (i : ℕ) (takenUp : Bool)
  | append (i : ℕ) (grantId : Option Str) (outcome : AppendOutcome)
  /-- A refusal, or a raise `ask` does not anticipate. -/
  | raised (i : ℕ)

namespace World

def setPhase (w : World) (i : ℕ) (p : Phase) : World :=
  { w with phase := fun j => if j = i then p else w.phase j }

/-- `asked` with the wait the rule gives: the record an ask may open. -/
def opening (a : Asking) (seconds : ℤ) (approvalRef : Str) : Except String Approval :=
  match a.question.asked.complaint with
  | some message => .error message
  | none =>
    ({ approvalRef, decisionRef := a.decisionRef, question := a.question.asked,
       requestedAt := a.now, deadline := a.now + seconds * 1000000 } : ApprovalFields).build

/-- The point an ask reaches with its verdict. -/
def consultOrRecord (host : Composition) (a : Asking) (approvalRef : Str) : Phase :=
  if a.verdict.outcome = .suspend ∧ host.approvals then
    match a.verdict.rule.bind Rule.reviewDeadlineSeconds with
    | none => .idle
    | some seconds =>
      match opening a seconds approvalRef with
      | .error _ => .idle
      | .ok o => .looking a o 0
  else .recording a none

/-- Another look, or contention after the last one. -/
def again (a : Asking) (o : Approval) (attempt : ℕ) : Phase :=
  if attempt + 1 < claimTries then .looking a o (attempt + 1) else .idle

/-- Where one look of `_consult_approvals` leads. -/
def consult (a : Asking) (o : Approval) (attempt : ℕ) (found : Approval) : Phase :=
  if found.approvalRef = o.approvalRef then .suspending a o
  else
    match found.state with
    | .pending =>
      if found.published then
        .recording a (some ⟨.suspend, .policyRequiresReview, found.approvalRef, false, false⟩)
      else again a o attempt
    | .rejected =>
      .recording a (some ⟨.deny, .approvalRejected, found.approvalRef, false, false⟩)
    | .expired => .idle
    | .approved => if found.claimed then again a o attempt else .claiming a o attempt found

/-- What is left of an ask whose record exists, or may exist. -/
def afterRecord (scope : Str) : Option Consulted → Phase
  | some c =>
    if c.opened then .settling (scope, c.approvalRef) .publish
    else if c.spend then .settling (scope, c.approvalRef) .consume
    else .idle
  | none => .idle

/-- The `finally` of an ask that recorded nothing. -/
def withoutRecord (scope : Str) : Option Consulted → Phase
  | some c =>
    if c.spend then .settling (scope, c.approvalRef) .release
    else if c.opened then .settling (scope, c.approvalRef) .abandon
    else .idle
  | none => .idle

/-- The store after a settling call; what it raises is suppressed, or escapes with
nothing left to do. -/
def settle (w : World) (key : ApprovalKey) : Settlement → ApprovalStore
  | .publish => (w.store.publish key).2
  | .consume => (w.store.consume key w.now).2
  | .release => (w.store.releaseClaim key).2
  | .abandon => (w.store.abandon key).2

/-- The next call an ask makes on the approval store. -/
def act (w : World) (i : ℕ) : Option World :=
  match w.phase i with
  | .expiring q now =>
    let (answer, store) := w.store.expirePast now
    some ({ w with store }.setPhase i
      (match answer with | .ok _ => .forgetting q now | .error _ => .idle))
  | .forgetting q now =>
    let (answer, store) := w.store.forgetLapsed now
    some ({ w with store }.setPhase i
      (match answer with | .ok _ => .deciding q now | .error _ => .idle))
  | .looking a o attempt =>
    let (answer, store) := w.store.openIfAbsent o w.now
    match answer with
    | .error _ => some ({ w with store }.setPhase i .idle)
    | .ok found =>
      some ({ w with
          store, opened := if found.approvalRef = o.approvalRef then o :: w.opened else w.opened
          }.setPhase i (consult a o attempt found))
  | .claiming a o attempt found =>
    let (answer, store) := w.store.claim found.key
    some ({ w with store }.setPhase i
      (match answer with
        | .ok _ => .recording a (some ⟨.allow, .approvalGranted, found.approvalRef, true, false⟩)
        | .error .approvalAlreadyClaimed => again a o attempt
        | .error .approvalUnknown => again a o attempt
        | .error _ => .idle))
  | .settling key how => some ({ w with store := w.settle key how }.setPhase i .idle)
  | _ => none

/-- Where an ask that raises, or refuses, goes. -/
def raised (w : World) (i : ℕ) : Option World :=
  match w.phase i with
  | .expiring .. => some (w.setPhase i .idle)
  | .forgetting .. => some (w.setPhase i .idle)
  | .deciding .. => some (w.setPhase i .idle)
  -- the request could not be built: the wait is left behind, unpublished
  | .suspending .. => some (w.setPhase i .idle)
  | .recording a consulted => some (w.setPhase i (withoutRecord a.question.ask.scope consulted))
  | _ => none

/-- A grant is minted for an allow the policy gave, and for no spent approval. -/
def mayGrant (a : Asking) (consulted : Option Consulted) : Bool :=
  (consulted.map Consulted.outcome).getD a.verdict.outcome == .allow &&
    !(consulted.map Consulted.spend).getD false

end World

open World in
/-- One act of the daemon. -/
def step (host : Composition) (w : World) : Event → Option World
  | .tick now => if w.now ≤ now then some { w with now } else none
  | .resolve key person resolution reason at_ =>
    if at_ ≤ w.now then
      let (answer, store) := w.store.resolve key person resolution reason at_
      some { w with
        store
        acts := match answer with | .ok resolved => resolved :: w.acts | .error _ => w.acts }
    else none
  | .expirePast at_ =>
    if at_ ≤ w.now then some { w with store := (w.store.expirePast at_).2 } else none
  | .forgetLapsed at_ =>
    if at_ ≤ w.now then some { w with store := (w.store.forgetLapsed at_).2 } else none
  | .ask i question =>
    match w.phase i with
    | .idle => some (w.setPhase i
        (if host.approvals then .expiring question w.now else .deciding question w.now))
    | _ => none
  | .act i => w.act i
  | .decide i content decisionRef approvalRef =>
    match w.phase i with
    | .deciding question now =>
      if decisionRef ∈ w.issued ∨ approvalRef ∈ w.issued ∨ decisionRef = approvalRef then none
      else
        match parsePolicy host.toml content host.maxLifetimeSeconds with
        | .error _ => none
        | .ok policy =>
          match evaluate policy question with
          | .error _ => some (w.setPhase i .idle)
          | .ok verdict =>
            if verdict.outcome = .suspend ∧ verdict.rule = none then some (w.setPhase i .idle)
            else
              some ({ w with issued := decisionRef :: approvalRef :: w.issued }.setPhase i
                (consultOrRecord host ⟨question, content, policy, verdict, decisionRef, now⟩
                  approvalRef))
    | _ => none
  | .suspended i takenUp =>
    match w.phase i with
    | .suspending a o =>
      some (w.setPhase i
        (if takenUp then
          .recording a (some ⟨.suspend, .policyRequiresReview, o.approvalRef, false, true⟩)
        else .settling o.key .abandon))
    | _ => none
  | .append i grantId outcome =>
    match w.phase i with
    | .recording a consulted =>
      if grantId.isSome ∧ mayGrant a consulted = false then none
      else
        match outcome with
        | .refused => some (w.setPhase i (withoutRecord a.question.ask.scope consulted))
        | _ =>
          some ({ w with
              ledger := ⟨recordedDecision host a consulted grantId, a, consulted⟩ :: w.ledger
              }.setPhase i (afterRecord a.question.ask.scope consulted))
    | _ => none
  | .raised i => w.raised i

/-- The daemon before its first request. -/
def World.initial (now : ℤ) : World :=
  ⟨now, .empty, fun _ => .idle, [], [], [], []⟩

end SayFirst.Plane
