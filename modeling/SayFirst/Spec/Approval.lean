import SayFirst.Lib.Text

/-!
# One approval (`domain/approval.py`)

An `Approval` carries the proof that `__post_init__` accepted it, so a record the
dataclass refuses cannot be built; `ApprovalFields.build` is the constructor, and
`dataclasses.replace` is `build` over the changed fields. Instants are
microseconds on the one clock.
-/

namespace SayFirst.Plane

open Py

inductive ApprovalState where
  | pending
  | approved
  | rejected
  | expired
  deriving DecidableEq, Repr

def ApprovalState.value : ApprovalState → String
  | pending => "pending"
  | approved => "approved"
  | rejected => "rejected"
  | expired => "expired"

/-- `ACTED` -/
def ApprovalState.acted (s : ApprovalState) : Bool := s == .approved || s == .rejected

/-- The four facts that make a re-ask the same ask. -/
structure Question where
  scope : Str
  principalReference : Str
  capability : Str
  argumentsDigest : Str
  deriving DecidableEq, Repr

/-- `Question.__post_init__`: the first member that is empty. -/
def Question.complaint (q : Question) : Option String :=
  if q.scope.isEmpty then some "an approval question needs a non-empty scope"
  else if q.principalReference.isEmpty then
    some "an approval question needs a non-empty principal_reference"
  else if q.capability.isEmpty then some "an approval question needs a non-empty capability"
  else if q.argumentsDigest.isEmpty then
    some "an approval question needs a non-empty arguments_digest"
  else none

structure ApprovalFields where
  approvalRef : Str
  decisionRef : Str
  question : Question
  requestedAt : ℤ
  deadline : ℤ
  state : ApprovalState := .pending
  resolvedAt : Option ℤ := none
  person : Option Str := none
  resolutionReason : Option Str := none
  consumed : Bool := false
  consumedAt : Option ℤ := none
  claimed : Bool := false
  published : Bool := false

namespace ApprovalFields

/-- `_hold_the_end_of_the_wait` -/
def endOfTheWait (a : ApprovalFields) : Option String :=
  match a.state, a.resolvedAt with
  | .pending, some _ => some "a pending approval carries no resolved_at: nothing ended it"
  | .pending, none => none
  | state, none => some ("a " ++ state.value ++ " approval must carry the resolved_at it ended at")
  | state, some resolvedAt =>
    if resolvedAt < a.requestedAt then
      some "an approval's resolved_at cannot precede its requested_at: nothing ends a wait before it is opened"
    else if state = .expired ∧ resolvedAt ≠ a.deadline then
      some "an expired approval's resolved_at is its deadline: a wait that ran out ended when it ran out"
    else if state.acted ∧ a.deadline < resolvedAt then
      some ("a " ++ state.value ++ " approval's resolved_at cannot follow its deadline: the wait had already run out, so no person could act")
    else none

/-- `_hold_the_one_person` -/
def theOnePerson (a : ApprovalFields) : Option String :=
  if a.state.acted then
    match a.person with
    | some (_ :: _) => none
    | _ => some ("a " ++ a.state.value ++ " approval must carry the person who acted, as a non-empty reference")
  else if a.person.isNone then none
  else if a.state = .pending then some "a pending approval carries no person: nobody has acted yet"
  else some ("a " ++ a.state.value ++ " approval carries no person: nobody acted")

/-- `_hold_the_spend` -/
def theSpend (a : ApprovalFields) : Option String :=
  match a.consumed, a.consumedAt with
  | false, none => none
  | false, some _ => some "an unspent approval carries no consumed_at: nothing took its execution"
  | true, none => some "a consumed approval carries the instant its execution was taken"
  | true, some consumedAt =>
    if a.resolvedAt.any (consumedAt < ·) then
      some "an approval's consumed_at cannot precede its resolved_at: the execution is taken after the act that authorised it"
    else none

/-- `Approval.__post_init__`: the first complaint, in the order of the source. -/
def complaint (a : ApprovalFields) : Option String :=
  if a.deadline ≤ a.requestedAt then some "an approval's deadline must follow its requested_at"
  else a.endOfTheWait.orElse fun _ => a.theOnePerson.orElse fun _ =>
    if a.state = .pending ∧ a.resolutionReason.isSome then
      some "a pending approval carries no resolution_reason: there is no verdict"
    else if a.state = .expired ∧ a.resolutionReason.isSome then
      some "an expired approval carries no resolution_reason: nobody gave one"
    else if a.consumed ∧ a.state ≠ .approved then
      some ("a " ++ a.state.value ++ " approval cannot be consumed: it authorises nothing")
    else if a.claimed ∧ a.state ≠ .approved then
      some ("a " ++ a.state.value ++ " approval cannot be claimed: it authorises nothing")
    else if a.consumed ∧ a.claimed = false then
      some "a consumed approval was claimed first: the one execution is taken before it is spent, so a record that was spent and never claimed is one no ask made"
    else a.theSpend

end ApprovalFields

/-- A record the dataclass accepted. -/
structure Approval extends ApprovalFields where
  held : toApprovalFields.complaint = none

/-- The constructor: a record, or the `ValueError` it raises. -/
def ApprovalFields.build (a : ApprovalFields) : Except String Approval :=
  match h : a.complaint with
  | none => .ok ⟨a, h⟩
  | some message => .error message

namespace Approval

def scope (a : Approval) : Str := a.question.scope

/-- `(scope, approval_ref)`, the key a record is kept under. -/
def key (a : Approval) : Str × Str := (a.scope, a.approvalRef)

/-- `state_at` -/
def stateAt (a : Approval) (now : ℤ) : ApprovalState :=
  if a.state = .pending ∧ a.deadline ≤ now then .expired else a.state

end Approval

end SayFirst.Plane
