import SayFirst.Lib.Run
import SayFirst.Spec.Policy

/-!
# The policy service (`application/policy.py`)

`load_for_decision` and `reload_if_due` run in the threads of the asks and of the
reloader over one service, without a lock. `step` is one statement of one of them;
between two statements of one thread any statement of any other can run, and the
authority can change.

* `LoadStage` — where a thread stands in one of the two calls.
* `step` — the statements, and what befalls the authority.
-/

namespace SayFirst.Plane

open Py

/-- `LoadedPolicy`, as far as the service reads it. -/
structure LoadedPolicy where
  policy : Policy
  policyVersion : Str
  loadedAt : ℤ

/-- `PolicyUnavailable` -/
structure PolicyUnavailable where
  reason : Str
  message : Str
  deriving DecidableEq

/-- What `_answer` takes from the authority. -/
abbrev PolicyAnswer := Except PolicyUnavailable LoadedPolicy

/-- What the service records after its start. -/
inductive PolicyEvent where
  | versionChanged (previous policyVersion : Str) (ruleCount : ℕ) (revisionReason : Str) (at_ : ℤ)
  | projectionFailed (adapterKind reason : Str) (at_ : ℤ)
  | reloadFailed (unavailable : PolicyUnavailable) (at_ : ℤ)

/-- A policy a load answered, and how many loads had answered one before it. -/
structure Answered where
  loaded : LoadedPolicy
  number : ℕ

/-- Where a thread stands between two statements. `decision` says that the call is
`load_for_decision`, whose caller is given the policy. -/
inductive LoadStage where
  | idle
  /-- `load_for_decision` answered its caller. -/
  | given (loaded : LoadedPolicy)
  /-- `reload_if_due` compares the age of the last check. -/
  | aging (now : ℤ)
  /-- `self._last_checked = now` -/
  | checking (decision : Bool) (now : ℤ)
  /-- `self._answer()` -/
  | reading (decision : Bool)
  /-- `_record_failure`: the look at what was seen, the note of it, and the record. -/
  | failing (unavailable : PolicyUnavailable)
  | noting (unavailable : PolicyUnavailable)
  | reporting (unavailable : PolicyUnavailable)
  /-- `self._seen_failures.clear()` -/
  | clearing (decision : Bool) (answered : Answered)
  /-- `loaded.policy_version != self._current.policy_version` -/
  | comparing (decision : Bool) (answered : Answered)
  /-- `_change_to`: the previous version, the assignment, `_rebuild`, the record, and the
  listeners. -/
  | changing (decision : Bool) (answered : Answered)
  | assigning (decision : Bool) (answered : Answered) (previous : Str)
  | rebuilding (decision : Bool) (answered : Answered) (previous : Str)
  | announcing (decision : Bool) (answered : Answered) (previous : Str)
  | signalling (decision : Bool) (answered : Answered)

/-- The call has not answered yet. -/
def LoadStage.inProgress : LoadStage → Bool
  | idle => false
  | given _ => false
  | _ => true

/-- The end of a call that got a policy. -/
def LoadStage.over (decision : Bool) (answered : Answered) : LoadStage :=
  if decision then .given answered.loaded else .idle

/-- The service, the authority it reads and the threads that call it. -/
structure PolicyService where
  current : LoadedPolicy
  lastChecked : ℤ
  seenFailures : List PolicyUnavailable
  events : List PolicyEvent
  /-- What a load of the authority answers. -/
  authority : PolicyAnswer
  /-- Every policy a load answered, the one of the start first. -/
  reads : List LoadedPolicy
  stage : ℕ → LoadStage

inductive PolicyAct where
  /-- The authority answers differently from here on. -/
  | edit (answer : PolicyAnswer)
  | loadForDecision (t : ℕ) (now : ℤ)
  | reloadIfDue (t : ℕ) (now : ℤ)
  /-- The next statement of a thread, what the clock reads there and the projections that fail in
  it. -/
  | next (t : ℕ) (now : ℤ) (failed : List (Str × Str))

namespace PolicyService

/-- A service that has started. -/
def started (loaded : LoadedPolicy) (now : ℤ) : PolicyService :=
  ⟨loaded, now, [], [], .ok loaded, [loaded], fun _ => .idle⟩

/-- `current_version` -/
def currentVersion (s : PolicyService) : Str := s.current.policyVersion

def setStage (s : PolicyService) (t : ℕ) (stage : LoadStage) : PolicyService :=
  { s with stage := fun u => if u = t then stage else s.stage u }

/-- `events.record` -/
def record (s : PolicyService) (events : List PolicyEvent) : PolicyService :=
  { s with events := s.events ++ events }

/-- A call begins, on a thread that is in no other. -/
def begin (s : PolicyService) (t : ℕ) (stage : LoadStage) : Option PolicyService :=
  if (s.stage t).inProgress then none else some (s.setStage t stage)

/-- One statement; `reloadSeconds` is the age a check may reach. -/
def perform (reloadSeconds : ℤ) (s : PolicyService) (t : ℕ) (now : ℤ) (failed : List (Str × Str)) :
    Option PolicyService :=
  match s.stage t with
  | .idle => none
  | .given _ => none
  | .aging at_ =>
    some (s.setStage t (if at_ - s.lastChecked < reloadSeconds * 1000000 then .idle
      else .checking false at_))
  | .checking decision at_ => some ({ s with lastChecked := at_ }.setStage t (.reading decision))
  | .reading decision =>
    match s.authority with
    | .error unavailable => some (s.setStage t (.failing unavailable))
    | .ok loaded =>
      some ({ s with reads := s.reads ++ [loaded] }.setStage t
        (.clearing decision ⟨loaded, s.reads.length⟩))
  | .failing unavailable =>
    some (s.setStage t (if unavailable ∈ s.seenFailures then .idle else .noting unavailable))
  | .noting unavailable =>
    some ({ s with seenFailures := unavailable :: s.seenFailures }.setStage t (.reporting unavailable))
  | .reporting unavailable =>
    some ((s.record [.reloadFailed unavailable now]).setStage t .idle)
  | .clearing decision answered =>
    some ({ s with seenFailures := [] }.setStage t (.comparing decision answered))
  | .comparing decision answered =>
    some (s.setStage t (if answered.loaded.policyVersion ≠ s.current.policyVersion
      then .changing decision answered else .over decision answered))
  | .changing decision answered =>
    some (s.setStage t (.assigning decision answered s.current.policyVersion))
  | .assigning decision answered previous =>
    some ({ s with current := answered.loaded }.setStage t (.rebuilding decision answered previous))
  | .rebuilding decision answered previous =>
    some ((s.record (failed.map fun (kind, reason) => .projectionFailed kind reason now)).setStage t
      (.announcing decision answered previous))
  | .announcing decision answered previous =>
    let loaded := answered.loaded
    some ((s.record [.versionChanged previous loaded.policyVersion loaded.policy.rules.length
      loaded.policy.revisionReason loaded.loadedAt]).setStage t (.signalling decision answered))
  | .signalling decision answered => some (s.setStage t (.over decision answered))

/-- One statement of one thread, or a change of the authority. -/
def step (reloadSeconds : ℤ) (s : PolicyService) : PolicyAct → Option PolicyService
  | .edit answer => some { s with authority := answer }
  | .loadForDecision t now => s.begin t (.checking true now)
  | .reloadIfDue t now => s.begin t (.aging now)
  | .next t now failed => s.perform reloadSeconds t now failed

end PolicyService

end SayFirst.Plane
