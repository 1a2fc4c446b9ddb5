import SayFirst.Spec.GrantAsk
import SayFirst.Spec.PolicyService

/-!
# Policies and grants (`application/decisions.py`)

A `DecisionService` is the policy service and the grant registry with the threads that
call both: the asks, the reloads, the stop and what a connection does of its own. The
registry is the one listener of the policy service. No event, projection or section of
the registry raises here.

* `ServiceCall` — the call a thread is in.
* `step` — one statement of one thread.
-/

namespace SayFirst.Plane

open Py

/-- The call a thread is in. -/
inductive ServiceCall where
  | idle
  /-- `ask`, up to its reservation. -/
  | asking
  /-- `ask`, from its reservation on. -/
  | granting
  /-- `self.policy.current_version != grant.policy_version` -/
  | rechecking (grant : Grant)
  /-- `self.grants.policy_version_changed(self.policy.current_version)` -/
  | resweeping (grant : Grant)
  /-- `ask`, with nothing left but the sections it is in. -/
  | leaving
  /-- `reload_if_due` -/
  | reloading
  /-- `shutdown` -/
  | stopping
  /-- `tick`, and the end of a connection of its own. -/
  | other
  deriving DecidableEq

/-- An ask, a reload or a shutdown. -/
def ServiceCall.counts : ServiceCall → Bool
  | idle => false
  | other => false
  | _ => true

structure DecisionService where
  policy : PolicyService
  grants : GrantHost
  call : ℕ → ServiceCall

inductive ServiceAct where
  | edit (answer : PolicyAnswer)
  | ask (i : ℕ) (now : ℤ)
  | reloadIfDue (i : ℕ) (now : ℤ)
  | shutdown (i : ℕ)
  | tick (i : ℕ) (now : ℤ)
  | peerClosed (i : ℕ) (grantId : Str)
  | peerWrote (i : ℕ) (grantId : Str)
  | reachedItsLifetime (i : ℕ) (now : ℤ) (grantId : Str)
  /-- The next statement of a call of the policy service. -/
  | policy (i : ℕ) (now : ℤ)
  /-- The next section of a call of the registry. -/
  | turn (i : ℕ) (now : ℤ) (taken : Bool)
  | reserve (i : ℕ) (asking : Asking) (consulted : Option Consulted)
      (grantConnection signalWriter delivers : Bool)
  | prepare (i : ℕ) (grantId : Option Str)
  | append (i : ℕ) (fate : AppendFate)
  | answer (i : ℕ) (fate : CallFate)
  | cancel (i : ℕ)
  | openReserved (i : ℕ)
  | recheck (i : ℕ)
  | resweep (i : ℕ)
  /-- A call is over: it returned, or it raised where it held nothing any more. -/
  | ends (i : ℕ)

namespace DecisionService

def started (limits : GrantLimits) (loaded : LoadedPolicy) (now : ℤ) : DecisionService :=
  ⟨.started loaded now, .initial limits, fun _ => .idle⟩

def registry (s : DecisionService) : GrantConnections := s.grants.service.registry

/-- The sections a thread still has to take. -/
def sections (s : DecisionService) (i : ℕ) : List GrantSection := s.grants.service.thread i

def setCall (s : DecisionService) (i : ℕ) (call : ServiceCall) : DecisionService :=
  { s with call := fun j => if j = i then call else s.call j }

def withService (s : DecisionService) (service : GrantService) : DecisionService :=
  { s with grants := { s.grants with service } }

/-- A thread that is in no call begins one of the policy service. -/
def consults (s : DecisionService) (i : ℕ) (call : ServiceCall) (policy : Option PolicyService) :
    Option DecisionService :=
  if s.call i = .idle then policy.map fun policy => { s with policy }.setCall i call else none

/-- A thread that is in no call begins one of the registry. -/
def registers (s : DecisionService) (i : ℕ) (call : ServiceCall) (grantCall : GrantCall) :
    Option DecisionService :=
  if s.call i = .idle then
    (s.grants.service.step grantCall).map fun service => (s.withService service).setCall i call
  else none

/-- An act of an ask between its reservation and its grant. -/
def within (host : Composition) (settings : GrantSettings) (s : DecisionService) (i : ℕ)
    (act : GrantAct) : Option DecisionService :=
  if s.call i = .granting ∧ s.sections i = [] then
    (s.grants.step host settings act).map fun grants => { s with grants }
  else none

/-- One statement of one thread. -/
def step (host : Composition) (settings : GrantSettings) (reloadSeconds : ℤ)
    (s : DecisionService) : ServiceAct → Option DecisionService
  | .edit answer => (s.policy.step reloadSeconds (.edit answer)).map fun policy => { s with policy }
  | .ask i now => s.consults i .asking (s.policy.step reloadSeconds (.loadForDecision i now))
  | .reloadIfDue i now => s.consults i .reloading (s.policy.step reloadSeconds (.reloadIfDue i now))
  | .shutdown i => s.registers i .stopping (.shutdown i)
  | .tick i now => s.registers i .other (.tick i now s.policy.currentVersion)
  | .peerClosed i grantId => s.registers i .other (.peerClosed i grantId)
  | .peerWrote i grantId => s.registers i .other (.peerWrote i grantId)
  | .reachedItsLifetime i now grantId => s.registers i .other (.reachedItsLifetime i now grantId)
  | .policy i now =>
    (s.policy.step reloadSeconds (.next i now [])).bind fun policy =>
      match s.policy.stage i with
      -- the listener
      | .signalling _ answered =>
        (s.grants.service.step (.policyVersionChanged i answered.loaded.policyVersion)).map
          fun service => { s with policy }.withService service
      | _ => some { s with policy }
  | .turn i now taken => (s.grants.service.step (.turn i now taken)).map s.withService
  | .reserve i asking consulted grantConnection signalWriter delivers =>
    match s.policy.stage i with
    | .given loaded =>
      -- the ask is decided under the policy it was given
      if s.call i = .asking ∧ s.sections i = [] ∧
          policyVersion host asking.content = loaded.policyVersion then
        (s.grants.step host settings (.reserve i { asking with policy := loaded.policy } consulted
          grantConnection signalWriter delivers)).map
            fun grants => { s with grants }.setCall i .granting
      else none
    | _ => none
  | .prepare i grantId => s.within host settings i (.prepare i grantId)
  | .append i fate => s.within host settings i (.append i fate)
  | .answer i fate => s.within host settings i (.answer i fate)
  | .cancel i => s.within host settings i (.cancel i)
  | .openReserved i =>
    match s.grants.stage i with
    | .opening grant signalWriter r =>
      (s.within host settings i (.openReserved i)).map fun s' =>
        s'.setCall i (if (s.registry.openReserved r grant signalWriter).1 then .rechecking grant
          else .leaving)
    | _ => none
  | .recheck i =>
    match s.call i with
    | .rechecking grant =>
      if s.sections i = [] then
        some (s.setCall i
          (if s.policy.currentVersion ≠ grant.policyVersion then .resweeping grant else .leaving))
      else none
    | _ => none
  | .resweep i =>
    match s.call i with
    | .resweeping _ =>
      (s.grants.service.step (.policyVersionChanged i s.policy.currentVersion)).map
        fun service => (s.withService service).setCall i .leaving
    | _ => none
  | .ends i =>
    if (s.policy.stage i).inProgress ∨ s.sections i ≠ [] then none
    else
      match s.call i, s.grants.stage i with
      | .rechecking _, _ | .resweeping _, _ => none
      | _, .idle => some (s.setCall i .idle)
      | _, _ => none

end DecisionService

end SayFirst.Plane
