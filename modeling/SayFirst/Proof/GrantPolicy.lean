import SayFirst.Proof.GrantCapacity
import SayFirst.Spec.DecisionService

/-!
# No grant outlives its policy

A policy can change between any two statements of an ask. A grant of another version
than the one in force has an end ahead of it: the listener of the change still has to
sweep, or is at it, or the ask that registered the grant still has to look again.

* `turn_live`, `Calling.live` — what a section and a call do to a live grant.
* `step_swept` — every step leaves each such grant an end.
* `grants_current` — with nothing in progress every live grant is of the version in
  force, and there is none once the daemon has stopped.
-/

namespace SayFirst.Plane

open Py

/-- The section ends the grant, which is of the version, or leads to its end. -/
def GrantSection.Ends (g version : Str) : GrantSection → Prop
  | .compare g' v => g' = g ∧ v ≠ version
  | .stopAll => True
  | .stop g' => g' = g
  | .endGrant g' _ _ _ => g' = g
  | _ => False

/-! ## What becomes of a live grant -/

namespace GrantService

variable {s s' : GrantService} {t u : ℕ} {g version : Str} {now : ℤ} {taken : Bool}
  {x : GrantSection} {new : List GrantSection} {c c' : GrantConnection}

/-- A live connection is registered. -/
def LiveHeld (s : GrantService) : Prop :=
  ∀ g c, s.registry.connection g = some c → c.live = true → g ∈ s.registry.registered

/-- A section of the thread leads to the end of the grant. -/
def EndsIn (s : GrantService) (t : ℕ) (g version : Str) : Prop :=
  ∃ x ∈ s.thread t, x.Ends g version

/-- The connection was live before, under the same grant, and an end ahead of it still is. -/
def Stays (s s' : GrantService) (g : Str) (c' : GrantConnection) : Prop :=
  ∃ c, s.registry.connection g = some c ∧ c.live = true ∧ c'.grant = c.grant ∧
    ∀ u, s.EndsIn u g c.grant.policyVersion → s'.EndsIn u g c.grant.policyVersion

theorem write_kept (c : GrantConnection) (signal : GrantSignal) (taken : Bool) :
    (c.write signal taken).live = c.live ∧ (c.write signal taken).grant = c.grant := by
  unfold GrantConnection.write
  split
  · split
    · exact ⟨rfl, rfl⟩
    · exact ⟨rfl, rfl⟩
  · exact ⟨rfl, rfl⟩

/-- A connection changed, but neither in its grant nor in whether it is live. -/
theorem change_live {r : GrantConnections} {g' : Str} {f : GrantConnection → GrantConnection}
    (hf : ∀ c, (f c).live = c.live ∧ (f c).grant = c.grant)
    (h : (r.change g' f).connection g = some c') :
    ∃ c, r.connection g = some c ∧ c'.live = c.live ∧ c'.grant = c.grant := by
  obtain ⟨c, hc, ⟨-, rfl⟩ | rfl⟩ := change_cases h
  · exact ⟨c, hc, (hf c).1, (hf c).2⟩
  · exact ⟨_, hc, rfl, rfl⟩

/-- Only the connection that is popped is not live any more. -/
theorem pop_live {r : GrantConnections} {g' : Str} (h : (r.pop g').connection g = some c')
    (hlive : c'.live = true) : r.connection g = some c' ∧ g ≠ g' := by
  unfold GrantConnections.pop GrantConnections.change at h
  dsimp only at h
  split at h
  · obtain ⟨c, -, rfl⟩ := Option.map_eq_some_iff.1 h
    cases hlive
  · rename_i hne
    exact ⟨h, hne⟩

/-- A section that leads to the end of a registered grant leads to another one that does,
or ends it. -/
theorem perform_ends (h : s.perform now taken x = (new, s')) (hends : x.Ends g version)
    (hc : s.registry.connection g = some c) (hversion : c.grant.policyVersion = version)
    (hreg : g ∈ s.registry.registered) :
    (∃ y ∈ new, y.Ends g version) ∨ ∃ reason v at_, x = .endGrant g reason v at_ := by
  cases x with
  | compare g' v =>
    obtain ⟨rfl, hne⟩ := hends
    simp only [perform, hc, hversion] at h
    rw [if_pos (Ne.symm hne)] at h
    cases h
    exact .inl ⟨_, List.mem_singleton_self _, rfl⟩
  | stopAll =>
    cases h
    exact .inl ⟨_, List.mem_map_of_mem hreg, rfl⟩
  | stop g' =>
    cases hends
    simp only [perform, hc] at h
    cases h
    exact .inl ⟨_, List.mem_singleton_self _, rfl⟩
  | endGrant g' reason v at_ =>
    cases hends
    exact .inr ⟨reason, v, at_, rfl⟩
  | _ => cases hends

/-- What one section does to a connection that is live behind it. -/
theorem perform_live (hheld : s.LiveHeld) (h : s.perform now taken x = (new, s'))
    (hc : s'.registry.connection g = some c') (hlive : c'.live = true) :
    ∃ c, s.registry.connection g = some c ∧ c.live = true ∧ c'.grant = c.grant ∧
      g ∈ s'.registry.registered ∧
      (x.Ends g c.grant.policyVersion → ∃ y ∈ new, y.Ends g c.grant.policyVersion) := by
  have hlead : ∀ c, s.registry.connection g = some c → c.live = true →
      (∀ reason v at_, x ≠ .endGrant g reason v at_) → x.Ends g c.grant.policyVersion →
        ∃ y ∈ new, y.Ends g c.grant.policyVersion := by
    intro c hc hlive hno hends
    obtain hnext | ⟨reason, v, at_, hx⟩ := perform_ends h hends hc rfl (hheld g c hc hlive)
    · exact hnext
    · exact absurd hx (hno reason v at_)
  cases perform_cases h with
  | leads hleads =>
    refine ⟨c', hc, hlive, rfl, hheld g c' hc hlive, fun hends => ?_⟩
    obtain hnext | ⟨reason, v, at_, rfl⟩ := perform_ends h hends hc rfl (hheld g c' hc hlive)
    · exact hnext
    · -- the end of a registered grant takes it out
      simp only [perform] at h
      rw [if_pos (hheld g c' hc hlive)] at h
      have hpop := congrArg (fun p => p.2.registry.connection g) h
      obtain ⟨c₁, hc₁, hsame, -⟩ := change_live (fun c => write_kept c _ _) (hpop.trans hc)
      exact absurd rfl (pop_live hc₁ (hsame ▸ hlive)).2
  | ends g₀ reason v at_ hreg =>
    obtain ⟨c₁, hc₁, hsame, hgrant⟩ := change_live (fun c => write_kept c _ _) hc
    obtain ⟨hc₀, hne⟩ := pop_live hc₁ (hsame ▸ hlive)
    refine ⟨c₁, hc₀, hsame ▸ hlive, hgrant, (List.mem_erase_of_ne hne).2 (hheld g c₁ hc₀ (hsame ▸ hlive)),
      fun hends => absurd hends.symm hne⟩
  | loses g₀ reason hreg =>
    obtain ⟨hc₀, hne⟩ := pop_live hc hlive
    exact ⟨c', hc₀, hlive, rfl, (List.mem_erase_of_ne hne).2 (hheld g c' hc₀ hlive),
      fun hends => hends.elim⟩
  | writes g₀ signal c₀ hc₀ hw ht =>
    obtain ⟨c, hc₁, hsame, hgrant⟩ := change_live (by exact fun c => ⟨rfl, rfl⟩) hc
    exact ⟨c, hc₁, hsame ▸ hlive, hgrant, hheld g c hc₁ (hsame ▸ hlive), fun hends => hends.elim⟩
  | appends g₀ signal =>
    obtain ⟨c, hc₁, hsame, hgrant⟩ := change_live (by exact fun c => ⟨rfl, rfl⟩) hc
    exact ⟨c, hc₁, hsame ▸ hlive, hgrant, hheld g c hc₁ (hsame ▸ hlive), fun hends => hends.elim⟩
  | hears g₀ at_ =>
    obtain ⟨c, hc₁, hsame, hgrant⟩ := change_live (by exact fun c => ⟨rfl, rfl⟩) hc
    exact ⟨c, hc₁, hsame ▸ hlive, hgrant, hheld g c hc₁ (hsame ▸ hlive), fun hends => hends.elim⟩
  | records e => exact ⟨c', hc, hlive, rfl, hheld g c' hc hlive, fun hends => hends.elim⟩

theorem setThread_endsIn {l : List GrantSection} (hu : u ≠ t) :
    (s.setThread t l).EndsIn u g version ↔ s.EndsIn u g version := by
  unfold EndsIn setThread
  dsimp only
  rw [if_neg hu]

/-- **One section** ends no grant it leaves live. -/
theorem turn_live (hheld : s.LiveHeld) (hs : s.step (.turn t now taken) = some s') :
    s'.LiveHeld ∧ ∀ g c', s'.registry.connection g = some c' → c'.live = true → Stays s s' g c' := by
  obtain ⟨x, rest, new, s₁, ht, hp, rfl⟩ := turn_cases hs
  obtain ⟨hframed, -⟩ := perform_record hp
  refine ⟨fun g c' hc' hlive => ?_, fun g c' hc' hlive => ?_⟩
  · obtain ⟨_, -, -, -, hreg, -⟩ := perform_live hheld hp hc' hlive
    exact hreg
  · obtain ⟨c, hc, hlive₀, hgrant, -, hleads⟩ := perform_live hheld hp hc' hlive
    refine ⟨c, hc, hlive₀, hgrant, fun u ⟨y, hy, hends⟩ => ?_⟩
    by_cases hu : u = t
    · subst hu
      have hnow : ((s₁.setThread u (new ++ rest)).thread u) = new ++ rest := if_pos rfl
      unfold EndsIn
      rw [hnow]
      rw [ht] at hy
      rcases List.mem_cons.1 hy with rfl | hy
      · obtain ⟨z, hz, hzends⟩ := hleads hends
        exact ⟨z, List.mem_append_left _ hz, hzends⟩
      · exact ⟨y, List.mem_append_right _ hy, hends⟩
    · rw [setThread_endsIn hu]
      exact ⟨y, hframed.thread ▸ hy, hends⟩

/-- **One call** changes no connection but the one it registers, and no thread but one that had
nothing to do. -/
theorem Calling.live (hheld : s.LiveHeld) (hs : Calling s s') :
    s'.LiveHeld ∧ ∀ g c', s'.registry.connection g = some c' → c'.live = true →
      Stays s s' g c' ∨ s.registry.connection g = none := by
  have hnone : ∀ {t g version}, s.thread t = [] → ¬ s.EndsIn t g version := by
    rintro t g version hidle ⟨x, hx, -⟩
    rw [hidle] at hx
    cases hx
  have hset : ∀ {t : ℕ} {l : List GrantSection} {r : GrantConnections} {g version : Str},
      s.thread t = [] → ∀ u, s.EndsIn u g version →
        EndsIn { s.setThread t l with registry := r } u g version := by
    intro t l r g version hidle u hu
    have hne : u ≠ t := by
      rintro rfl
      exact hnone hidle hu
    exact (setThread_endsIn hne).2 hu
  cases hs with
  | reserves r hsame heq =>
    subst heq
    refine ⟨fun g c hc hlive => ?_, fun g c hc hlive => .inl ⟨c, ?_, hlive, rfl, fun _ h => h⟩⟩
    · dsimp only at hc ⊢
      rw [hsame.connection] at hc
      rw [hsame.registered]
      exact hheld g c hc hlive
    · rw [← hsame.connection]
      exact hc
  | begins t l r hidle hsame hplain heq =>
    subst heq
    refine ⟨fun g c hc hlive => ?_, fun g c hc hlive => .inl ⟨c, ?_, hlive, rfl, hset hidle⟩⟩
    · dsimp only at hc ⊢
      rw [hsame.connection] at hc
      rw [hsame.registered]
      exact hheld g c hc hlive
    · rw [← hsame.connection]
      exact hc
  | registers t l r grant uid signalWriter hidle hfresh hreg hconn hplain heq =>
    subst heq
    have hcases : ∀ g c, r.connection g = some c → g = grant.grantId ∨
        (g ≠ grant.grantId ∧ s.registry.connection g = some c) := by
      intro g c hc
      by_cases hg : g = grant.grantId
      · exact .inl hg
      · rw [hconn] at hc
        dsimp only at hc
        rw [if_neg hg] at hc
        exact .inr ⟨hg, hc⟩
    refine ⟨fun g c hc hlive => ?_, fun g c hc hlive => ?_⟩
    · dsimp only at hc ⊢
      rw [hreg]
      rcases hcases g c hc with rfl | ⟨-, hc⟩
      · split
        · assumption
        · exact List.mem_append_right _ (List.mem_singleton_self _)
      · split
        · exact hheld g c hc hlive
        · exact List.mem_append_left _ (hheld g c hc hlive)
    · rcases hcases g c hc with rfl | ⟨-, hc⟩
      · exact .inr hfresh
      · exact .inl ⟨c, hc, hlive, rfl, hset hidle⟩

/-! ## Whether the daemon is stopping -/

theorem release_stopping (r : GrantConnections) (uid : ℕ) :
    (r.releaseReservation uid).2.stopping = r.stopping := by
  unfold GrantConnections.releaseReservation
  dsimp only
  split
  · rfl
  · split
    · rfl
    · rfl

theorem openReserved_stopping (r : GrantConnections) (i : ℕ) (grant : Grant) (writer : Bool) :
    (r.openReserved i grant writer).2.stopping = r.stopping := by
  unfold GrantConnections.openReserved
  split
  · rename_i uid _
    have hrelease := release_stopping (r.spent i uid) uid
    split
    · rename_i heq
      rw [heq] at hrelease
      exact hrelease
    · rename_i heq
      rw [heq] at hrelease
      exact hrelease
  · rfl

theorem reserve_stopping (r : GrantConnections) (uid : ℕ) :
    (r.reserve uid).2.stopping = r.stopping := by
  unfold GrantConnections.reserve
  split
  · rfl
  · rfl

theorem cancel_stopping (r : GrantConnections) (i : ℕ) : (r.cancel i).stopping = r.stopping := by
  unfold GrantConnections.cancel
  split
  · exact release_stopping _ _
  · rfl

theorem perform_stopping (h : s.perform now taken x = (new, s')) :
    s'.registry.stopping = s.registry.stopping := by
  cases perform_cases h <;> rfl

/-- Nothing but `shutdown` raises the flag. -/
theorem step_stopping {call : GrantCall} (hs : s.step call = some s') :
    s'.registry.stopping = s.registry.stopping ∨ ∃ t, call = .shutdown t := by
  cases call with
  | reserve uid =>
    cases hs
    exact .inl (reserve_stopping _ _)
  | cancel i =>
    cases hs
    exact .inl (cancel_stopping _ _)
  | shutdown t => exact .inr ⟨t, rfl⟩
  | turn t now taken =>
    obtain ⟨x, rest, new, s₁, -, hp, rfl⟩ := turn_cases hs
    have hkept := perform_stopping hp
    exact .inl hkept
  | openReserved t i grant writer =>
    refine .inl ?_
    simp only [step] at hs
    split at hs
    · have hopen := openReserved_stopping s.registry i grant writer
      unfold openReserved at hs
      split at hs
      all_goals
        rename_i heq
        rw [heq] at hopen
        obtain ⟨s₁, -, rfl⟩ := Option.map_eq_some_iff.1 hs
        exact hopen
    · cases hs
  | policyVersionChanged t v => exact .inl (by rw [(begin_cases hs).2]; rfl)
  | tick t at_ v => exact .inl (by rw [(begin_cases hs).2]; rfl)
  | peerClosed t g => exact .inl (by rw [endItself_registry hs])
  | peerWrote t g => exact .inl (by rw [endItself_registry hs])
  | reachedItsLifetime t at_ g => exact .inl (by rw [endItself_registry hs])

end GrantService

/-! ## The end ahead of a superseded grant -/

/-- The policy a call put into force, while its listener has not been told. -/
def LoadStage.sweep : LoadStage → Option Answered
  | .rebuilding _ answered _ => some answered
  | .announcing _ answered _ => some answered
  | .signalling _ answered => some answered
  | _ => none

/-- The ask that registered this grant has still to look at the version in force. -/
def ServiceCall.Rechecks (g version : Str) : ServiceCall → Prop
  | .rechecking grant => grant.grantId = g ∧ grant.policyVersion = version
  | .resweeping grant => grant.grantId = g ∧ grant.policyVersion = version
  | _ => False

/-- The call ends what it finds registered behind a stop. -/
def ServiceCall.Stops : ServiceCall → Prop
  | .stopping => True
  | .rechecking _ => True
  | _ => False

namespace DecisionService

variable {s s' : DecisionService} {host : Composition} {settings : GrantSettings}
  {reloadSeconds : ℤ} {act : ServiceAct} {i j : ℕ} {g version : Str}

theorem setCall_call {call : ServiceCall} : (s.setCall i call).call i = call := if_pos rfl

/-- A thread still has to compare the grant, or is about to end it. -/
structure Awaits (s : DecisionService) (i : ℕ) (g version : Str) : Prop where
  counts : (s.call i).counts = true
  does : (∃ a, (s.policy.stage i).sweep = some a ∧ a.loaded.policyVersion ≠ version) ∨
    s.grants.service.EndsIn i g version ∨ (s.call i).Rechecks g version

/-- The version is in force, or an end of the grant is ahead. -/
def Covered (s : DecisionService) (g version : Str) : Prop :=
  version = s.policy.currentVersion ∨ ∃ i, s.Awaits i g version

/-- The stop, or the ask that registered the grant behind it, is about to end the grant. -/
def Stopped (s : DecisionService) (g version : Str) : Prop :=
  ∃ i, (s.call i).Stops ∧ s.grants.service.EndsIn i g version

/-- What the calls keep of the live grants. -/
structure Swept (s : DecisionService) : Prop where
  held : s.grants.service.LiveHeld
  covered : ∀ g c, s.registry.connection g = some c → c.live = true →
    s.Covered g c.grant.policyVersion
  stopped : s.registry.stopping = true → ∀ g c, s.registry.connection g = some c →
    c.live = true → s.Stopped g c.grant.policyVersion
  consulting : ∀ i, (s.policy.stage i).inProgress = true → s.call i = .asking ∨ s.call i = .reloading

theorem started_swept (limits : GrantLimits) (loaded : LoadedPolicy) (now : ℤ) :
    (started limits loaded now).Swept where
  held _ _ h := by cases h
  covered _ _ h := by cases h
  stopped h := by cases h
  consulting _ h := by cases h

/-- What is kept of a connection: it was live under the same grant, and what was ahead of it is. -/
def Keeps (s s' : DecisionService) (g : Str) (c' : GrantConnection) : Prop :=
  ∃ c, s.registry.connection g = some c ∧ c.live = true ∧ c'.grant = c.grant ∧
    (s.Covered g c.grant.policyVersion → s'.Covered g c.grant.policyVersion) ∧
    (s.Stopped g c.grant.policyVersion → s'.Stopped g c.grant.policyVersion)

theorem Swept.frame (h : s.Swept) (hheld : s'.grants.service.LiveHeld)
    (hkeeps : ∀ g c, s'.registry.connection g = some c → c.live = true → s.Keeps s' g c)
    (hstopping : s'.registry.stopping = true →
      s.registry.stopping = true ∨ ∀ g version, s'.Stopped g version)
    (hconsulting : ∀ i, (s'.policy.stage i).inProgress = true →
      s'.call i = .asking ∨ s'.call i = .reloading) : s'.Swept := by
  refine ⟨hheld, fun g c hc hlive => ?_, fun hstop g c hc hlive => ?_, hconsulting⟩
  · obtain ⟨c₀, hc₀, hlive₀, hgrant, hcover, -⟩ := hkeeps g c hc hlive
    rw [hgrant]
    exact hcover (h.covered g c₀ hc₀ hlive₀)
  · obtain ⟨c₀, hc₀, hlive₀, hgrant, -, hends⟩ := hkeeps g c hc hlive
    rw [hgrant]
    rcases hstopping hstop with hstop | hall
    · exact hends (h.stopped hstop g c₀ hc₀ hlive₀)
    · exact hall g _

/-! ## Statements of a thread that is ahead of no end -/

/-- The other threads stand as they did. -/
structure Apart (s s' : DecisionService) (i : ℕ) : Prop where
  current : s'.policy.currentVersion = s.policy.currentVersion
  stage : ∀ j, j ≠ i → s'.policy.stage j = s.policy.stage j
  call : ∀ j, j ≠ i → s'.call j = s.call j
  sections : ∀ j, j ≠ i → s'.grants.service.thread j = s.grants.service.thread j

theorem Apart.awaits (h : Apart s s' i) (hj : j ≠ i) (ha : s.Awaits j g version) :
    s'.Awaits j g version := by
  refine ⟨by rw [h.call j hj]; exact ha.counts, ?_⟩
  rw [h.stage j hj, h.call j hj]
  exact ha.does.imp_right fun hor => hor.imp_left fun ⟨x, hx, hends⟩ =>
    ⟨x, (h.sections j hj).symm ▸ hx, hends⟩

theorem Apart.covered (h : Apart s s' i) (hi : s.Awaits i g version → s'.Covered g version)
    (hc : s.Covered g version) : s'.Covered g version := by
  rcases hc with hcurrent | ⟨j, hj⟩
  · exact .inl (hcurrent.trans h.current.symm)
  · by_cases hji : j = i
    · exact hi (hji ▸ hj)
    · exact .inr ⟨j, h.awaits hji hj⟩

theorem Apart.stopped (h : Apart s s' i) (hi : ¬ (s.call i).Stops ∨ s.sections i = [])
    (hc : s.Stopped g version) : s'.Stopped g version := by
  obtain ⟨j, hstops, x, hx, hends⟩ := hc
  have hj : j ≠ i := by
    rintro rfl
    have hmem : x ∈ s.sections j := hx
    rcases hi with hi | hi
    · exact hi hstops
    · rw [hi] at hmem
      cases hmem
  exact ⟨j, by rw [h.call j hj]; exact hstops, x, (h.sections j hj).symm ▸ hx, hends⟩

/-- A thread that has no section, and is in no call of the policy service, has no end ahead, unless
it looks again. -/
theorem not_awaits (hsections : s.sections i = []) (hstage : (s.policy.stage i).sweep = none)
    (hcall : ¬ (s.call i).Rechecks g version) : ¬ s.Awaits i g version := by
  rintro ⟨-, ⟨a, ha, -⟩ | ⟨x, hx, -⟩ | hrechecks⟩
  · rw [hstage] at ha
    cases ha
  · have hnone : x ∈ s.sections i := hx
    rw [hsections] at hnone
    cases hnone
  · exact hcall hrechecks

theorem not_awaits_idle (h : (s.call i).counts = false) : ¬ s.Awaits i g version := by
  intro ha
  rw [ha.counts] at h
  cases h

theorem Swept.apart (h : s.Swept) (hapart : Apart s s' i)
    (hi : ∀ g, g ∈ s.registry.registered → ∀ version, s.Awaits i g version → s'.Covered g version)
    (hidle : ¬ (s.call i).Stops ∨ s.sections i = [])
    (hsame : GrantService.SameConnections s.registry s'.registry)
    (hstopping : s'.registry.stopping = true →
      s.registry.stopping = true ∨ ∀ g version, s'.Stopped g version)
    (hconsulting : (s'.policy.stage i).inProgress = true →
      s'.call i = .asking ∨ s'.call i = .reloading) : s'.Swept := by
  refine h.frame (fun g c hc hlive => ?_) (fun g c hc hlive => ?_) hstopping fun j hj => ?_
  · change g ∈ s'.registry.registered
    change s'.registry.connection g = some c at hc
    rw [hsame.connection] at hc
    rw [hsame.registered]
    exact h.held g c hc hlive
  · rw [hsame.connection] at hc
    exact ⟨c, hc, hlive, rfl, hapart.covered (hi g (h.held g c hc hlive) _), hapart.stopped hidle⟩
  · by_cases hji : j = i
    · subst hji
      exact hconsulting hj
    · rw [hapart.stage j hji] at hj
      rw [hapart.call j hji]
      exact h.consulting j hj

/-- A call of the policy service begins. -/
theorem consults_swept {call : ServiceCall} {stage : LoadStage} (h : s.Swept)
    (hcall : call = .asking ∨ call = .reloading)
    (hs : s.consults i call (s.policy.begin i stage) = some s') : s'.Swept := by
  unfold consults at hs
  split_ifs at hs with hidle
  obtain ⟨policy, hpolicy, rfl⟩ := Option.map_eq_some_iff.1 hs
  unfold PolicyService.begin at hpolicy
  split_ifs at hpolicy
  cases hpolicy
  refine h.apart (i := i) ⟨rfl, fun j hj => if_neg hj, fun j hj => if_neg hj, fun _ _ => rfl⟩
    (fun g _ version ha => absurd ha (not_awaits_idle (by rw [hidle]; rfl))) (.inl (by rw [hidle]; exact id)) ⟨rfl, rfl⟩
    .inl fun _ => ?_
  rw [setCall_call]
  exact hcall

/-- A call of the registry begins, which changes no connection. -/
theorem registers_swept {call : ServiceCall} {l : List GrantSection} {service : GrantService}
    (h : s.Swept) (hidle : s.call i = .idle) (hsections : s.sections i = [])
    (hservice : service = s.grants.service.setThread i l ∨ call = .stopping ∧ service =
      { s.grants.service.setThread i [.stopAll] with
        registry := { s.registry with stopping := true } }) :
    ((s.withService service).setCall i call).Swept := by
  have hstage : (s.policy.stage i).inProgress = false := by
    cases hp : (s.policy.stage i).inProgress
    · rfl
    · rcases h.consulting i hp with hc | hc
      · rw [hidle] at hc
        cases hc
      · rw [hidle] at hc
        cases hc
  have hthread : ∀ j, j ≠ i → service.thread j = s.grants.service.thread j := by
    intro j hj
    rcases hservice with rfl | ⟨-, rfl⟩
    · exact if_neg hj
    · exact if_neg hj
  have hsame : GrantService.SameConnections s.registry service.registry := by
    rcases hservice with rfl | ⟨-, rfl⟩
    · exact ⟨rfl, rfl⟩
    · exact ⟨rfl, rfl⟩
  refine h.apart (i := i) ⟨rfl, fun _ _ => rfl, fun j hj => if_neg hj, hthread⟩
    (fun g _ version ha => absurd ha (not_awaits_idle (by rw [hidle]; rfl))) (.inr hsections) hsame
    (fun hstop => ?_) fun hp => ?_
  · rcases hservice with rfl | ⟨rfl, rfl⟩
    · exact .inl hstop
    · refine .inr fun g version => ⟨i, ?_, .stopAll, ?_, trivial⟩
      · rw [setCall_call]
        trivial
      · have hnow : ((s.grants.service.setThread i [.stopAll]).thread i) = [.stopAll] := if_pos rfl
        change _ ∈ (s.grants.service.setThread i [.stopAll]).thread i
        rw [hnow]
        exact List.mem_singleton_self _
  · exact absurd (show (s.policy.stage i).inProgress = true from hp) (by rw [hstage]; decide)

/-- What a host keeps through an act of an ask that opens nothing. -/
structure SameGrants (a b : GrantHost) : Prop where
  thread : b.service.thread = a.service.thread
  same : GrantService.SameConnections a.service.registry b.service.registry
  stopping : b.service.registry.stopping = a.service.registry.stopping

/-- The acts of an ask but the registration of its grant change no connection. -/
theorem sameGrants {a b : GrantHost} {act : GrantAct} (hs : a.step host settings act = some b)
    (hact : (∃ i asking consulted gc sw dl, act = .reserve i asking consulted gc sw dl) ∨
      (∃ i grantId, act = .prepare i grantId) ∨ (∃ i fate, act = .append i fate) ∨
      (∃ i fate, act = .answer i fate) ∨ ∃ i, act = .cancel i) : SameGrants a b := by
  rcases hact with ⟨i, asking, consulted, gc, sw, dl, rfl⟩ | ⟨i, grantId, rfl⟩ | ⟨i, fate, rfl⟩ |
    ⟨i, fate, rfl⟩ | ⟨i, rfl⟩
  · simp only [GrantHost.step] at hs
    split at hs
    · split at hs
      · split at hs
        · cases hs
          exact ⟨rfl, GrantService.reserve_same, GrantService.reserve_stopping _ _⟩
        · cases hs
          exact ⟨rfl, ⟨rfl, rfl⟩, rfl⟩
      · cases hs
    · cases hs
  · simp only [GrantHost.step] at hs
    split at hs
    · split at hs
      · cases hs
        exact ⟨rfl, ⟨rfl, rfl⟩, rfl⟩
      · cases hs
        exact ⟨rfl, ⟨rfl, rfl⟩, rfl⟩
    · cases hs
  · simp only [GrantHost.step] at hs
    split at hs
    · cases hs
      exact ⟨rfl, ⟨rfl, rfl⟩, rfl⟩
    · cases hs
  · obtain ⟨stage, -, rfl⟩ := Option.map_eq_some_iff.1 hs
    exact ⟨rfl, ⟨rfl, rfl⟩, rfl⟩
  · simp only [GrantHost.step] at hs
    split at hs
    · obtain ⟨service, hservice, rfl⟩ := Option.map_eq_some_iff.1 hs
      cases hservice
      exact ⟨rfl, GrantService.cancel_same, GrantService.cancel_stopping _ _⟩
    · cases hs

/-- An act of an ask that opens nothing. -/
theorem asks_swept (h : s.Swept) (hsections : s.sections i = [])
    (hstage : (s.policy.stage i).inProgress = false)
    (hrechecks : ∀ g version, ¬ (s.call i).Rechecks g version) (hpolicy : s'.policy = s.policy)
    (hgrants : SameGrants s.grants s'.grants) (hcall : ∀ j, j ≠ i → s'.call j = s.call j) :
    s'.Swept := by
  have hsweep : (s.policy.stage i).sweep = none := by
    cases hp : s.policy.stage i <;> rw [hp] at hstage <;> first | rfl | cases hstage
  refine h.apart (i := i) ⟨by rw [hpolicy], fun _ _ => by rw [hpolicy], hcall, fun j _ => ?_⟩
    (fun g _ version ha => absurd ha (not_awaits hsections hsweep (hrechecks g version)))
    (.inr hsections) hgrants.same (fun hstop => .inl ?_) fun hp => ?_
  · exact congrFun hgrants.thread j
  · exact hgrants.stopping ▸ hstop
  · rw [hpolicy, hstage] at hp
    cases hp

/-! ## Statements of the policy service -/

/-- What one statement does to the policy in force, and to what the listener has to be told. -/
theorem perform_sweep {p p' : PolicyService} {now : ℤ} {failed : List (Str × Str)}
    (hp : p.perform reloadSeconds i now failed = some p') :
    (p.stage i).inProgress = true ∧ (∀ j, j ≠ i → p'.stage j = p.stage j) ∧
    ((p'.currentVersion = p.currentVersion ∧
        ((p'.stage i).sweep = (p.stage i).sweep ∨ ∃ d a, p.stage i = .signalling d a)) ∨
      ∃ a, (p'.stage i).sweep = some a ∧ p'.currentVersion = a.loaded.policyVersion ∧
        (p.stage i).sweep = none) := by
  have hown : ∀ (q : PolicyService) (stage : LoadStage), (q.setStage i stage).stage i = stage :=
    fun _ _ => if_pos rfl
  unfold PolicyService.perform at hp
  cases hstage : p.stage i with
  | idle => rw [hstage] at hp; cases hp
  | given loaded => rw [hstage] at hp; cases hp
  | reading d =>
    rw [hstage] at hp
    dsimp only at hp
    split at hp
    · cases hp
      exact ⟨rfl, fun j hj => if_neg hj, .inl ⟨rfl, .inl (by rw [hown]; rfl)⟩⟩
    · cases hp
      exact ⟨rfl, fun j hj => if_neg hj, .inl ⟨rfl, .inl (by rw [hown]; rfl)⟩⟩
  | assigning d a previous =>
    rw [hstage] at hp
    cases hp
    exact ⟨rfl, fun j hj => if_neg hj, .inr ⟨a, by rw [hown]; rfl, rfl, rfl⟩⟩
  | signalling d a =>
    rw [hstage] at hp
    cases hp
    exact ⟨rfl, fun j hj => if_neg hj, .inl ⟨rfl, .inr ⟨d, a, rfl⟩⟩⟩
  | aging at_ | failing u =>
    rw [hstage] at hp
    cases hp
    refine ⟨rfl, fun j hj => if_neg hj, .inl ⟨rfl, .inl ?_⟩⟩
    rw [hown]
    split_ifs <;> rfl
  | comparing d a =>
    rw [hstage] at hp
    cases hp
    refine ⟨rfl, fun j hj => if_neg hj, .inl ⟨rfl, .inl ?_⟩⟩
    rw [hown]
    cases d <;> split_ifs <;> rfl
  | _ =>
    rw [hstage] at hp
    cases hp
    exact ⟨rfl, fun j hj => if_neg hj, .inl ⟨rfl, .inl (by rw [hown]; rfl)⟩⟩

/-- The statements of a load: a policy put into force has its listener still to be told, and the
listener has every registered grant to compare. -/
theorem policy_swept {now : ℤ} (h : s.Swept)
    (hs : s.step host settings reloadSeconds (.policy i now) = some s') : s'.Swept := by
  obtain ⟨policy, hp, hs⟩ := Option.bind_eq_some_iff.1 hs
  change s.policy.perform reloadSeconds i now [] = some policy at hp
  obtain ⟨hprogress, hother, hcases⟩ := perform_sweep hp
  have hcall := h.consulting i hprogress
  have hcounts : (s.call i).counts = true := by
    rcases hcall with hc | hc <;> rw [hc] <;> rfl
  have hconsulting : ∀ j, (policy.stage j).inProgress = true →
      s.call j = .asking ∨ s.call j = .reloading := by
    intro j hj
    by_cases hji : j = i
    · rw [hji]
      exact hcall
    · rw [hother j hji] at hj
      exact h.consulting j hj
  by_cases hsignal : ∃ d a, s.policy.stage i = .signalling d a
  · obtain ⟨d, a, hstage⟩ := hsignal
    rw [hstage] at hs
    obtain ⟨service, hservice, rfl⟩ := Option.map_eq_some_iff.1 hs
    obtain ⟨hidle, rfl⟩ := GrantService.begin_cases hservice
    have hcurrent : policy.currentVersion = s.policy.currentVersion := by
      obtain ⟨hcurrent, -⟩ | ⟨_, -, -, hnone⟩ := hcases
      · exact hcurrent
      · rw [hstage] at hnone
        cases hnone
    refine h.frame (fun g c hc hlive => h.held g c hc hlive) (fun g c hc hlive => ?_) .inl hconsulting
    refine ⟨c, hc, hlive, rfl, fun hcover => ?_, fun ⟨j, hstops, hends⟩ => ⟨j, hstops, ?_⟩⟩
    · rcases hcover with hnow | ⟨j, hcounts', hdoes⟩
      · exact .inl (hnow.trans hcurrent.symm)
      refine .inr ⟨j, hcounts', ?_⟩
      by_cases hj : j = i
      · subst hj
        obtain ⟨b, hb, hne⟩ | ⟨x, hx, -⟩ | hrechecks := hdoes
        · rw [hstage] at hb
          cases hb
          refine .inr (.inl ⟨.compare g a.loaded.policyVersion, ?_, rfl, hne⟩)
          change _ ∈ (s.grants.service.setThread j _).thread j
          have hnow : ∀ l, (s.grants.service.setThread j l).thread j = l := fun _ => if_pos rfl
          rw [hnow]
          exact List.mem_map_of_mem (h.held g c hc hlive)
        · rw [hidle] at hx
          cases hx
        · exact .inr (.inr hrechecks)
      · rw [← hother j hj] at hdoes
        exact hdoes.imp_right fun hor => hor.imp_left fun hends =>
          (GrantService.setThread_endsIn hj).2 hends
    · refine (GrantService.setThread_endsIn ?_).2 hends
      rintro rfl
      obtain ⟨x, hx, -⟩ := hends
      rw [hidle] at hx
      cases hx
  · have hs' : s' = { s with policy } := by
      cases hstage : s.policy.stage i with
      | signalling d a => exact absurd ⟨d, a, hstage⟩ hsignal
      | _ => rw [hstage] at hs; cases hs; rfl
    subst hs'
    refine h.frame h.held (fun g c hc hlive => ⟨c, hc, hlive, rfl, fun hcover => ?_, id⟩) .inl
      hconsulting
    obtain ⟨hcurrent, hsweep⟩ | ⟨a, hsweep, hcurrent, hnone⟩ := hcases
    · rcases hcover with hnow | ⟨j, hcounts', hdoes⟩
      · exact .inl (hnow.trans hcurrent.symm)
      refine .inr ⟨j, hcounts', ?_⟩
      by_cases hj : j = i
      · subst hj
        rw [← hsweep.resolve_right hsignal] at hdoes
        exact hdoes
      · rw [← hother j hj] at hdoes
        exact hdoes
    · by_cases hnow : c.grant.policyVersion = a.loaded.policyVersion
      · exact .inl (hnow.trans hcurrent.symm)
      · exact .inr ⟨i, hcounts, .inl ⟨a, hsweep, Ne.symm hnow⟩⟩

/-! ## Sections of the registry -/

theorem turn_swept {now : ℤ} {taken : Bool} {service : GrantService} (h : s.Swept)
    (hs : s.grants.service.step (.turn i now taken) = some service) :
    (s.withService service).Swept := by
  obtain ⟨hheld, hstays⟩ := GrantService.turn_live h.held hs
  have hflag : service.registry.stopping = s.registry.stopping := by
    obtain hflag | ⟨t, ht⟩ := GrantService.step_stopping hs
    · exact hflag
    · cases ht
  refine h.frame hheld (fun g c hc hlive => ?_) (fun hstop => .inl (hflag ▸ hstop)) h.consulting
  obtain ⟨c₀, hc₀, hlive₀, hgrant, hends⟩ := hstays g c hc hlive
  refine ⟨c₀, hc₀, hlive₀, hgrant, fun hcover => ?_, fun ⟨j, hstops, hj⟩ => ⟨j, hstops, hends j hj⟩⟩
  exact hcover.imp_right fun ⟨j, hcounts, hdoes⟩ =>
    ⟨j, hcounts, hdoes.imp_right fun hor => hor.imp_left (hends j)⟩

/-- A grant is registered, and the ask looks at the version again; behind a stop it ends it. -/
theorem openReserved_swept (h : s.Swept)
    (hs : s.step host settings reloadSeconds (.openReserved i) = some s') : s'.Swept := by
  simp only [step] at hs
  split at hs
  · rename_i grant signalWriter r hopening
    obtain ⟨s₁, hwithin, rfl⟩ := Option.map_eq_some_iff.1 hs
    unfold within at hwithin
    split_ifs at hwithin with hready
    obtain ⟨hcall, hsections⟩ := hready
    obtain ⟨grants, hgrants, rfl⟩ := Option.map_eq_some_iff.1 hwithin
    simp only [GrantHost.step, hopening] at hgrants
    obtain ⟨service, hservice, rfl⟩ := Option.map_eq_some_iff.1 hgrants
    have hstage : (s.policy.stage i).inProgress = false := by
      cases hp : (s.policy.stage i).inProgress
      · rfl
      · rcases h.consulting i hp with hc | hc
        · rw [hcall] at hc
          cases hc
        · rw [hcall] at hc
          cases hc
    have hflag : service.registry.stopping = s.registry.stopping := by
      obtain hflag | ⟨t, ht⟩ := GrantService.step_stopping hservice
      · exact hflag
      · cases ht
    simp only [GrantService.step] at hservice
    split_ifs at hservice with hfresh
    have hcalling := GrantService.calling_opens hfresh hservice
    obtain ⟨hheld, hlives⟩ := hcalling.live h.held
    unfold GrantService.openReserved at hservice
    split at hservice
    · -- the reservation was not the ask's to open any more
      rename_i registry hopen
      obtain ⟨s₁, hbegin, rfl⟩ := Option.map_eq_some_iff.1 hservice
      obtain ⟨hidle, rfl⟩ := GrantService.begin_cases hbegin
      obtain ⟨-, hsame⟩ | ⟨_, hopened, -⟩ := GrantService.openReserved_cases hopen
      · refine asks_swept h hsections hstage (fun g version hr => ?_) rfl ⟨?_, hsame, hflag⟩
          fun j hj => if_neg hj
        · rw [hcall] at hr
          exact hr
        · funext j
          by_cases hj : j = i
          · rw [hj]
            exact (if_pos rfl).trans hidle.symm
          · exact if_neg hj
      · cases hopened
    · rename_i registry hopen
      obtain ⟨s₁, hbegin, rfl⟩ := Option.map_eq_some_iff.1 hservice
      obtain ⟨hidle, rfl⟩ := GrantService.begin_cases hbegin
      have hopened : (s.registry.openReserved r grant signalWriter).1 = true :=
        congrArg Prod.fst hopen
      rw [if_pos hopened]
      have hsweep : (s.policy.stage i).sweep = none := by
        cases hp : s.policy.stage i <;> rw [hp] at hstage <;> first | rfl | cases hstage
      have hnot : ∀ g version, ¬ s.Awaits i g version := fun g version =>
        not_awaits hsections hsweep (by rw [hcall]; exact id)
      generalize hs' : setCall _ i _ = s'
      have hapart : Apart s s' i := by
        subst hs'
        exact ⟨rfl, fun _ _ => rfl, fun j hj => if_neg hj, fun j hj => if_neg hj⟩
      have hnow : s'.call i = .rechecking grant := by
        subst hs'
        exact setCall_call
      have hthread : s'.grants.service.thread i = .record (.ofGrant grant) ::
          if registry.stopping then [.stop grant.grantId] else [] := by
        subst hs'
        exact if_pos rfl
      have hregistry : s'.registry = registry := by
        subst hs'
        rfl
      -- the connection that was not there before is the one of the grant
      have hnew : ∀ g c, s'.registry.connection g = some c → s.registry.connection g = none →
          g = grant.grantId ∧ c.grant = grant := by
        intro g c hc hnone
        obtain ⟨hno, -⟩ | ⟨uid, -, -, hregister⟩ := GrantService.openReserved_cases hopen
        · cases hno
        rw [hregistry, hregister] at hc
        unfold GrantConnections.register at hc
        dsimp only at hc
        split at hc
        · rename_i hg
          cases hc
          exact ⟨hg, rfl⟩
        · rw [GrantService.release_same.connection] at hc
          exact absurd (hc.symm.trans hnone) (by simp)
      refine ⟨by subst hs'; exact hheld, fun g c hc hlive => ?_, fun hstop g c hc hlive => ?_,
        fun j hj => ?_⟩
      · obtain ⟨c₀, hc₀, hlive₀, hgrant, -⟩ | hnone := hlives g c (by subst hs'; exact hc) hlive
        · rw [hgrant]
          exact hapart.covered (fun ha => absurd ha (hnot g _)) (h.covered g c₀ hc₀ hlive₀)
        · obtain ⟨rfl, hgrant⟩ := hnew g c hc hnone
          refine .inr ⟨i, by rw [hnow]; rfl, .inr (.inr ?_)⟩
          rw [hnow]
          exact ⟨rfl, congrArg (·.policyVersion) hgrant.symm⟩
      · rw [hregistry] at hstop
        obtain ⟨c₀, hc₀, hlive₀, hgrant, -⟩ | hnone := hlives g c (by subst hs'; exact hc) hlive
        · rw [hgrant]
          exact hapart.stopped (.inr hsections) (h.stopped (hflag ▸ hstop) g c₀ hc₀ hlive₀)
        · obtain ⟨rfl, -⟩ := hnew g c hc hnone
          refine ⟨i, by rw [hnow]; trivial, .stop grant.grantId, ?_, rfl⟩
          rw [hthread, if_pos hstop]
          exact .tail _ (.head _)
      · have hp : (s.policy.stage j).inProgress = true := by
          subst hs'
          exact hj
        have hji : j ≠ i := by
          rintro rfl
          rw [hstage] at hp
          cases hp
        rw [hapart.call j hji]
        exact h.consulting j hp
  · cases hs

/-! ## The second look -/

theorem Swept.given (h : s.Swept) (hcall : s.call i ≠ .asking ∧ s.call i ≠ .reloading) :
    (s.policy.stage i).inProgress = false := by
  cases hp : (s.policy.stage i).inProgress
  · rfl
  · rcases h.consulting i hp with hc | hc
    · exact absurd hc hcall.1
    · exact absurd hc hcall.2

theorem sweep_none {stage : LoadStage} (h : stage.inProgress = false) : stage.sweep = none := by
  cases stage <;> first | rfl | cases h

/-- The ask finds the version of its grant in force, or sees that it is not. -/
theorem recheck_swept (h : s.Swept)
    (hs : s.step host settings reloadSeconds (.recheck i) = some s') : s'.Swept := by
  simp only [step] at hs
  split at hs
  · rename_i grant hcall
    obtain ⟨hsections, hs⟩ := Option.ite_none_right_eq_some.1 hs
    cases hs
    have hstage := h.given (i := i) (by rw [hcall]; exact ⟨nofun, nofun⟩)
    refine h.apart (i := i) ⟨rfl, fun _ _ => rfl, fun j hj => if_neg hj, fun _ _ => rfl⟩
      (fun g _ version ⟨_, hdoes⟩ => ?_) (.inr hsections) ⟨rfl, rfl⟩ .inl fun hp => ?_
    · obtain ⟨a, ha, -⟩ | ⟨x, hx, -⟩ | hrechecks := hdoes
      · rw [sweep_none hstage] at ha
        cases ha
      · have hmem : x ∈ s.sections i := hx
        rw [hsections] at hmem
        cases hmem
      · rw [hcall] at hrechecks
        obtain ⟨hg, rfl⟩ := hrechecks
        by_cases hnow : s.policy.currentVersion = grant.policyVersion
        · exact .inl hnow.symm
        · rw [if_pos hnow]
          refine .inr ⟨i, by rw [setCall_call]; rfl, .inr (.inr ?_)⟩
          rw [setCall_call]
          exact ⟨hg, rfl⟩
    · exact absurd (hstage.symm.trans hp) (by decide)
  · cases hs

/-- The ask tells the registry of the version it finds in force. -/
theorem resweep_swept (h : s.Swept)
    (hs : s.step host settings reloadSeconds (.resweep i) = some s') : s'.Swept := by
  simp only [step] at hs
  split at hs
  · rename_i grant hcall
    obtain ⟨service, hservice, rfl⟩ := Option.map_eq_some_iff.1 hs
    obtain ⟨hidle, rfl⟩ := GrantService.begin_cases hservice
    have hstage := h.given (i := i) (by rw [hcall]; exact ⟨nofun, nofun⟩)
    refine h.apart (i := i) ⟨rfl, fun _ _ => rfl, fun j hj => if_neg hj, fun j hj => if_neg hj⟩
      (fun g hg version _ => ?_) (.inr hidle) ⟨rfl, rfl⟩ .inl fun hp => ?_
    · by_cases hnow : version = s.policy.currentVersion
      · exact .inl hnow
      · refine .inr ⟨i, by rw [setCall_call]; rfl, .inr (.inl ?_)⟩
        have hthread : ∀ l, (s.grants.service.setThread i l).thread i = l := fun _ => if_pos rfl
        refine ⟨.compare g s.policy.currentVersion, ?_, rfl, Ne.symm hnow⟩
        change _ ∈ (s.grants.service.setThread i _).thread i
        rw [hthread]
        exact List.mem_map_of_mem hg
    · exact absurd (hstage.symm.trans hp) (by decide)
  · cases hs

/-! ## Steps and runs -/

/-- A connection that ends itself begins with the sections of one thread. -/
theorem endItself_cases {a b : GrantService} {f : GrantConnection → GrantSection}
    (hs : a.endItself i g f = some b) : ∃ l, a.thread i = [] ∧ b = a.setThread i l := by
  unfold GrantService.endItself at hs
  split at hs
  · cases hs
  · exact ⟨_, GrantService.begin_cases hs⟩

theorem within_swept {gact : GrantAct} (h : s.Swept) (hs : s.within host settings i gact = some s')
    (hact : (∃ i asking consulted gc sw dl, gact = .reserve i asking consulted gc sw dl) ∨
      (∃ i grantId, gact = .prepare i grantId) ∨ (∃ i fate, gact = .append i fate) ∨
      (∃ i fate, gact = .answer i fate) ∨ ∃ i, gact = .cancel i) : s'.Swept := by
  obtain ⟨⟨hcall, hsections⟩, hs⟩ := Option.ite_none_right_eq_some.1 hs
  obtain ⟨grants, hgrants, rfl⟩ := Option.map_eq_some_iff.1 hs
  exact asks_swept h hsections (h.given (by rw [hcall]; exact ⟨nofun, nofun⟩))
    (by rw [hcall]; exact fun _ _ => id) rfl (sameGrants hgrants hact) fun _ _ => rfl

/-- **One step** leaves every live grant of another version than the one in force an end ahead. -/
theorem step_swept (h : s.Swept) (hs : s.step host settings reloadSeconds act = some s') :
    s'.Swept := by
  cases act with
  | edit answer =>
    cases hs
    exact h.frame h.held (fun g c hc hlive => ⟨c, hc, hlive, rfl,
      fun hcover => hcover.imp_right fun ⟨j, hcounts, hdoes⟩ => ⟨j, hcounts, hdoes⟩,
      fun ⟨j, hstops, hends⟩ => ⟨j, hstops, hends⟩⟩) .inl h.consulting
  | ask i now => exact consults_swept h (.inl rfl) hs
  | reloadIfDue i now => exact consults_swept h (.inr rfl) hs
  | policy i now => exact policy_swept h hs
  | turn i now taken =>
    obtain ⟨service, hservice, rfl⟩ := Option.map_eq_some_iff.1 hs
    exact turn_swept h hservice
  | openReserved i => exact openReserved_swept h hs
  | recheck i => exact recheck_swept h hs
  | resweep i => exact resweep_swept h hs
  | shutdown i =>
    obtain ⟨hidle, hs⟩ := Option.ite_none_right_eq_some.1 hs
    obtain ⟨service, hservice, rfl⟩ := Option.map_eq_some_iff.1 hs
    obtain ⟨s₁, hbegin, rfl⟩ := Option.map_eq_some_iff.1 hservice
    obtain ⟨hthread, rfl⟩ := GrantService.begin_cases hbegin
    exact registers_swept (l := []) h hidle hthread (.inr ⟨rfl, rfl⟩)
  | tick i now =>
    obtain ⟨hidle, hs⟩ := Option.ite_none_right_eq_some.1 hs
    obtain ⟨service, hservice, rfl⟩ := Option.map_eq_some_iff.1 hs
    obtain ⟨hthread, rfl⟩ := GrantService.begin_cases hservice
    exact registers_swept h hidle hthread (.inl rfl)
  | peerClosed i g | peerWrote i g | reachedItsLifetime i now g =>
    obtain ⟨hidle, hs⟩ := Option.ite_none_right_eq_some.1 hs
    obtain ⟨service, hservice, rfl⟩ := Option.map_eq_some_iff.1 hs
    obtain ⟨l, hthread, rfl⟩ := endItself_cases hservice
    exact registers_swept h hidle hthread (.inl rfl)
  | reserve i asking consulted gc sw dl =>
    simp only [step] at hs
    split at hs
    · rename_i loaded hgiven
      obtain ⟨⟨hcall, hsections, -⟩, hs⟩ := Option.ite_none_right_eq_some.1 hs
      obtain ⟨grants, hgrants, rfl⟩ := Option.map_eq_some_iff.1 hs
      exact asks_swept h hsections (by rw [hgiven]; rfl) (by rw [hcall]; exact fun _ _ => id) rfl
        (sameGrants hgrants (.inl ⟨_, _, _, _, _, _, rfl⟩)) fun j hj => if_neg hj
    · cases hs
  | prepare i grantId => exact within_swept h hs (.inr (.inl ⟨i, grantId, rfl⟩))
  | append i fate => exact within_swept h hs (.inr (.inr (.inl ⟨i, fate, rfl⟩)))
  | answer i fate => exact within_swept h hs (.inr (.inr (.inr (.inl ⟨i, fate, rfl⟩))))
  | cancel i => exact within_swept h hs (.inr (.inr (.inr (.inr ⟨i, rfl⟩))))
  | ends i =>
    simp only [step] at hs
    split_ifs at hs with hbusy
    obtain ⟨hstage, hsections⟩ := not_or.1 hbusy
    split at hs
    · cases hs
    · cases hs
    · rename_i _ hrechecking hresweeping
      cases hs
      refine asks_swept h (not_not.1 hsections) (Bool.eq_false_iff.2 hstage) (fun g version hr => ?_)
        rfl ⟨rfl, ⟨rfl, rfl⟩, rfl⟩ fun j hj => if_neg hj
      cases hcall : s.call i with
      | rechecking grant => exact hrechecking grant hcall
      | resweeping grant => exact hresweeping grant hcall
      | _ => rw [hcall] at hr; exact hr
    · cases hs

/-- No ask, reload or shutdown is in progress. -/
def Quiet (s : DecisionService) : Prop := ∀ i, (s.call i).counts = false

theorem Swept.quiet (h : s.Swept) (hquiet : s.Quiet) {c : GrantConnection}
    (hc : s.registry.connection g = some c) (hlive : c.live = true) :
    c.grant.policyVersion = s.policy.currentVersion := by
  obtain hcurrent | ⟨i, hawaits⟩ := h.covered g c hc hlive
  · exact hcurrent
  · exact absurd hawaits (not_awaits_idle (hquiet i))

/-- **No grant outlives its policy**: with no ask, reload or shutdown in progress every live grant
is of the version in force, and none is live where the daemon has stopped. A grant that is live
behind a stop belongs to an ask that is about to end it. -/
theorem grants_current {limits : GrantLimits} {loaded : LoadedPolicy} {now : ℤ}
    {acts : List ServiceAct}
    (h : run (step host settings reloadSeconds) (started limits loaded now) acts = some s) :
    (s.Quiet → ∀ g c, s.registry.connection g = some c → c.live = true →
      c.grant.policyVersion = s.policy.currentVersion) ∧
    (s.registry.stopping = true → (∀ i, s.call i ≠ .stopping) →
      (s.Quiet → ∀ g c, s.registry.connection g = some c → c.live = false) ∧
      ∀ g c, s.registry.connection g = some c → c.live = true →
        ∃ i grant, s.call i = .rechecking grant ∧
          s.grants.service.EndsIn i g c.grant.policyVersion) := by
  have hinv : s.Swept := run_preserves (fun _ _ _ hP hs => step_swept hP hs)
    (started_swept limits loaded now) h
  have hask : s.registry.stopping = true → (∀ i, s.call i ≠ .stopping) → ∀ g c,
      s.registry.connection g = some c → c.live = true → ∃ i grant, s.call i = .rechecking grant ∧
        s.grants.service.EndsIn i g c.grant.policyVersion := by
    intro hstop hover g c hc hlive
    obtain ⟨i, hstops, hends⟩ := hinv.stopped hstop g c hc hlive
    cases hcall : s.call i with
    | rechecking grant => exact ⟨i, grant, hcall, hends⟩
    | stopping => exact absurd hcall (hover i)
    | _ => rw [hcall] at hstops; exact hstops.elim
  refine ⟨fun hquiet g c hc hlive => hinv.quiet hquiet hc hlive, fun hstop hover =>
    ⟨fun hquiet g c hc => ?_, hask hstop hover⟩⟩
  by_contra hlive
  obtain ⟨i, grant, hcall, -⟩ := hask hstop hover g c hc (by simpa using hlive)
  have hidle := hquiet i
  rw [hcall] at hidle
  cases hidle

/-! ### A grant under a policy that was changed to -/

def mailLoaded : LoadedPolicy := ⟨⟨1, [], []⟩, policyVersion GrantHost.mailHost [], 0⟩

/-- The authority changes, an ask finds that it did, and gets its grant. -/
def changedAndGranted : List ServiceAct :=
  [.edit (.ok mailLoaded), .ask 0 5] ++ List.replicate 9 (.policy 0 5) ++
    [.reserve 0 (GrantHost.mailAsking 0) none true false true, .prepare 0 (some (lit "g0")),
      .append 0 .receipt, .answer 0 .returned, .answer 0 .returned, .answer 0 .returned,
      .openReserved 0, .turn 0 5 true, .recheck 0, .ends 0]

theorem grants_current_once : ∃ s c,
    run (step GrantHost.mailHost {} 2) (started {} ⟨⟨1, [], []⟩, lit "v1", 0⟩ 0) changedAndGranted =
      some s ∧
    s.registry.connection (lit "g0") = some c ∧ c.live = true ∧
    c.grant.policyVersion = s.policy.currentVersion ∧ s.policy.currentVersion ≠ lit "v1" := by
  have hrun : (run (step GrantHost.mailHost {} 2) (started {} ⟨⟨1, [], []⟩, lit "v1", 0⟩ 0)
      changedAndGranted).map (fun s => ((s.registry.connection (lit "g0")).map (·.live),
        s.policy.currentVersion)) = some (some true, policyVersion GrantHost.mailHost []) := by
    decide +kernel
  obtain ⟨s, hs, hread⟩ := Option.map_eq_some_iff.1 hrun
  obtain ⟨hconnection, hversion⟩ := Prod.mk.inj hread
  obtain ⟨c, hc, hlive⟩ := Option.map_eq_some_iff.1 hconnection
  have hquiet : s.Quiet := by
    cases hs
    rintro (_ | i) <;> rfl
  refine ⟨s, c, hs, hc, hlive, (grants_current hs).1 hquiet _ c hc hlive, ?_⟩
  rw [hversion]
  decide

end DecisionService

end SayFirst.Plane
