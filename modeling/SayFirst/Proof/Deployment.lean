import SayFirst.Proof.Acts
import SayFirst.Proof.Answers
import SayFirst.Proof.Identities
import SayFirst.Spec.Deployment

/-!
# One yes opens one body

The invariant of a deployment follows each decision from the ledger of the daemon over the
connection that answers it to the body it opens: it is read once, by one boundary, for the question
it was recorded for.

* `Governed` — the invariant.
* `Governed.step` — every step of the daemon, of a boundary or of a connection keeps it.
* `one_yes_one_body` — the law, over every run.
-/

namespace SayFirst

open Py
open Client (ClientHost Members)

/-! ## What a boundary takes in -/

namespace Boundary

variable {py : ClientHost} {fromIso : FromIso} {settings : Settings} {s s' : Acts}

/-- The identity of the decision of an answer. -/
def answeredRef : Plane.DecisionAsk × Answer → Option Str
  | (_, some (.answered decision _, _)) => some decision.decisionRef
  | _ => none

theorem answeredRef_of_not {p : Plane.DecisionAsk × Answer} (h : p.2.answers = false) :
    answeredRef p = none := by
  obtain ⟨ask, answer⟩ := p
  match answer, h with
  | none, _ => rfl
  | some (.refused _, _), _ => rfl
  | some (.couldNotAsk _, _), _ => rfl
  | some (.answered _ _, _), h => cases h

theorem answeredRef_some {p : Plane.DecisionAsk × Answer} {ref : Str}
    (h : answeredRef p = some ref) :
    ∃ decision generation stream, p.2 = some (.answered decision generation, stream) ∧
      decision.decisionRef = ref := by
  unfold answeredRef at h
  split at h
  · exact ⟨_, _, _, rfl, Option.some.inj h⟩
  · cases h

theorem allowing_some {p : Plane.DecisionAsk × Answer} {ask : Plane.DecisionAsk}
    {decision : Contract.Decision} (h : allowing p = some (ask, decision)) :
    ∃ generation stream, p = (ask, some (.answered decision generation, stream)) ∧
      decision.outcome = .allow := by
  unfold allowing at h
  split at h
  · split at h
    · rename_i hallow
      cases h
      exact ⟨_, _, rfl, hallow⟩
    · cases h
  · cases h

/-- A step that reads no decision adds no answer that is one. -/
theorem answers_step {event : ActEvent} (h : event.answers = false)
    (hs : s.step py fromIso settings event = some s') :
    ∃ more, s'.answers = s.answers ++ more ∧ ∀ p ∈ more, p.2.answers = false := by
  have same : s'.answers = s.answers →
      ∃ more, s'.answers = s.answers ++ more ∧ ∀ p ∈ more, p.2.answers = false :=
    fun heq => ⟨[], by rw [heq, List.append_nil], by simp⟩
  cases event with
  | boundary event =>
    obtain ⟨state, hstate, hs'⟩ := Option.bind_eq_some_iff.1 hs
    cases hs'
    refine ⟨s.state.answering event, rfl, fun p hp => ?_⟩
    cases event with
    | answer number answer =>
      obtain ⟨ask, -, rfl⟩ := Option.map_eq_some_iff.1 (Option.mem_toList.1 hp)
      exact h
    | _ => cases hp
  | records body digest at_ =>
    obtain ⟨handle, -, rfl⟩ := Option.map_eq_some_iff.1 hs
    exact same (log_frame s body handle (some digest) at_).2.2.1
  | leaves body at_ =>
    obtain ⟨handle, -, hs'⟩ := Option.bind_eq_some_iff.1 hs
    split at hs'
    · cases hs'
    · cases hs'
      refine same ?_
      unfold Acts.leave
      simp only
      split
      · rfl
      · exact (log_frame s body handle none at_).2.2.1
  | flush sink =>
    cases hs
    exact same rfl

/-- A boundary that reads an answer takes it in for its question. -/
theorem answers_reads {number : ℕ} {ask : Plane.DecisionAsk} {answer : Answer}
    (hask : s.state.asking[number]? = some ask)
    (hs : s.step py fromIso settings (.boundary (.answer number answer)) = some s') :
    s'.answers = s.answers ++ [(ask, answer)] := by
  obtain ⟨state, -, hs'⟩ := Option.bind_eq_some_iff.1 hs
  cases hs'
  simp only [State.answering, hask, Option.map_some, Option.toList]

/-- A body that was opened by an answer is named by its decision. -/
def Entered.Named (entered : Entered) : Prop :=
  ∀ decision, entered.opening = .allowed decision → entered.decisionRef = decision.decisionRef

theorem named_answered {s : State} {ask : Plane.DecisionAsk} {answer : Answer}
    (h : ∀ entered ∈ s.entered, entered.Named) :
    ∀ entered ∈ (s.answered fromIso settings ask answer).entered, entered.Named := by
  unfold State.answered State.ask
  match answer with
  | none => exact h
  | some (.refused _, _) => exact h
  | some (.couldNotAsk _, _) => exact h
  | some (.answered decision generation, stream) =>
    simp only
    cases houtcome : decision.outcome with
    | deny => exact h
    | suspend => exact h
    | allow =>
      intro entered hmem
      simp only [State.enter, entered_hold] at hmem
      rcases List.mem_append.1 hmem with hmem | hmem
      · exact h entered hmem
      · rw [List.mem_singleton.1 hmem]
        intro decision' hopening
        cases hopening
        rfl

theorem named_step {s s' : State} {event : Event} (h : ∀ entered ∈ s.entered, entered.Named)
    (hs : step py fromIso settings s event = some s') : ∀ entered ∈ s'.entered, entered.Named := by
  cases event with
  | request capability scope digest now =>
    cases hs
    unfold State.request
    cases digest with
    | none => exact h
    | some digest =>
      simp only
      split
      · split
        · intro entered hmem
          rcases List.mem_append.1 hmem with hmem | hmem
          · exact h entered hmem
          · rw [List.mem_singleton.1 hmem]
            intro decision hopening
            cases hopening
        · exact h
        · exact h
      · exact h
  | answer number answer =>
    obtain ⟨ask, -, rfl⟩ := Option.map_eq_some_iff.1 hs
    exact named_answered h
  | frame reader document =>
    cases hs
    exact h
  | channelEnded reader =>
    cases hs
    exact h
  | close =>
    cases hs
    exact h

theorem named_acts {event : ActEvent} (h : ∀ entered ∈ s.state.entered, entered.Named)
    (hs : s.step py fromIso settings event = some s') :
    ∀ entered ∈ s'.state.entered, entered.Named := by
  cases event with
  | boundary event =>
    obtain ⟨state, hstate, hs'⟩ := Option.bind_eq_some_iff.1 hs
    cases hs'
    exact named_step h hstate
  | records body digest at_ =>
    obtain ⟨handle, -, rfl⟩ := Option.map_eq_some_iff.1 hs
    have hstate := (log_frame s body handle (some digest) at_).1
    exact fun entered hmem => h entered (hstate ▸ hmem)
  | leaves body at_ =>
    obtain ⟨handle, -, hs'⟩ := Option.bind_eq_some_iff.1 hs
    split at hs'
    · cases hs'
    · cases hs'
      have hstate := (log_frame s body handle none at_).1
      unfold Acts.leave
      simp only
      split
      · exact h
      · exact fun entered hmem => h entered (hstate ▸ hmem)
  | flush sink =>
    cases hs
    exact h

end Boundary

/-! ## The invariant -/

namespace Deployment

open Plane (World Composition GrantSettings DecisionAsk Committed Inv RefsOnce recordedDecision
  answeredDecision minted)
open Boundary (Acts Permitted Settings FromIso answeredRef)

variable {host : Composition} {grants : GrantSettings} {py : ClientHost} {fromIso : FromIso}
  {settings : ℕ → Settings} {d d' : Deployment}

variable (host grants) in
/-- The decision is the answer to an ask of this question that was recorded. -/
def Recorded (ledger : List Committed) (ask : DecisionAsk) (decision : Contract.Decision)
    (grant : Option Plane.Grant) : Prop :=
  ∃ c ∈ ledger, ∃ grantId, c.asking.question.ask = ask ∧
    c.decision = recordedDecision host c.asking c.consulted grantId ∧
    minted host grants c.asking c.consulted grantId = some grant ∧
    decision = answeredDecision host c.asking c.consulted grantId grant ∧
    (grantId.isSome = true → World.mayGrant c.asking c.consulted = true)

theorem Recorded.mono {ledger more : List Committed} {ask : DecisionAsk}
    {decision : Contract.Decision} {grant : Option Plane.Grant}
    (h : Recorded host grants ledger ask decision grant) (hsub : ∀ c ∈ ledger, c ∈ more) :
    Recorded host grants more ask decision grant := by
  obtain ⟨c, hc, h⟩ := h
  exact ⟨c, hsub c hc, h⟩

/-- The answer of a recorded decision names it. -/
theorem Recorded.ref {ledger : List Committed} {ask : DecisionAsk} {decision : Contract.Decision}
    {grant : Option Plane.Grant} (h : Recorded host grants ledger ask decision grant) :
    decision.decisionRef ∈ ledger.map (·.decision.decisionRef) := by
  obtain ⟨c, hc, grantId, -, hrecorded, -, rfl, -⟩ := h
  exact List.mem_map.2 ⟨c, hc, by rw [hrecorded]; rfl⟩

/-- The decisions a boundary has read, or may still read. -/
def refs (d : Deployment) (boundary : ℕ) : List Str :=
  (d.acts boundary).answers.filterMap answeredRef ++
    (d.replies.filter (·.boundary = boundary)).map (·.decision.decisionRef)

variable (host grants fromIso settings) in
/-- What holds of a deployment at every moment. -/
structure Governed (d : Deployment) : Prop where
  plane : Inv host d.plane
  once : RefsOnce d.plane
  consents : Plane.Consents d.plane
  asked : ∀ i boundary ask question, d.origin i = some (boundary, ask) →
    (d.plane.phase i).question = some question → question.ask = ask
  permitted : ∀ b, Permitted fromIso (settings b) (d.acts b)
  named : ∀ b, ∀ entered ∈ (d.acts b).state.entered, entered.Named
  replies : ∀ r ∈ d.replies, ∃ grant, Recorded host grants d.plane.ledger r.ask r.decision grant
  answers : ∀ b, ∀ p ∈ (d.acts b).answers, ∀ decision generation stream,
    p.2 = some (.answered decision generation, stream) →
      ∃ grant, Recorded host grants d.plane.ledger p.1 decision grant ∧
        ∀ g, stream = some (some g) → ∃ m, grant = some m ∧ g = Client.grantOf host m.toGrantFields
  readOnce : ∀ b, (d.refs b).Nodup
  apart : ∀ b b', b ≠ b' → (d.refs b).Disjoint (d.refs b')

theorem Governed.known (h : Governed host grants fromIso settings d) (b : ℕ) :
    ∀ ref ∈ d.refs b, ref ∈ d.plane.ledger.map (·.decision.decisionRef) := by
  intro ref href
  rcases List.mem_append.1 href with href | href
  · obtain ⟨p, hp, hsome⟩ := List.mem_filterMap.1 href
    obtain ⟨decision, generation, stream, hanswer, rfl⟩ := Boundary.answeredRef_some hsome
    obtain ⟨grant, hrecorded, -⟩ := h.answers b p hp decision generation stream hanswer
    exact hrecorded.ref
  · obtain ⟨r, hr, rfl⟩ := List.mem_map.1 href
    obtain ⟨grant, hrecorded⟩ := h.replies r (List.mem_of_mem_filter hr)
    exact hrecorded.ref

theorem governed_start (now : ℤ) {capacity : ℕ} {logs : ℕ → Boundary.OutcomeLog}
    (hlogs : ∀ b, Boundary.OutcomeLog.made capacity = some (logs b)) :
    Governed host grants fromIso settings (start now logs) where
  plane := Plane.initial_inv host now
  once := .initial now
  consents := .initial now
  asked := fun _ _ _ _ horigin => (by cases horigin)
  permitted := fun b => Boundary.permitted_begin (hlogs b)
  named := fun _ _ hmem => (by cases hmem)
  replies := fun _ hr => (by cases hr)
  answers := fun _ _ hp => (by cases hp)
  readOnce := fun _ => List.nodup_nil
  apart := fun _ _ _ _ hmem => (by cases hmem)

/-! ## Every step -/

/-- The answers a step of the daemon gives. -/
theorem answering_cases {event : Plane.Event} {replies : List Reply}
    (h : d.answering host grants event = some replies) :
    replies = [] ∨ ∃ i grantId storeId position a consulted grant boundary ask,
      event = .append i grantId (.position storeId position) ∧
      d.plane.phase i = .recording a consulted ∧
      minted host grants a consulted grantId = some grant ∧ d.origin i = some (boundary, ask) ∧
      replies = [⟨boundary, ask, answeredDecision host a consulted grantId grant⟩] := by
  unfold answering at h
  split at h
  · rename_i i grantId storeId position
    split at h
    · rename_i a consulted hphase
      split at h
      · cases h
      · rename_i grant hgrant
        cases horigin : d.origin i with
        | none =>
          rw [horigin] at h
          cases h
          exact .inl rfl
        | some asked =>
          obtain ⟨boundary, ask⟩ := asked
          rw [horigin] at h
          cases h
          exact .inr ⟨i, grantId, storeId, position, a, consulted, grant, boundary, ask, rfl,
            hphase, hgrant, horigin, rfl⟩
    · cases h
      exact .inl rfl
  · cases h
    exact .inl rfl

/-- The ledger only grows. -/
theorem ledger_grows {w w' : World} {event : Plane.Event} (hs : Plane.step host w event = some w') :
    ∀ c ∈ w.ledger, c ∈ w'.ledger := by
  intro c hc
  cases Plane.step_moves hs with
  | goesOn _ hledger => rw [hledger]; exact hc
  | asked _ _ hledger => rw [hledger]; exact hc
  | decided _ _ _ _ _ hledger => rw [hledger]; exact hc
  | recorded _ _ _ _ _ _ _ hledger => rw [hledger]; exact List.mem_cons_of_mem _ hc

/-- What the asks are for stays, but of an ask that is put anew. -/
theorem asked_step {w w' : World} {event : Plane.Event} {origin : ℕ → Option (ℕ × DecisionAsk)}
    (hasked : ∀ i boundary ask question, origin i = some (boundary, ask) →
      (w.phase i).question = some question → question.ask = ask)
    (hs : Plane.step host w event = some w') :
    ∀ i boundary ask question, origin i = some (boundary, ask) →
      (w'.phase i).question = some question → question.ask = ask ∨ event = .ask i question := by
  intro i boundary ask question horigin hquestion
  have other : ∀ {k : ℕ}, (∀ j, j ≠ k → w'.phase j = w.phase j) →
      ((w'.phase k).question = none ∨ (w'.phase k).question = (w.phase k).question) →
      question.ask = ask := by
    intro k hothers hk
    by_cases hik : i = k
    · subst hik
      rcases hk with hk | hk
      · rw [hk] at hquestion
        cases hquestion
      · exact hasked i boundary ask question horigin (hk ▸ hquestion)
    · exact hasked i boundary ask question horigin (hothers i hik ▸ hquestion)
  cases Plane.step_moves hs with
  | goesOn k _ _ hothers hphase => exact .inl (other hothers hphase.question)
  | asked k q _ _ hothers hk =>
    by_cases hik : i = k
    · subst hik
      rw [hk] at hquestion
      exact .inr (by rw [Option.some.inj hquestion])
    · exact .inl (hasked i boundary ask question horigin (hothers i hik ▸ hquestion))
  | decided k _ _ _ _ _ _ hothers hk => exact .inl (other hothers hk)
  | recorded k _ _ _ _ _ _ _ _ hothers hk => exact .inl (other hothers (.inl hk))

namespace Governed

/-- A step of the daemon that answers no boundary. -/
theorem plane_step (h : Governed host grants fromIso settings d) {event : Plane.Event} {w : World}
    (hs : Plane.step host d.plane event = some w) {origin : ℕ → Option (ℕ × DecisionAsk)}
    (hasked : ∀ i boundary ask question, origin i = some (boundary, ask) →
      (w.phase i).question = some question → question.ask = ask) :
    Governed host grants fromIso settings { d with plane := w, origin } :=
  { plane := Plane.step_inv h.plane hs
    once := h.once.step hs
    consents := h.consents.step hs
    asked := hasked
    permitted := h.permitted
    named := h.named
    replies := fun r hr => by
      obtain ⟨grant, hrecorded⟩ := h.replies r hr
      exact ⟨grant, hrecorded.mono (ledger_grows hs)⟩
    answers := fun b p hp decision generation stream hanswer => by
      obtain ⟨grant, hrecorded, hstream⟩ := h.answers b p hp decision generation stream hanswer
      exact ⟨grant, hrecorded.mono (ledger_grows hs), hstream⟩
    readOnce := h.readOnce
    apart := h.apart }

/-- An ask that is put on a connection of its own has no boundary behind it; the others keep
theirs. -/
theorem asked_origins (h : Governed host grants fromIso settings d) {event : Plane.Event}
    {w : World} (hs : Plane.step host d.plane event = some w) :
    ∀ i boundary ask question, d.origins event i = some (boundary, ask) →
      (w.phase i).question = some question → question.ask = ask := by
  intro i boundary ask question horigin hquestion
  unfold origins at horigin
  split at horigin
  · rename_i k q
    split at horigin
    · cases horigin
    · rename_i hik
      rcases asked_step h.asked hs i boundary ask question horigin hquestion with hask | heq
      · exact hask
      · cases heq
        exact absurd rfl hik
  · rename_i hno
    rcases asked_step h.asked hs i boundary ask question horigin hquestion with hask | heq
    · exact hask
    · exact absurd heq (hno i question)

theorem plane_event (h : Governed host grants fromIso settings d) {event : Plane.Event} {w : World}
    (hs : Plane.step host d.plane event = some w) {replies : List Reply}
    (hreplies : d.answering host grants event = some replies) :
    Governed host grants fromIso settings
      { d with plane := w, origin := d.origins event, replies := d.replies ++ replies } := by
  have hquiet := h.plane_step hs (h.asked_origins hs)
  rcases answering_cases hreplies with rfl | ⟨i, grantId, storeId, position, a, consulted, grant,
    boundary, ask, rfl, hphase, hgrant, horigin, rfl⟩
  · rw [List.append_nil]
    exact hquiet
  -- the step records the decision it answers: no boundary has read it, or may read it elsewhere
  have hmoves := Plane.step_moves hs
  cases hmoves with
  | goesOn k hledger _ hothers hgoes =>
    simp only [Plane.step, hphase] at hs
    split at hs
    · cases hs
    · cases hs
      exact absurd (congrArg List.length hledger) (by simp [Plane.World.setPhase])
  | recorded _ a' consulted' _ _ hphase' hmay hledger =>
    rw [hphase] at hphase'
    cases hphase'
    -- what a boundary has read, or may read, is recorded; this identity is not yet
    have href : ∀ b, a.decisionRef ∉ d.refs b := fun b hmem =>
      h.once.unrecorded i _ (by rw [hphase]; rfl) (h.known b _ hmem)
    have hrefs : ∀ b, (d.refs b ++ (if boundary = b then [a.decisionRef] else [])) =
        refs { d with
          plane := w
          origin := d.origins (.append i grantId (.position storeId position))
          replies := d.replies ++ [⟨boundary, ask,
            answeredDecision host a consulted grantId grant⟩] } b := by
      intro b
      unfold refs
      simp only [List.filter_append, List.map_append, List.append_assoc]
      split
      · rename_i hb
        simp only [List.filter_cons, hb, decide_true, if_true]
        rfl
      · rename_i hb
        simp only [List.filter_cons, hb, decide_false]
        rfl
    refine { hquiet with
      replies := fun r hr => ?_, readOnce := fun b => ?_, apart := fun b b' hne => ?_ }
    · rcases List.mem_append.1 hr with hr | hr
      · exact hquiet.replies r hr
      · rw [List.mem_singleton.1 hr]
        refine ⟨grant, ⟨recordedDecision host a consulted grantId, a, consulted⟩, ?_, grantId, ?_,
          rfl, hgrant, rfl, hmay⟩
        · rw [hledger]
          exact List.mem_cons_self
        · exact h.asked i boundary ask a.question horigin (by rw [hphase]; rfl)
    · rw [← hrefs b]
      refine List.nodup_append.2 ⟨h.readOnce b, ?_, ?_⟩
      · split <;> simp
      · intro ref hmem other hother heq
        split at hother
        · rw [List.mem_singleton.1 hother] at heq
          exact href b (heq ▸ hmem)
        · cases hother
    · rw [← hrefs b, ← hrefs b']
      intro ref hmem hmem'
      rcases List.mem_append.1 hmem with hmem | hmem <;>
        rcases List.mem_append.1 hmem' with hmem' | hmem'
      · exact h.apart b b' hne hmem hmem'
      · split at hmem'
        · exact href b (List.mem_singleton.1 hmem' ▸ hmem)
        · cases hmem'
      · split at hmem
        · exact href b' (List.mem_singleton.1 hmem ▸ hmem')
        · cases hmem
      · split at hmem
        · split at hmem'
          · omega
          · cases hmem'
        · cases hmem

theorem permitted_setActs (h : Governed host grants fromIso settings d) {boundary : ℕ}
    {event : Boundary.ActEvent} {acts : Acts}
    (hs : (d.acts boundary).step py fromIso (settings boundary) event = some acts) (b : ℕ) :
    Permitted fromIso (settings b) ((d.setActs boundary acts).acts b) := by
  unfold setActs
  simp only
  split
  · rename_i hb
    subst hb
    exact (h.permitted b).step _ _ _ hs
  · exact h.permitted b

theorem named_setActs (h : Governed host grants fromIso settings d) {boundary : ℕ}
    {event : Boundary.ActEvent} {acts : Acts}
    (hs : (d.acts boundary).step py fromIso (settings boundary) event = some acts) (b : ℕ) :
    ∀ entered ∈ ((d.setActs boundary acts).acts b).state.entered, entered.Named := by
  unfold setActs
  simp only
  split
  · rename_i hb
    subst hb
    exact Boundary.named_acts (h.named b) hs
  · exact h.named b

/-- A step of a boundary that reads no decision. -/
theorem acts_event (h : Governed host grants fromIso settings d) {boundary : ℕ}
    {event : Boundary.ActEvent} (hno : event.answers = false) {acts : Acts}
    (hs : (d.acts boundary).step py fromIso (settings boundary) event = some acts) :
    Governed host grants fromIso settings (d.setActs boundary acts) := by
  obtain ⟨more, hmore, hnone⟩ := Boundary.answers_step hno hs
  have hrefs : ∀ b, refs (d.setActs boundary acts) b = d.refs b := by
    intro b
    unfold refs setActs
    simp only
    split
    · rename_i hb
      subst hb
      have hnil : more.filterMap answeredRef = [] :=
        List.filterMap_eq_nil_iff.2 fun p hp => Boundary.answeredRef_of_not (hnone p hp)
      rw [hmore, List.filterMap_append, hnil, List.append_nil]
    · rfl
  refine { h with
    permitted := h.permitted_setActs hs, named := h.named_setActs hs
    answers := fun b p hp => ?_, readOnce := fun b => ?_, apart := fun b b' hne => ?_ }
  · unfold setActs at hp
    simp only at hp
    split at hp
    · rename_i hb
      subst hb
      rw [hmore] at hp
      rcases List.mem_append.1 hp with hp | hp
      · exact h.answers b p hp
      · intro decision generation stream hanswer
        have := hnone p hp
        rw [hanswer] at this
        cases this
    · exact h.answers b p hp
  · rw [hrefs]
    exact h.readOnce b
  · rw [hrefs, hrefs]
    exact h.apart b b' hne

/-- A boundary reads an answer to its question. -/
theorem reads_event (h : Governed host grants fromIso settings d) {boundary number reply : ℕ}
    {streamed : Bool} {r : Reply} {ask : DecisionAsk} (hreply : d.replies[reply]? = some r)
    (hask : (d.acts boundary).state.asking[number]? = some ask) (hboundary : r.boundary = boundary)
    (hquestion : r.ask = ask) {acts : Acts}
    (hs : (d.acts boundary).step py fromIso (settings boundary)
      (.boundary (.answer number (Boundary.answerOf py streamed r.decision.toDocument))) =
        some acts) :
    Governed host grants fromIso settings
      { d.setActs boundary acts with replies := d.replies.eraseIdx reply } := by
  obtain ⟨hlt, hget⟩ := List.getElem?_eq_some_iff.1 hreply
  obtain ⟨grant, c, hc, grantId, hasked, hrecorded, hgrant, hdecision, hmay⟩ :=
    h.replies r (List.mem_of_getElem? hreply)
  have hanswers := Boundary.answers_reads hask hs
  rw [hdecision, Client.answerOf_answered] at hanswers
  -- the answer leaves the connection, and joins the answers of the boundary
  have hperm : (r :: d.replies.eraseIdx reply).Perm d.replies := by
    rw [← hget]
    exact List.getElem_cons_eraseIdx_perm hlt
  have hrefs : ∀ b,
      (refs { d.setActs boundary acts with replies := d.replies.eraseIdx reply } b).Perm
        (d.refs b) := by
    intro b
    have hfilter := (hperm.filter (·.boundary = b)).map (·.decision.decisionRef)
    unfold refs setActs
    simp only
    by_cases hb : b = boundary
    · subst hb
      rw [if_pos rfl, hanswers, List.filterMap_append]
      simp only [List.filter_cons, hboundary, decide_true, if_true, List.map_cons] at hfilter
      have hone : List.filterMap answeredRef [(ask, some (Client.Result.answered
          (answeredDecision host c.asking c.consulted grantId grant) 1,
          if streamed = true then some (grant.map fun g => Client.grantOf host g.toGrantFields)
          else none))] = [r.decision.decisionRef] := by
        rw [hdecision]
        rfl
      rw [hone, List.append_assoc]
      exact List.Perm.append_left _ hfilter
    · rw [if_neg hb]
      have hother : ¬r.boundary = b := fun heq => hb (heq ▸ hboundary)
      simp only [List.filter_cons, hother, decide_false] at hfilter
      exact List.Perm.append_left _ hfilter
  refine { h with
    permitted := h.permitted_setActs hs, named := h.named_setActs hs
    replies := fun r' hr' => ?_, answers := fun b p hp => ?_
    readOnce := fun b => ?_, apart := fun b b' hne => ?_ }
  · exact h.replies r' (List.mem_of_mem_eraseIdx hr')
  · unfold setActs at hp
    simp only at hp
    split at hp
    · rename_i hb
      subst hb
      rw [hanswers] at hp
      rcases List.mem_append.1 hp with hp | hp
      · exact h.answers b p hp
      · intro decision generation stream hanswer
        rw [List.mem_singleton.1 hp] at hanswer ⊢
        cases hanswer
        refine ⟨grant, ⟨c, hc, grantId, hasked.trans hquestion, hrecorded, hgrant, rfl, hmay⟩, ?_⟩
        intro g hg
        cases streamed with
        | false => cases hg
        | true =>
          obtain ⟨m, hm, rfl⟩ := Option.map_eq_some_iff.1 (Option.some.inj hg)
          exact ⟨m, hm, rfl⟩
    · exact h.answers b p hp
  · exact (hrefs b).nodup_iff.2 (h.readOnce b)
  · intro ref hmem hmem'
    exact h.apart b b' hne ((hrefs b).mem_iff.1 hmem) ((hrefs b').mem_iff.1 hmem')

/-- A boundary puts the question it has open to the daemon. -/
theorem puts_event (h : Governed host grants fromIso settings d) {boundary i : ℕ}
    {ask : DecisionAsk} {principal : Plane.Principal} {w : World}
    (hs : Plane.step host d.plane (.ask i ⟨ask, principal⟩) = some w) :
    Governed host grants fromIso settings
      { d with
        plane := w
        origin := fun j => if j = i then some (boundary, ask) else d.origin j } := by
  refine h.plane_step hs fun j boundary' ask' question horigin hquestion => ?_
  split at horigin
  · rename_i hji
    subst hji
    cases horigin
    cases Plane.step_moves hs with
    | goesOn k _ _ hothers hphase =>
      simp only [Plane.step] at hs
      split at hs
      · cases hs
        rw [Plane.World.setPhase_self] at hquestion
        split at hquestion <;> (cases hquestion; rfl)
      · cases hs
    | asked _ _ _ _ _ hmine =>
      rw [hmine] at hquestion
      cases hquestion
      rfl
  · rename_i hji
    -- the question of another ask is what it was
    rcases asked_step h.asked hs j boundary' ask' question horigin hquestion with heq | heq
    · exact heq
    · cases heq
      exact absurd rfl hji

/-- **Every step keeps what holds.** -/
theorem step (d : Deployment) (event : DeploymentEvent) (d' : Deployment)
    (h : Governed host grants fromIso settings d)
    (hs : d.step host grants py fromIso settings event = some d') :
    Governed host grants fromIso settings d' := by
  cases event with
  | plane event =>
    obtain ⟨w, hw, hs⟩ := Option.bind_eq_some_iff.1 hs
    obtain ⟨replies, hreplies, hs⟩ := Option.bind_eq_some_iff.1 hs
    cases hs
    exact h.plane_event hw hreplies
  | puts boundary number i principal =>
    obtain ⟨ask, hask, hs⟩ := Option.bind_eq_some_iff.1 hs
    obtain ⟨asked, hasked, hs⟩ := Option.bind_eq_some_iff.1 hs
    obtain ⟨w, hw, hs⟩ := Option.bind_eq_some_iff.1 hs
    cases hs
    rw [Plane.askOf_askDocument] at hasked
    obtain rfl : ask = asked := Option.some.inj hasked
    exact h.puts_event hw
  | acts boundary event =>
    simp only [Deployment.step] at hs
    split at hs
    · cases hs
    · rename_i hno
      obtain ⟨acts, hacts, rfl⟩ := Option.map_eq_some_iff.1 hs
      exact h.acts_event (by simpa using hno) hacts
  | reads boundary number reply streamed =>
    obtain ⟨r, hreply, hs⟩ := Option.bind_eq_some_iff.1 hs
    obtain ⟨ask, hask, hs⟩ := Option.bind_eq_some_iff.1 hs
    split at hs
    · rename_i hmine
      obtain ⟨acts, hacts, hs⟩ := Option.bind_eq_some_iff.1 hs
      cases hs
      exact h.reads_event hreply hask hmine.1 hmine.2 hacts
    · cases hs

end Governed

/-! ## The law -/

theorem grant_built {fields : Plane.GrantFields} {grant : Plane.Grant}
    (h : fields.build = .ok grant) :
    grant.toGrantFields = fields := by
  unfold Plane.GrantFields.build at h
  split at h
  · cases h
    rfl
  · cases h

/-- A grant is of the decision it was minted for, and for its question. -/
theorem mintGrant_recorded {a : Plane.Asking} {consulted : Option Plane.Consulted}
    {lifetimeSeconds heartbeatSeconds : ℤ} {version grantId : Str} {grant : Plane.Grant}
    (h : Plane.mintGrant (recordedDecision host a consulted none) a.now lifetimeSeconds version
      heartbeatSeconds grantId = .ok grant) :
    grant.decisionRef = a.decisionRef ∧
      grant.conditions = ⟨a.question.ask.scope, a.question.ask.capability,
        a.question.principal.reference, a.question.ask.argumentsDigest⟩ := by
  unfold Plane.mintGrant at h
  split at h
  · cases h
  split at h
  · cases h
  have hname : Json.get (recordedDecision host a consulted none).extra "principal" =
      some (.obj [(lit "kind", .str a.question.principal.kind),
        (lit "uid", .int a.question.principal.uid),
        (lit "name", .str a.question.principal.userName)]) := rfl
  have hdigest : Json.get (recordedDecision host a consulted none).extra "arguments_digest" =
      some (.ofOption .str a.question.ask.argumentsDigest) := rfl
  have hthere : Json.get [(lit "kind", Json.str a.question.principal.kind),
      (lit "uid", .int a.question.principal.uid),
      (lit "name", .str a.question.principal.userName)] "name" =
        some (.str a.question.principal.userName) := rfl
  -- both are there, as the ask was recorded with them: no refusal of `mint_grant` is left
  simp only [hname, hdigest, hthere] at h
  have hbuilt : Plane.mintGrant.mint (recordedDecision host a consulted none) a.now lifetimeSeconds
      version heartbeatSeconds grantId a.question.principal.userName
      a.question.ask.argumentsDigest = .ok grant := by
    cases hask : a.question.ask.argumentsDigest with
    | none =>
      rw [hask] at h
      exact h
    | some digest =>
      rw [hask] at h
      exact h
  unfold Plane.mintGrant.mint at hbuilt
  obtain ⟨expiresAt, -, hbuild⟩ := bind_ok_iff.1 hbuilt
  have hfields := grant_built hbuild
  rw [hfields]
  exact ⟨rfl, rfl⟩

theorem prepared_some {decision : Contract.Decision} {ruleLifetime : Option ℤ} {now : ℤ}
    {version grantId : Str} {reservation : Option ℕ} {grant : Plane.Grant}
    (h : Plane.prepareGrant grants decision ruleLifetime now version reservation grantId =
      .ok (some grant)) :
    Plane.mintGrant decision now (Plane.grantLifetime grants ruleLifetime) version
      grants.heartbeatSeconds grantId = .ok grant := by
  unfold Plane.prepareGrant at h
  split at h
  · cases h
  cases hmint : Plane.mintGrant decision now (Plane.grantLifetime grants ruleLifetime) version
      grants.heartbeatSeconds grantId with
  | error message =>
    rw [hmint] at h
    cases h
  | ok minted =>
    rw [hmint] at h
    cases h
    rfl

theorem minted_some {a : Plane.Asking} {consulted : Option Plane.Consulted} {grantId : Option Str}
    {grant : Plane.Grant} (h : minted host grants a consulted grantId = some (some grant)) :
    grantId.isSome = true ∧ grant.decisionRef = a.decisionRef ∧
      grant.conditions = ⟨a.question.ask.scope, a.question.ask.capability,
        a.question.principal.reference, a.question.ask.argumentsDigest⟩ := by
  cases grantId with
  | none => cases h
  | some grantId =>
    refine ⟨rfl, ?_⟩
    cases hprepared : Plane.prepareGrant grants (recordedDecision host a consulted none)
        (a.verdict.rule.bind (·.grantLifetimeSeconds)) a.now (Plane.policyVersion host a.content)
        (some 0) grantId with
    | error message =>
      simp only [minted, hprepared] at h
      cases h
    | ok prepared =>
      cases prepared with
      | none =>
        simp only [minted, hprepared] at h
        cases h
      | some grant' =>
        simp only [minted, hprepared] at h
        cases h
        exact mintGrant_recorded (prepared_some hprepared)

/-- The decision that was recorded for a body. -/
structure StandsOn (entered : Boundary.Entered) (c : Committed) : Prop where
  allows : c.decision.outcome = .allow
  ref : c.decision.decisionRef = entered.decisionRef
  scope : c.asking.question.ask.scope = entered.ask.scope
  capability : c.asking.question.ask.capability = entered.ask.capability
  digest : c.asking.question.ask.argumentsDigest = entered.ask.argumentsDigest

/-- An allow that names an approval was taken on a person's yes. -/
theorem granted_of_allow {w : World} (hconsents : Plane.Consents w) {c : Committed}
    (hc : c ∈ w.ledger) {grantId : Option Str}
    (hrecorded : c.decision = recordedDecision host c.asking c.consulted grantId)
    (hallow : c.decision.outcome = .allow) {ref : Str} (href : c.decision.approvalRef = some ref) :
    c.granted = true := by
  rw [hrecorded] at hallow href
  obtain ⟨consulted, hconsulted, -⟩ := Option.map_eq_some_iff.1 href
  have hreason : c.decision.reason = Plane.Reason.approvalGranted.value := by
    have hyes := hconsents.ledger c hc consulted hconsulted
    have houtcome : consulted.outcome = .allow := by
      unfold recordedDecision at hallow
      simpa [hconsulted] using hallow
    rw [hrecorded]
    unfold recordedDecision
    simp [hconsulted, (hyes houtcome).1]
  unfold Plane.Committed.granted
  rw [hreason]
  exact beq_self_eq_true _

/-- A grant is of a decision that spent no approval. -/
theorem unspent_of_minted {w : World} (hconsents : Plane.Consents w) {c : Committed}
    (hc : c ∈ w.ledger) {grantId : Option Str}
    (hrecorded : c.decision = recordedDecision host c.asking c.consulted grantId)
    (hmay : World.mayGrant c.asking c.consulted = true) : c.decision.approvalRef = none := by
  cases hconsulted : c.consulted with
  | none =>
    rw [hrecorded, hconsulted]
    rfl
  | some consulted =>
    unfold World.mayGrant at hmay
    rw [hconsulted] at hmay
    obtain ⟨houtcome, hspend⟩ : consulted.outcome = .allow ∧ consulted.spend = false := by
      simpa using hmay
    have hyes := (hconsents.ledger c hc consulted hconsulted houtcome).2
    rw [hyes] at hspend
    cases hspend

/-- The decision an answer a boundary took in was recorded as. -/
theorem Governed.read (h : Governed host grants fromIso settings d) {b : ℕ}
    {entered : Boundary.Entered} (hmem : entered ∈ (d.acts b).state.entered)
    {decision : Contract.Decision} (hopening : entered.opening = .allowed decision) :
    decision.outcome = .allow ∧
      ∃ grant, Recorded host grants d.plane.ledger entered.ask decision grant := by
  have hallowance : (entered.ask, decision) ∈ (d.acts b).answers.filterMap Boundary.allowing := by
    rw [← (h.permitted b).allowances]
    refine List.mem_filterMap.2 ⟨entered, hmem, ?_⟩
    unfold Boundary.Entered.allowance
    rw [hopening]
  obtain ⟨p, hp, hallowing⟩ := List.mem_filterMap.1 hallowance
  obtain ⟨generation, stream, rfl, houtcome⟩ := Boundary.allowing_some hallowing
  obtain ⟨grant, hrecorded, -⟩ := h.answers b _ hp decision generation stream rfl
  exact ⟨houtcome, grant, hrecorded⟩

/-- **Every body stands on a recorded decision**, and one behind a grant on one that spent no
approval. -/
theorem Governed.stands (h : Governed host grants fromIso settings d) {b : ℕ}
    {entered : Boundary.Entered} (hmem : entered ∈ (d.acts b).state.entered) :
    ∃ c ∈ d.plane.ledger, StandsOn entered c ∧
      ∀ r now, entered.opening = .hit r now → c.decision.approvalRef = none ∧
        c.asking.question.principal.reference = (settings b).principalReference := by
  cases hopening : entered.opening with
  | allowed decision =>
    obtain ⟨houtcome, grant, c, hc, grantId, hask, hrecorded, -, rfl, -⟩ := h.read hmem hopening
    refine ⟨c, hc, ⟨?_, ?_, ?_, ?_, ?_⟩, fun r now hhit => (by cases hhit)⟩
    · rw [hrecorded]
      exact houtcome
    · rw [h.named b entered hmem _ hopening, hrecorded]
      rfl
    · rw [hask]
    · rw [hask]
    · rw [hask]
  | hit r now =>
    obtain ⟨hgranted, hhit, href⟩ := (h.permitted b).hits entered hmem r now hopening
    obtain ⟨ask, decision, generation, hanswer, houtcome⟩ := hgranted
    obtain ⟨grant, ⟨c, hc, grantId, hask, hrecorded, hminted, rfl, hmay⟩, hstream⟩ :=
      h.answers b _ hanswer decision generation _ rfl
    -- what the boundary compared with its question are the conditions of the grant that was minted
    obtain ⟨m, rfl, hm⟩ := hstream r.grant rfl
    obtain ⟨hsome, hdecisionRef, hconditions⟩ := minted_some hminted
    have hread : r.grant.conditions =
        Boundary.question entered.ask (settings b).principalReference := hhit.conditions
    rw [hm] at hread
    unfold Client.grantOf Boundary.question at hread
    simp only [hconditions, Client.GrantConditions.mk.injEq] at hread
    obtain ⟨hscope, hcapability, hprincipal, hdigest⟩ := hread
    refine ⟨c, hc, ⟨?_, ?_, hscope, hcapability, hdigest⟩, fun r' now' hhit' => ⟨?_, hprincipal⟩⟩
    · rw [hrecorded]
      exact houtcome
    · rw [href, hm, hrecorded]
      exact hdecisionRef.symm
    · exact unspent_of_minted h.consents hc hrecorded (hmay hsome)

/-- Where a partial map takes a list to one without repetitions, it takes no two places to one. -/
theorem place_of_filterMap {α β : Type*} {f : α → Option β} {l : List α} (h : (l.filterMap f).Nodup)
    {i j : ℕ} {a a' : α} {x : β} (hi : l[i]? = some a) (hj : l[j]? = some a') (ha : f a = some x)
    (ha' : f a' = some x) : i = j := by
  have hapart : l.Pairwise fun a a' => ∀ x ∈ f a, ∀ y ∈ f a', x ≠ y := List.pairwise_filterMap.1 h
  obtain ⟨hilt, rfl⟩ := List.getElem?_eq_some_iff.1 hi
  obtain ⟨hjlt, rfl⟩ := List.getElem?_eq_some_iff.1 hj
  rcases lt_trichotomy i j with hlt | heq | hgt
  · exact absurd rfl (List.pairwise_iff_getElem.1 hapart i j hilt hjlt hlt x ha x ha')
  · exact heq
  · exact absurd rfl (List.pairwise_iff_getElem.1 hapart j i hjlt hilt hgt x ha' x ha)

/-- The decision of the answer a body was opened by. -/
def openedRef (entered : Boundary.Entered) : Option Str :=
  (Boundary.Entered.allowance entered).map fun p => p.2.decisionRef

theorem openedRef_allowed {entered : Boundary.Entered} {decision : Contract.Decision}
    (h : entered.opening = .allowed decision) : openedRef entered = some decision.decisionRef := by
  unfold openedRef Boundary.Entered.allowance
  rw [h]
  rfl

/-- The bodies of a boundary are opened by decisions it read. -/
theorem Governed.opened (h : Governed host grants fromIso settings d) (b : ℕ) :
    ((d.acts b).state.entered.filterMap openedRef).Sublist (d.refs b) := by
  have hrefs : (d.acts b).state.entered.filterMap openedRef =
      ((d.acts b).answers.filterMap Boundary.allowing).map fun p => p.2.decisionRef := by
    rw [← (h.permitted b).allowances, List.map_filterMap]
    rfl
  -- an allow that opened a body is one of the answers that are a decision
  have hallowing : ∀ l : List (DecisionAsk × Boundary.Answer),
      ((l.filterMap Boundary.allowing).map fun p => p.2.decisionRef).Sublist
        (l.filterMap answeredRef) := by
    intro l
    induction l with
    | nil => exact List.Sublist.refl _
    | cons p l ih =>
      cases hp : Boundary.allowing p with
      | none =>
        rw [List.filterMap_cons_none hp]
        cases href : answeredRef p with
        | none =>
          rw [List.filterMap_cons_none href]
          exact ih
        | some ref =>
          rw [List.filterMap_cons_some href]
          exact ih.trans (List.sublist_cons_self ref _)
      | some q =>
        obtain ⟨ask, decision⟩ := q
        obtain ⟨generation, stream, rfl, -⟩ := Boundary.allowing_some hp
        rw [List.filterMap_cons_some hp, List.map_cons]
        exact ih.cons_cons _
  rw [hrefs]
  exact (hallowing _).trans (List.sublist_append_left _ _)

/-- **No two bodies are opened by one decision.** -/
theorem Governed.body_unique (h : Governed host grants fromIso settings d) {b b' i i' : ℕ}
    {entered entered' : Boundary.Entered} (hi : (d.acts b).state.entered[i]? = some entered)
    (hi' : (d.acts b').state.entered[i']? = some entered') {ref : Str}
    (href : openedRef entered = some ref) (href' : openedRef entered' = some ref) :
    b = b' ∧ i = i' := by
  have hmem : ∀ {b i} {entered : Boundary.Entered}, (d.acts b).state.entered[i]? = some entered →
      openedRef entered = some ref → ref ∈ d.refs b := fun {b i entered} hi href =>
    (h.opened b).subset (List.mem_filterMap.2 ⟨entered, List.mem_of_getElem? hi, href⟩)
  by_cases hb : b = b'
  · subst hb
    exact ⟨rfl, place_of_filterMap ((h.readOnce b).sublist (h.opened b)) hi hi' href href'⟩
  · exact absurd (hmem hi' href') (h.apart b b' hb (hmem hi href))

/-- Two recorded decisions on one approval are one. -/
theorem Governed.ref_of_approval (h : Governed host grants fromIso settings d)
    {ask ask' : DecisionAsk} {decision decision' : Contract.Decision}
    {grant grant' : Option Plane.Grant}
    (hread : Recorded host grants d.plane.ledger ask decision grant)
    (hread' : Recorded host grants d.plane.ledger ask' decision' grant')
    (hallow : decision.outcome = .allow) (hallow' : decision'.outcome = .allow) {ref : Str}
    (href : decision.approvalRef = some ref) (href' : decision'.approvalRef = some ref) :
    decision.decisionRef = decision'.decisionRef := by
  obtain ⟨c, hc, grantId, -, hrecorded, -, rfl, -⟩ := hread
  obtain ⟨c', hc', grantId', -, hrecorded', -, rfl, -⟩ := hread'
  have hspent : c.decision.approvalRef = some ref := by rw [hrecorded]; exact href
  have hspent' : c'.decision.approvalRef = some ref := by rw [hrecorded']; exact href'
  have hgranted := granted_of_allow h.consents hc hrecorded (by rw [hrecorded]; exact hallow) hspent
  have hgranted' :=
    granted_of_allow h.consents hc' hrecorded' (by rw [hrecorded']; exact hallow') hspent'
  -- an approval is spent by one decision of the ledger
  have hone : c = c' := by
    refine List.inj_on_of_nodup_map h.plane.refs_once ?_ ?_ (hspent.trans hspent'.symm)
    · exact List.mem_filter.2 ⟨hc, hgranted⟩
    · exact List.mem_filter.2 ⟨hc', hgranted'⟩
  subst hone
  rfl

/-- **One yes, one body.** In every run of a daemon and of the boundaries it serves, whatever the
interleaving and whatever is lost: every body stands on an allow that was recorded for its very
question, and one behind a grant on one of its principal that spent no approval; no two bodies, of
one boundary or of two, are opened by answers of one decision, or on one approval; and the approval
a body was opened on was a person's yes to its very question. -/
theorem one_yes_one_body (host : Composition) (grants : GrantSettings) (py : ClientHost)
    (fromIso : FromIso) (settings : ℕ → Settings) (now : ℤ) (capacity : ℕ)
    (logs : ℕ → Boundary.OutcomeLog)
    (hlogs : ∀ b, Boundary.OutcomeLog.made capacity = some (logs b))
    (events : List DeploymentEvent) (d : Deployment)
    (hrun : run (step host grants py fromIso settings) (start now logs) events = some d) :
    (∀ b, ∀ entered ∈ (d.acts b).state.entered, ∃ c ∈ d.plane.ledger, StandsOn entered c ∧
      ∀ r now, entered.opening = .hit r now → c.decision.approvalRef = none ∧
        c.asking.question.principal.reference = (settings b).principalReference) ∧
    (∀ (b b' i i' : ℕ) (entered entered' : Boundary.Entered)
        (decision decision' : Contract.Decision),
      (d.acts b).state.entered[i]? = some entered → (d.acts b').state.entered[i']? = some entered' →
      entered.opening = .allowed decision → entered'.opening = .allowed decision' →
      (decision.decisionRef = decision'.decisionRef ∨
        ∃ ref, decision.approvalRef = some ref ∧ decision'.approvalRef = some ref) →
      b = b' ∧ i = i') ∧
    ∀ b, ∀ entered ∈ (d.acts b).state.entered, ∀ decision ref, entered.opening = .allowed decision →
      decision.approvalRef = some ref → ∃ act ∈ d.plane.acts, act.approvalRef = ref ∧
        act.state = .approved ∧ act.question.scope = entered.ask.scope ∧
        act.question.capability = entered.ask.capability ∧
        act.question.argumentsDigest = entered.ask.digestOrNone := by
  have h : Governed host grants fromIso settings d :=
    run_preserves (fun s event s' => Governed.step s event s') (governed_start now hlogs) hrun
  refine ⟨fun b entered hmem => h.stands hmem, ?_, ?_⟩
  · intro b b' i i' entered entered' decision decision' hi hi' hopening hopening' hsame
    obtain ⟨hallow, grant, hread⟩ := h.read (List.mem_of_getElem? hi) hopening
    obtain ⟨hallow', grant', hread'⟩ := h.read (List.mem_of_getElem? hi') hopening'
    have hrefs : decision.decisionRef = decision'.decisionRef := by
      rcases hsame with hsame | ⟨ref, href, href'⟩
      · exact hsame
      · exact h.ref_of_approval hread hread' hallow hallow' href href'
    exact h.body_unique hi hi' (openedRef_allowed hopening)
      (hrefs ▸ openedRef_allowed hopening')
  · intro b entered hmem decision ref hopening href
    obtain ⟨hallow, grant, c, hc, grantId, hask, hrecorded, -, rfl, -⟩ := h.read hmem hopening
    have hspent : c.decision.approvalRef = some ref := by rw [hrecorded]; exact href
    have hgranted :=
      granted_of_allow h.consents hc hrecorded (by rw [hrecorded]; exact hallow) hspent
    obtain ⟨act, hact, ref', href', hyes⟩ := (h.plane.ledger c hc).2 hgranted
    obtain rfl : ref' = ref := Option.some.inj (href'.symm.trans hspent)
    obtain ⟨hkey, hquestion, hstate, -⟩ := hyes
    refine ⟨act, hact, congrArg Prod.snd hkey, hstate, ?_, ?_, ?_⟩
    · rw [hquestion, ← hask]
      rfl
    · rw [hquestion, ← hask]
      rfl
    · rw [hquestion, ← hask]
      rfl

/-- Two runs of one program. -/
def paySettings : ℕ → Settings := fun _ => ⟨lit "user:ana", none, true⟩

/-- A run asks and is told to wait; a person approves; another run asks, and pays. -/
def payEvents : List DeploymentEvent :=
  [.acts 0 (.boundary (.request (lit "pay.send") (lit "local") (some (lit "sha256:1")) 0)),
    .puts 0 0 0 Plane.reviewQuestion.principal, .plane (.act 0), .plane (.act 0),
    .plane (.decide 0 [] (lit "d0") (lit "a0")), .plane (.act 0), .plane (.suspended 0 true),
    .plane (.append 0 none (.position (lit "s") 1)), .plane (.act 0), .reads 0 0 0 true,
    .plane (.resolve (lit "local", lit "a0") (lit "user:boss") .approve none 0),
    .acts 1 (.boundary (.request (lit "pay.send") (lit "local") (some (lit "sha256:1")) 0)),
    .puts 1 0 1 Plane.reviewQuestion.principal, .plane (.act 1), .plane (.act 1),
    .plane (.decide 1 [] (lit "d1") (lit "a1")), .plane (.act 1), .plane (.act 1),
    .plane (.append 1 none (.position (lit "s") 2)), .reads 1 0 0 true]

theorem one_yes_one_body_paid : ∃ d : Deployment,
    (d.acts 1).state.entered.map (·.decisionRef) = [lit "d1"] ∧
      ∀ entered ∈ (d.acts 1).state.entered, ∃ c ∈ d.plane.ledger, StandsOn entered c := by
  have hpaid : ((run (step Plane.reviewHost {} Client.plainHost (fun _ => none) paySettings)
      (start 0 fun _ => ⟨[], 4, 0, 0⟩) payEvents).map fun d =>
        (d.acts 1).state.entered.map (·.decisionRef)) = some [lit "d1"] := by decide +kernel
  obtain ⟨d, hd, hentered⟩ := Option.map_eq_some_iff.1 hpaid
  have hlaw := one_yes_one_body Plane.reviewHost {} Client.plainHost (fun _ => none) paySettings 0 4
    (fun _ => ⟨[], 4, 0, 0⟩) (fun _ => rfl) payEvents d hd
  refine ⟨d, hentered, fun entered hmem => ?_⟩
  obtain ⟨c, hc, hstands, -⟩ := hlaw.1 1 entered hmem
  exact ⟨c, hc, hstands⟩

end Deployment

end SayFirst
