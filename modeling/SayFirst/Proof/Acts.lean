import SayFirst.Proof.Boundary
import SayFirst.Proof.OutcomeLog
import SayFirst.Spec.Acts

/-!
# No act without an allow

* `entered_step`, `store_step` — what a step of the boundary enters, and what it holds behind it.
* `Permitted.step` — what every step keeps of the bodies, their handles and their records.
* `acts_permitted` — every interleaving of requests, answers, bodies and flushes.
-/

namespace SayFirst.Boundary

open Py
open SayFirst.Client (ClientHost Grant)
open SayFirst.Contract (Decision)
open SayFirst.Plane (DecisionAsk)

variable {py : ClientHost} {fromIso : FromIso} {settings : Settings}

/-! ## What opens a body -/

/-- The question and the allow a body was opened by, where it was an answer. -/
def Entered.allowance (entered : Entered) : Option (DecisionAsk × Decision) :=
  match entered.opening with
  | .hit _ _ => none
  | .allowed decision => some (entered.ask, decision)

/-- An answer that allows, with its question. -/
def allowing : DecisionAsk × Answer → Option (DecisionAsk × Decision)
  | (ask, some (.answered decision _, _)) =>
    if decision.outcome = .allow then some (ask, decision) else none
  | _ => none

/-- An answer that allows brought the grant. -/
def Granted (answers : List (DecisionAsk × Answer)) (grant : Grant) : Prop :=
  ∃ ask decision generation, (ask, some (.answered decision generation, some (some grant))) ∈ answers ∧
    decision.outcome = .allow

theorem Granted.mono {answers more : List (DecisionAsk × Answer)} {grant : Grant}
    (h : Granted answers grant) : Granted (answers ++ more) grant := by
  obtain ⟨ask, decision, generation, hmem, houtcome⟩ := h
  exact ⟨ask, decision, generation, List.mem_append_left _ hmem, houtcome⟩

variable (fromIso settings) in
/-- The reader a body was opened by holds a grant an allow brought for the question, which no named
ending had reached. -/
def HitGranted (answers : List (DecisionAsk × Answer)) (entered : Entered) : Prop :=
  ∀ r now, entered.opening = .hit r now → Granted answers r.grant ∧
    Hit fromIso r entered.ask settings.principalReference now ∧
    entered.decisionRef = r.grant.decisionRef

/-! ## One step of the boundary -/

section Step

variable {s s' : State}

theorem entered_hold (stream : Option (Option Grant)) :
    (s.hold fromIso settings stream).entered = s.entered := by
  unfold State.hold
  split
  · split
    · split <;> rfl
    · rfl
  · rfl

/-- What is held behind an allow was held, or is what the allow brought. -/
theorem store_hold (stream : Option (Option Grant)) :
    ∀ held ∈ (s.hold fromIso settings stream).store,
      (∃ held' ∈ s.store, held'.2.grant = held.2.grant) ∨ stream = some (some held.2.grant) := by
  intro held hmem
  unfold State.hold at hmem
  split at hmem
  · rename_i grant
    split at hmem
    · split at hmem
      · rename_i reader hmade
        obtain ⟨issuedAt, -, rfl⟩ := Option.map_eq_some_iff.1 hmade
        rcases List.mem_cons.1 hmem with rfl | hmem
        · exact .inr rfl
        · exact .inl ⟨held, List.mem_of_mem_filter hmem, rfl⟩
      · exact .inl ⟨held, hmem, rfl⟩
    · exact .inl ⟨held, hmem, rfl⟩
  · exact .inl ⟨held, hmem, rfl⟩

variable (fromIso settings s) in
/-- An answer enters one body where it allows, and none elsewhere. -/
theorem entered_answered (ask : DecisionAsk) (answer : Answer) :
    ∃ new : List Entered, (s.answered fromIso settings ask answer).entered = s.entered ++ new ∧
      new.filterMap Entered.allowance = [(ask, answer)].filterMap allowing ∧
      ∀ entered ∈ new, ∀ r now, entered.opening ≠ .hit r now := by
  unfold State.answered State.ask
  match answer with
  | none => exact ⟨[], (List.append_nil _).symm, rfl, by simp⟩
  | some (.refused _, _) => exact ⟨[], (List.append_nil _).symm, rfl, by simp⟩
  | some (.couldNotAsk _, _) => exact ⟨[], (List.append_nil _).symm, rfl, by simp⟩
  | some (.answered decision generation, stream) =>
    simp only
    cases houtcome : decision.outcome with
    | deny => exact ⟨[], (List.append_nil _).symm, by simp [allowing, houtcome], by simp⟩
    | suspend => exact ⟨[], (List.append_nil _).symm, by simp [allowing, houtcome], by simp⟩
    | allow =>
      refine ⟨[⟨ask, decision.decisionRef, .allowed decision⟩], ?_, ?_, by simp⟩
      · simp only [State.enter, entered_hold]
      · simp [allowing, houtcome, Entered.allowance]

theorem store_answered (ask : DecisionAsk) (answer : Answer) :
    ∀ held ∈ (s.answered fromIso settings ask answer).store,
      (∃ held' ∈ s.store, held'.2.grant = held.2.grant) ∨ Granted [(ask, answer)] held.2.grant := by
  intro held hmem
  have before : held ∈ s.store → (∃ held' ∈ s.store, held'.2.grant = held.2.grant) ∨
      Granted [(ask, answer)] held.2.grant := fun hmem => .inl ⟨held, hmem, rfl⟩
  unfold State.answered State.ask at hmem
  match answer with
  | none => exact before hmem
  | some (.refused _, _) => exact before hmem
  | some (.couldNotAsk _, _) => exact before hmem
  | some (.answered decision generation, stream) =>
    simp only at hmem
    cases houtcome : decision.outcome with
    | deny => rw [houtcome] at hmem; exact before hmem
    | suspend => rw [houtcome] at hmem; exact before hmem
    | allow =>
      rw [houtcome] at hmem
      rcases store_hold stream held hmem with hheld | rfl
      · exact .inl hheld
      · exact .inr ⟨ask, decision, generation, List.mem_singleton.2 rfl, houtcome⟩

/-- A request holds nothing new. -/
theorem store_take {store : GrantStore} {ask : DecisionAsk} {principal : Str} {now : ℤ} :
    ∀ held ∈ (store.take fromIso ask principal now).2, held ∈ store := by
  intro held hmem
  unfold GrantStore.take at hmem
  simp only at hmem
  split at hmem
  · exact hmem
  · split at hmem
    · exact hmem
    · exact List.mem_of_mem_filter hmem
    · exact hmem

variable (fromIso settings) in
/-- A request enters a body only behind a reader it holds. -/
theorem entered_request (hkept : Kept s.store) (capability scope : Str) (digest : Option Str)
    (now : ℤ) :
    (∀ held ∈ (s.request fromIso settings capability scope digest now).store, held ∈ s.store) ∧
    ∃ new : List Entered,
      (s.request fromIso settings capability scope digest now).entered = s.entered ++ new ∧
      new.filterMap Entered.allowance = [] ∧
      ∀ entered ∈ new, ∀ r now, entered.opening = .hit r now →
        (∃ held ∈ s.store, held.2 = r) ∧ Hit fromIso r entered.ask settings.principalReference now ∧
          entered.decisionRef = r.grant.decisionRef := by
  cases digest with
  | none => exact ⟨fun _ h => h, [], (List.append_nil _).symm, rfl, by simp⟩
  | some digest =>
    unfold State.request
    simp only
    split
    · have hstore := @store_take fromIso s.store ⟨capability, scope, some digest, settings.correlation⟩
        settings.principalReference now
      split
      · rename_i reader store htake
        rw [htake] at hstore
        refine ⟨hstore, _, rfl, rfl, fun entered hmem r' now' hopening => ?_⟩
        rw [List.mem_singleton.1 hmem] at hopening ⊢
        obtain ⟨rfl, rfl⟩ : reader = r' ∧ now = now' := by simpa using hopening
        obtain ⟨hlookup, hlive⟩ := take_handed.1 (congrArg Prod.fst htake)
        obtain ⟨before, behind, hsplit, -⟩ := List.lookup_eq_some_iff.1 hlookup
        exact ⟨⟨_, by rw [hsplit]; exact List.mem_append_right _ List.mem_cons_self, rfl⟩,
          hit_of_live (hkept.lookup hlookup).2 hlive, rfl⟩
      · rename_i htake
        rw [htake] at hstore
        exact ⟨hstore, [], (List.append_nil _).symm, rfl, by simp⟩
      · rename_i htake
        rw [htake] at hstore
        exact ⟨hstore, [], (List.append_nil _).symm, rfl, by simp⟩
    · exact ⟨fun _ h => h, [], (List.append_nil _).symm, rfl, by simp⟩

theorem store_heard {store : GrantStore} (number : ℕ) (f : SignalReader → SignalReader)
    (hf : ∀ r, (f r).grant = r.grant) :
    ∀ held ∈ store.heard number f, ∃ held' ∈ store, held'.2.grant = held.2.grant := by
  intro held hmem
  obtain ⟨held', hmem', rfl⟩ := List.mem_map.1 hmem
  refine ⟨held', hmem', ?_⟩
  split
  · exact (hf _).symm
  · rfl

/-- **What a step enters, and what it holds behind it.** -/
theorem entered_step {event : Event} (hkept : Kept s.store)
    (h : step py fromIso settings s event = some s') :
    (∀ held ∈ s'.store, (∃ held' ∈ s.store, held'.2.grant = held.2.grant) ∨
      Granted (s.answering event) held.2.grant) ∧
    ∃ new : List Entered, s'.entered = s.entered ++ new ∧
      new.filterMap Entered.allowance = (s.answering event).filterMap allowing ∧
      ∀ entered ∈ new, ∀ r now, entered.opening = .hit r now →
        (∃ held ∈ s.store, held.2 = r) ∧ Hit fromIso r entered.ask settings.principalReference now ∧
          entered.decisionRef = r.grant.decisionRef := by
  cases event with
  | request capability scope digest now =>
    cases h
    obtain ⟨hstore, new, hentered, hallowance, hhits⟩ :=
      entered_request fromIso settings hkept capability scope digest now
    exact ⟨fun held hmem => .inl ⟨held, hstore held hmem, rfl⟩, new, hentered, hallowance, hhits⟩
  | answer number answer =>
    obtain ⟨ask, hask, rfl⟩ := Option.map_eq_some_iff.1 h
    have hanswering : s.answering (.answer number answer) = [(ask, answer)] := by
      simp only [State.answering, hask, Option.map_some, Option.toList]
    rw [hanswering]
    refine ⟨store_answered ask answer, ?_⟩
    obtain ⟨new, hentered, hallowance, hnohit⟩ :=
      entered_answered fromIso settings { s with asking := s.asking.eraseIdx number } ask answer
    exact ⟨new, hentered, hallowance,
      fun entered hmem r now hopening => absurd hopening (hnohit entered hmem r now)⟩
  | frame reader document =>
    cases h
    exact ⟨fun held hmem => .inl (store_heard reader _ (fun _ => grant_frame document) held hmem), [],
      (List.append_nil _).symm, rfl, by simp⟩
  | channelEnded reader =>
    cases h
    exact ⟨fun held hmem => .inl (store_heard reader SignalReader.lost (fun _ => rfl) held hmem), [],
      (List.append_nil _).symm, rfl, by simp⟩
  | close =>
    cases h
    exact ⟨fun _ hmem => (by cases hmem), [], (List.append_nil _).symm, rfl, by simp⟩

end Step

/-! ## One call of the log -/

/-- The record of a pending one was made, as it is. -/
def MadeAs (made : List Made) (p : PendingRecord) : Prop :=
  ∃ m ∈ made, m.sequence = p.sequence ∧ m.capability = p.capability ∧
    m.decisionRef = p.decisionRef ∧ m.outcomeDigest = p.outcomeDigest

theorem MadeAs.mono {made more : List Made} {p : PendingRecord} (h : MadeAs made p) :
    MadeAs (made ++ more) p := by
  obtain ⟨m, hmem, hm⟩ := h
  exact ⟨m, List.mem_append_left _ hmem, hm⟩

/-- What a ledger holds or delivered goes back to a record that was made. -/
structure Traced (made : List Made) (ledger : Ledger) : Prop where
  pending : ∀ p ∈ ledger.log.pending, MadeAs made p
  delivered : ∀ record, .delivered record ∈ ledger.fates → MadeAs made record.toPendingRecord

theorem pending_shedding (log : OutcomeLog) :
    (∀ p ∈ log.shedding.1.pending, p ∈ log.pending) ∧
      ∀ record, .delivered record ∉ log.shedding.2 := by
  rcases OutcomeLog.shedding_cases log with ⟨hshed, -⟩ | ⟨oldest, pending, hpending, hshed⟩
  · rw [hshed]
    exact ⟨fun _ h => h, by simp⟩
  · rw [hshed, hpending]
    exact ⟨fun _ h => List.mem_cons_of_mem _ h, by simp⟩

theorem pending_draining (sink : OutcomeRecord → SinkAnswer) (pending : List PendingRecord) :
    ∀ dropped, (∀ p ∈ (OutcomeLog.draining sink pending dropped).1, p ∈ pending) ∧
      ∀ record, .delivered record ∈ (OutcomeLog.draining sink pending dropped).2.2 →
        record.toPendingRecord ∈ pending := by
  induction pending with
  | nil =>
    intro dropped
    exact ⟨fun _ h => h, fun record h => by cases h⟩
  | cons first rest ih =>
    intro dropped
    unfold OutcomeLog.draining
    simp only
    split
    · obtain ⟨hleft, hdelivered⟩ := ih dropped
      refine ⟨fun p hp => List.mem_cons_of_mem _ (hleft p hp), fun record hrecord => ?_⟩
      rcases List.mem_cons.1 hrecord with heq | hrecord
      · cases heq
        exact List.mem_cons_self
      · exact List.mem_cons_of_mem _ (hdelivered record hrecord)
    · obtain ⟨hleft, hdelivered⟩ := ih (dropped + 1)
      refine ⟨fun p hp => List.mem_cons_of_mem _ (hleft p hp), fun record hrecord => ?_⟩
      rcases List.mem_cons.1 hrecord with heq | hrecord
      · cases heq
      · exact List.mem_cons_of_mem _ (hdelivered record hrecord)
    · refine ⟨fun p hp => List.mem_cons_of_mem _ hp, fun record hrecord => ?_⟩
      rcases List.mem_cons.1 hrecord with heq | hrecord
      · cases heq
      · cases hrecord

namespace Traced

variable {made : List Made} {ledger : Ledger}

theorem mono {more : List Made} (h : Traced made ledger) : Traced (made ++ more) ledger :=
  ⟨fun p hp => (h.pending p hp).mono, fun record hr => (h.delivered record hr).mono⟩

theorem flush (h : Traced made ledger) (sink : OutcomeRecord → SinkAnswer) :
    Traced made (ledger.call (.flush sink)) := by
  obtain ⟨hleft, hdelivered⟩ := pending_draining sink ledger.log.pending ledger.log.dropped
  refine ⟨fun p hp => h.pending p (hleft p hp), fun record hrecord => ?_⟩
  rcases List.mem_append.1 hrecord with hrecord | hrecord
  · exact h.delivered record hrecord
  · exact h.pending _ (hdelivered record hrecord)

/-- A call that makes no record. -/
theorem unstamped (h : Traced made ledger) (capability decisionRef : Str) (digest : Option Str) :
    Traced made (ledger.call (.record capability decisionRef digest none)) := by
  obtain ⟨hkept, hnone⟩ :=
    pending_shedding { ledger.log with sequence := ledger.log.sequence + 1 }
  refine ⟨fun p hp => h.pending p (hkept p hp), fun record hrecord => ?_⟩
  rcases List.mem_append.1 hrecord with hrecord | hrecord
  · exact h.delivered record hrecord
  · rcases List.mem_append.1 hrecord with hrecord | hrecord
    · exact absurd hrecord (hnone record)
    · rw [List.mem_singleton] at hrecord
      cases hrecord

theorem stamped (h : Traced made ledger) (body : ℕ) (capability decisionRef : Str)
    (digest : Option Str) (at_ : Str) :
    Traced (made ++ [⟨body,
        (ledger.call (.record capability decisionRef digest (some at_))).log.sequence, capability,
        decisionRef, digest⟩])
      (ledger.call (.record capability decisionRef digest (some at_))) := by
  obtain ⟨hkept, hnone⟩ :=
    pending_shedding { ledger.log with sequence := ledger.log.sequence + 1 }
  refine ⟨fun p hp => ?_, fun record hrecord => ?_⟩
  · rcases List.mem_append.1 hp with hp | hp
    · exact (h.pending p (hkept p hp)).mono
    · rw [List.mem_singleton.1 hp]
      exact ⟨_, List.mem_append_right _ (List.mem_singleton.2 rfl), rfl, rfl, rfl, rfl⟩
  · rcases List.mem_append.1 hrecord with hrecord | hrecord
    · exact (h.delivered record hrecord).mono
    · exact absurd hrecord (hnone record)

end Traced

/-! ## Runs -/

variable (fromIso settings) in
/-- What holds of the acts of a boundary at every moment. -/
structure Permitted (s : Acts) : Prop where
  reached : Reached fromIso settings s.state
  allowances : s.state.entered.filterMap Entered.allowance = s.answers.filterMap allowing
  held : ∀ held ∈ s.state.store, Granted s.answers held.2.grant
  hits : ∀ entered ∈ s.state.entered, HitGranted fromIso settings s.answers entered
  handles : s.handles.map (fun handle => (handle.decisionRef, handle.capability)) =
    s.state.entered.map fun entered => (entered.decisionRef, entered.ask.capability)
  traced : Traced s.made s.ledger
  made : ∀ m ∈ s.made, ∃ handle, s.handles[m.body]? = some handle ∧
    m.capability = handle.capability ∧ m.decisionRef = handle.decisionRef
  recorded : ∀ i handle, s.handles[i]? = some handle → handle.recorded = true →
    ∃ m ∈ s.made, m.body = i
  left : ∀ i handle, s.handles[i]? = some handle → handle.left = true →
    (∃ m ∈ s.made, m.body = i) ∨ i ∈ s.unstamped

section Log

variable {s : Acts} {body : ℕ} {handle : GrantHandle} {digest at_ : Option Str}

variable (s body handle digest at_) in
theorem log_frame : (s.log body handle digest at_).state = s.state ∧
    (s.log body handle digest at_).handles = s.handles ∧
    (s.log body handle digest at_).answers = s.answers ∧
    (s.log body handle digest at_).unstamped = s.unstamped ∧
    ∃ new, (s.log body handle digest at_).made = s.made ++ new := by
  cases at_ with
  | none => exact ⟨rfl, rfl, rfl, rfl, [], (List.append_nil _).symm⟩
  | some at_ => exact ⟨rfl, rfl, rfl, rfl, _, rfl⟩

theorem made_log (h : at_.isSome = true) :
    ∃ m ∈ (s.log body handle digest at_).made, m.body = body := by
  obtain ⟨at_, rfl⟩ := Option.isSome_iff_exists.1 h
  exact ⟨_, List.mem_append_right _ (List.mem_singleton.2 rfl), rfl⟩

variable (digest at_) in
/-- A call of the log for a body keeps what holds. -/
theorem Permitted.log (h : Permitted fromIso settings s) (hhandle : s.handles[body]? = some handle) :
    Permitted fromIso settings (s.log body handle digest at_) := by
  cases at_ with
  | none =>
    exact ⟨h.reached, h.allowances, h.held, h.hits, h.handles,
      h.traced.unstamped handle.capability handle.decisionRef digest, h.made, h.recorded, h.left⟩
  | some at_ =>
    refine ⟨h.reached, h.allowances, h.held, h.hits, h.handles,
      h.traced.stamped body handle.capability handle.decisionRef digest at_, ?_, ?_, ?_⟩
    · intro m hm
      rcases List.mem_append.1 hm with hm | hm
      · exact h.made m hm
      · rw [List.mem_singleton.1 hm]
        exact ⟨handle, hhandle, rfl, rfl⟩
    · intro i other hother hrecorded
      obtain ⟨m, hm, hbody⟩ := h.recorded i other hother hrecorded
      exact ⟨m, List.mem_append_left _ hm, hbody⟩
    · intro i other hother hleft
      rcases h.left i other hother hleft with ⟨m, hm, hbody⟩ | hraised
      · exact .inl ⟨m, List.mem_append_left _ hm, hbody⟩
      · exact .inr hraised

/-- The handle of a body may be marked as far as its records go. -/
theorem Permitted.mark (h : Permitted fromIso settings s) (hhandle : s.handles[body]? = some handle)
    (marked : GrantHandle) (more : List ℕ) (hdecision : marked.decisionRef = handle.decisionRef)
    (hcapability : marked.capability = handle.capability)
    (hrecorded : marked.recorded = true → ∃ m ∈ s.made, m.body = body)
    (hleft : marked.left = true → (∃ m ∈ s.made, m.body = body) ∨ body ∈ s.unstamped ++ more) :
    Permitted fromIso settings { s with
      handles := s.handles.set body marked
      unstamped := s.unstamped ++ more } := by
  obtain ⟨hlt, hget⟩ := List.getElem?_eq_some_iff.1 hhandle
  refine ⟨h.reached, h.allowances, h.held, h.hits, ?_, h.traced, ?_, ?_, ?_⟩
  · rw [← h.handles]
    simp only [List.map_set, hdecision, hcapability]
    refine List.ext_getElem? fun i => ?_
    rw [List.getElem?_set]
    split
    · rename_i hi
      subst hi
      simp [hlt, hget]
    · rfl
  · intro m hm
    obtain ⟨other, hother, hmcapability, hmdecision⟩ := h.made m hm
    by_cases hbody : body = m.body
    · subst hbody
      rw [hhandle] at hother
      cases hother
      refine ⟨marked, by simp [hlt], ?_, ?_⟩
      · rw [hmcapability, hcapability]
      · rw [hmdecision, hdecision]
    · exact ⟨other, by rw [List.getElem?_set_ne hbody]; exact hother, hmcapability, hmdecision⟩
  · intro i other hother hmarked
    by_cases hi : body = i
    · subst hi
      obtain rfl : marked = other := by simpa [hlt] using hother
      exact hrecorded hmarked
    · rw [List.getElem?_set_ne hi] at hother
      exact h.recorded i other hother hmarked
  · intro i other hother hmarked
    by_cases hi : body = i
    · subst hi
      obtain rfl : marked = other := by simpa [hlt] using hother
      exact hleft hmarked
    · rw [List.getElem?_set_ne hi] at hother
      rcases h.left i other hother hmarked with hmade | hraised
      · exact .inl hmade
      · exact .inr (List.mem_append_left _ hraised)

end Log

namespace Permitted

variable {s s' : Acts}

theorem records (h : Permitted fromIso settings s) {body : ℕ} {handle : GrantHandle}
    (hhandle : s.handles[body]? = some handle) (digest : Str) (at_ : Option Str) :
    Permitted fromIso settings (s.record body handle digest at_) := by
  obtain ⟨-, hhandles, -, -, new, hmade⟩ :=
    log_frame s body handle (some digest) at_
  have hlog := h.log (some digest) at_ hhandle
  have hhandle' : (s.log body handle (some digest) at_).handles[body]? = some handle := by
    rw [hhandles]
    exact hhandle
  -- the handle is marked only where the clock gave the record its instant
  have hmarked := hlog.mark hhandle' { handle with recorded := handle.recorded || at_.isSome } []
    rfl rfl ?_ ?_
  · rw [List.append_nil] at hmarked
    exact hmarked
  · intro hrecorded
    rcases Bool.or_eq_true_iff.1 hrecorded with hbefore | hnow
    · obtain ⟨m, hm, hbody⟩ := h.recorded body handle hhandle hbefore
      exact ⟨m, by rw [hmade]; exact List.mem_append_left _ hm, hbody⟩
    · exact made_log hnow
  · intro hleft
    rw [List.append_nil]
    exact hlog.left body handle hhandle' hleft

theorem leaves (h : Permitted fromIso settings s) {body : ℕ} {handle : GrantHandle}
    (hhandle : s.handles[body]? = some handle) (at_ : Option Str) :
    Permitted fromIso settings (s.leave body handle at_) := by
  unfold Acts.leave
  cases hrecorded : handle.recorded with
  | true =>
    -- its own record is there, so leaving makes none
    have hmade := h.recorded body handle hhandle hrecorded
    have hmarked := h.mark hhandle { handle with left := true } [] rfl rfl
      (fun _ => hmade) (fun _ => .inl hmade)
    simpa [hrecorded] using hmarked
  | false =>
    obtain ⟨-, hhandles, -, hunstamped, -⟩ :=
      log_frame s body handle none at_
    have hlog := h.log none at_ hhandle
    have hhandle' : (s.log body handle none at_).handles[body]? = some handle := by
      rw [hhandles]
      exact hhandle
    have hmarked := hlog.mark hhandle' { handle with left := true }
      (if at_.isSome then [] else [body]) rfl rfl
      (fun h => absurd (hrecorded.symm.trans h) (by decide)) ?_
    · cases at_ with
      | none => simpa [hrecorded] using hmarked
      | some at_ => simpa [hrecorded] using hmarked
    · intro _
      cases at_ with
      | none => exact .inr (by simp)
      | some at_ => exact .inl (made_log rfl)

/-- A step of the boundary keeps what holds: the bodies it enters are new ones. -/
theorem boundary (h : Permitted fromIso settings s) {event : Event} {state : State}
    (hstep : Boundary.step py fromIso settings s.state event = some state) :
    Permitted fromIso settings { s with
      state
      handles := s.handles ++ (state.entered.drop s.state.entered.length).map Entered.handle
      answers := s.answers ++ s.state.answering event } := by
  obtain ⟨hstore, new, hentered, hallowance, hhits⟩ := entered_step h.reached.kept hstep
  have hnew : state.entered.drop s.state.entered.length = new := by
    rw [hentered, List.drop_left]
  have hlength : s.handles.length = s.state.entered.length := by
    simpa using congrArg List.length h.handles
  -- a handle behind the old ones is that of a new body: nothing was recorded through it
  have fresh : ∀ (i : ℕ) (handle : GrantHandle), (s.handles ++ new.map Entered.handle)[i]? = some handle →
      s.handles[i]? = some handle ∨ handle.recorded = false ∧ handle.left = false := by
    intro i handle hi
    by_cases hlt : i < s.handles.length
    · rw [List.getElem?_append_left hlt] at hi
      exact .inl hi
    · rw [List.getElem?_append_right (by omega), List.getElem?_map] at hi
      obtain ⟨entered, -, rfl⟩ := Option.map_eq_some_iff.1 hi
      exact .inr ⟨rfl, rfl⟩
  rw [hnew]
  refine ⟨reached_step _ _ _ h.reached hstep, ?_, ?_, ?_, ?_, h.traced, ?_, ?_, ?_⟩
  · simp only [hentered, List.filterMap_append, hallowance, h.allowances]
  · intro held hmem
    rcases hstore held hmem with ⟨held', hmem', hgrant⟩ | hgranted
    · rw [← hgrant]
      exact (h.held held' hmem').mono
    · obtain ⟨ask, decision, generation, hanswer, houtcome⟩ := hgranted
      exact ⟨ask, decision, generation, List.mem_append_right _ hanswer, houtcome⟩
  · intro entered hmem r now hopening
    simp only [hentered] at hmem
    rcases List.mem_append.1 hmem with hmem | hmem
    · obtain ⟨hgranted, hhit⟩ := h.hits entered hmem r now hopening
      exact ⟨hgranted.mono, hhit⟩
    · -- the grant of a hit was in the store before the step, where an allow had brought it
      obtain ⟨⟨held, hheld, rfl⟩, hhit⟩ := hhits entered hmem r now hopening
      exact ⟨(h.held held hheld).mono, hhit⟩
  · simp only [hentered, List.map_append, h.handles, List.map_map]
    rfl
  · intro m hm
    obtain ⟨handle, hhandle, hm⟩ := h.made m hm
    have hlt := (List.getElem?_eq_some_iff.1 hhandle).1
    exact ⟨handle, by rw [List.getElem?_append_left hlt]; exact hhandle, hm⟩
  · intro i handle hi hrecorded
    rcases fresh i handle hi with hold | ⟨hno, -⟩
    · exact h.recorded i handle hold hrecorded
    · rw [hno] at hrecorded
      cases hrecorded
  · intro i handle hi hleft
    rcases fresh i handle hi with hold | ⟨-, hno⟩
    · exact h.left i handle hold hleft
    · rw [hno] at hleft
      cases hleft

/-- **Every step keeps what holds.** -/
theorem step (s : Acts) (event : ActEvent) (s' : Acts) (h : Permitted fromIso settings s)
    (hstep : s.step py fromIso settings event = some s') : Permitted fromIso settings s' := by
  cases event with
  | boundary event =>
    obtain ⟨state, hstate, hs'⟩ := Option.bind_eq_some_iff.1 hstep
    cases hs'
    exact h.boundary hstate
  | records body digest at_ =>
    obtain ⟨handle, hhandle, rfl⟩ := Option.map_eq_some_iff.1 hstep
    exact h.records hhandle digest at_
  | leaves body at_ =>
    obtain ⟨handle, hhandle, hs'⟩ := Option.bind_eq_some_iff.1 hstep
    split at hs'
    · cases hs'
    · cases hs'
      exact h.leaves hhandle at_
  | flush sink =>
    cases hstep
    exact ⟨h.reached, h.allowances, h.held, h.hits, h.handles, h.traced.flush sink, h.made,
      h.recorded, h.left⟩

end Permitted

theorem permitted_begin {capacity : ℕ} {log : OutcomeLog} (h : OutcomeLog.made capacity = some log) :
    Permitted fromIso settings (Acts.begin log) := by
  have hpending : log.pending = [] := by
    unfold OutcomeLog.made at h
    split at h
    · cases h
    · cases h
      rfl
  refine ⟨⟨fun _ hmem => (by cases hmem), fun _ hmem => (by cases hmem)⟩, rfl,
    fun _ hmem => (by cases hmem), fun _ hmem => (by cases hmem), rfl, ⟨?_, ?_⟩,
    fun _ hmem => (by cases hmem), fun _ _ hi => (by cases hi), fun _ _ hi => (by cases hi)⟩
  · intro p hp
    rw [show (Acts.begin log).ledger.log.pending = log.pending from rfl, hpending] at hp
    cases hp
  · intro record hrecord
    cases hrecord

/-- **No act without an allow.** In every run of a boundary, each answer that allows opens exactly one
body, every other body is opened by a live grant such an answer brought for its very question, each
record that is delivered is that of a body, and each body that was left has a record, but where the
clock raised as it was left. -/
theorem acts_permitted (py : ClientHost) (fromIso : FromIso) (settings : Settings) (capacity : ℕ)
    (log : OutcomeLog) (hlog : OutcomeLog.made capacity = some log) (events : List ActEvent)
    (s : Acts) (hrun : run (Acts.step py fromIso settings) (Acts.begin log) events = some s) :
    s.state.entered.filterMap Entered.allowance = s.answers.filterMap allowing ∧
    (∀ entered ∈ s.state.entered, HitGranted fromIso settings s.answers entered) ∧
    (∀ record ∈ s.ledger.delivered, ∃ entered ∈ s.state.entered,
      record.decisionRef = entered.decisionRef ∧ record.capability = entered.ask.capability) ∧
    ∀ i handle, s.handles[i]? = some handle → handle.left = true → i ∉ s.unstamped →
      ∃ entered, s.state.entered[i]? = some entered ∧ ∃ m ∈ s.made, m.body = i ∧
        m.decisionRef = entered.decisionRef ∧ m.capability = entered.ask.capability := by
  have h : Permitted fromIso settings s :=
    run_preserves (fun s event s' => Permitted.step s event s') (permitted_begin hlog) hrun
  -- the body of a record, by its handle
  have bodyOf : ∀ m ∈ s.made, ∃ entered, s.state.entered[m.body]? = some entered ∧
      m.decisionRef = entered.decisionRef ∧ m.capability = entered.ask.capability := by
    intro m hm
    obtain ⟨handle, hhandle, hcapability, hdecision⟩ := h.made m hm
    have hat := congrArg (fun list => list[m.body]?) h.handles
    simp only [List.getElem?_map, hhandle, Option.map_some] at hat
    obtain ⟨entered, hentered, heq⟩ := Option.map_eq_some_iff.1 hat.symm
    obtain ⟨hd, hc⟩ := Prod.mk.inj heq
    exact ⟨entered, hentered, by rw [hdecision, hd], by rw [hcapability, hc]⟩
  refine ⟨h.allowances, h.hits, fun record hrecord => ?_, fun i handle hi hleft hstamped => ?_⟩
  · obtain ⟨m, hm, -, hcapability, hdecision, -⟩ :=
      h.traced.delivered record (Ledger.mem_delivered.1 hrecord)
    obtain ⟨entered, hentered, hd, hc⟩ := bodyOf m hm
    exact ⟨entered, List.mem_of_getElem? hentered, by rw [← hd, hdecision], by rw [← hc, hcapability]⟩
  · obtain ⟨m, hm, rfl⟩ := (h.left i handle hi hleft).resolve_right hstamped
    obtain ⟨entered, hentered, hd, hc⟩ := bodyOf m hm
    exact ⟨entered, hentered, m, hm, rfl, hd, hc⟩

/-- An act that asks and one the grant covers, each left, one with a record of its own. -/
def sampleActs : List ActEvent :=
  [.boundary (.request sampleAsk.capability sampleAsk.scope sampleAsk.argumentsDigest
      1767607200000000),
    .boundary (.answer 0 (some (.answered sampleAllow 1, some (some sampleGrant)))),
    .records 0 (lit "sha256:2") (some (lit "t")), .leaves 0 (some (lit "t")),
    .boundary (.request sampleAsk.capability sampleAsk.scope sampleAsk.argumentsDigest
      1767607205000000), .leaves 1 (some (lit "t")), .flush fun _ => .took]

/-- The acts behind the run. -/
def sampleActed : Acts :=
  (run (Acts.step Client.plainHost morning sampleSettings) (Acts.begin ⟨[], 4, 0, 0⟩)
    sampleActs).getD (Acts.begin ⟨[], 4, 0, 0⟩)

theorem acts_permitted_two : sampleActed.state.entered.length = 2 ∧
    sampleActed.ledger.delivered.length = 2 ∧
    ∀ record ∈ sampleActed.ledger.delivered, ∃ entered ∈ sampleActed.state.entered,
      record.decisionRef = entered.decisionRef ∧ record.capability = entered.ask.capability :=
  ⟨rfl, rfl, (acts_permitted Client.plainHost morning sampleSettings 4 ⟨[], 4, 0, 0⟩ rfl sampleActs
    sampleActed rfl).2.2.1⟩

end SayFirst.Boundary
