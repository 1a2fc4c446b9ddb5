import SayFirst.Lib.Raises
import SayFirst.Proof.ClientTotal
import SayFirst.Spec.Boundary

/-!
# What a boundary honours

* `ending_alike` — the boundary's ending and the plane's state of a grant have one name.
* `ending_live_iff` — when a held grant answers that it is live.
* `reached_step` — what every step keeps of the readers and of the bodies that were entered.
* `boundary_honours_iff` — when a grant is handed out just where the plane would honour it.
-/

namespace SayFirst.Boundary

open Py
open SayFirst.Client (ClientHost Grant GrantConditions)
open SayFirst.Contract (Decision)
open SayFirst.Plane (DecisionAsk GrantFields GrantState grantState)

variable {py : ClientHost} {fromIso : FromIso} {settings : Settings} {ask : DecisionAsk}
  {principal : Str} {now : ℤ}

/-! ## The plane's view of a held grant -/

variable (fromIso) in
/-- A grant of the plane that reads as the published one does. -/
structure Reads (p : GrantFields) (g : Grant) : Prop where
  expiresAt : fromIso g.expiresAt = some (some p.expiresAt)
  lifetimeSeconds : p.lifetimeSeconds = g.lifetimeSeconds
  policyVersion : p.policyVersion = g.policyVersion

variable (fromIso) in
/-- The plane's state of the grant is live, its own policy version being the current one. -/
def PlaneLive (held : Held) (now : ℤ) : Prop :=
  ∃ p t, Reads fromIso p held.grant ∧ held.lastHeardAt = some t ∧
    grantState p now p.policyVersion held.connectionLive t = .ok .live

theorem grantUse_question {held : Held} {p : GrantFields} (hreads : Reads fromIso p held.grant)
    (hconditions : held.grant.conditions = question ask principal) :
    grantUse fromIso held.grant ask principal now true =
      .ok (if p.expiresAt ≤ now then .expired else .hit) := by
  have hread : readInstant fromIso held.grant.expiresAt = .ok p.expiresAt := by
    rw [readInstant, hreads.expiresAt]
  have hsame : sameQuestion held.grant.conditions ask principal = true := by
    rw [hconditions, sameQuestion, question]
    simp
  have hdigest : held.grant.conditions.argumentsDigest = ask.argumentsDigest := by
    rw [hconditions, question]
  unfold grantUse
  rw [if_neg (by decide), hread, hsame, hdigest]
  simp [bind, Except.bind, pure, Except.pure]

/-- **The boundary and the plane name one state**, of a grant no signal has ended. -/
theorem ending_alike {held : Held} {p : GrantFields} {t : ℤ} (hreads : Reads fromIso p held.grant)
    (hheard : held.lastHeardAt = some t)
    (hconditions : held.grant.conditions = question ask principal) (hended : held.endedBy = none) :
    (ending fromIso held ask principal now).map Ending.value =
      (grantState p now p.policyVersion held.connectionLive t).map GrantState.value := by
  unfold ending grantState
  cases held.connectionLive with
  | false => rfl
  | true =>
    rw [hended]
    simp only [Bool.not_true, Bool.false_eq_true, if_false]
    unfold endingOf
    rw [grantUse_question hreads hconditions]
    by_cases hexpired : p.expiresAt ≤ now
    · simp only [hexpired, if_true]
      rfl
    · simp only [hexpired, if_false, bind, Except.bind]
      rw [if_neg (by decide), Held.silent, hheard, ← hreads.lifetimeSeconds]
      cases secondsDelta p.lifetimeSeconds with
      | error e => rfl
      | ok lifetime =>
        by_cases hsilent : lifetime ≤ now - t
        · simp only [Except.map, hsilent, decide_true, if_true]
          rfl
        · simp only [Except.map, hsilent, decide_false, Bool.false_eq_true, if_false, ne_eq,
            not_true_eq_false]
          rfl

theorem readInstant_ok {value : Str} {t : ℤ} :
    readInstant fromIso value = .ok t ↔ fromIso value = some (some t) := by
  unfold readInstant
  cases fromIso value with
  | none => simp
  | some stamp => cases stamp <;> simp

/-- What `grant_use` answers `HIT` of. -/
theorem grantUse_hit {g : Grant} (h : grantUse fromIso g ask principal now true = .ok .hit) :
    g.conditions = question ask principal ∧
      ∃ expiresAt, fromIso g.expiresAt = some (some expiresAt) ∧ now < expiresAt := by
  unfold grantUse at h
  rw [if_neg (by decide)] at h
  obtain ⟨expiresAt, hread, h⟩ := bind_ok_iff.1 h
  rw [readInstant_ok] at hread
  by_cases hexpired : expiresAt ≤ now
  · simp [hexpired, pure, Except.pure] at h
  · by_cases hsame : sameQuestion g.conditions ask principal = true
    · by_cases hdigest : g.conditions.argumentsDigest = ask.argumentsDigest
      · refine ⟨?_, expiresAt, hread, by omega⟩
        simp only [sameQuestion, Bool.and_eq_true, beq_iff_eq] at hsame
        obtain ⟨⟨hscope, hcapability⟩, hprincipal⟩ := hsame
        rw [question, ← hscope, ← hcapability, ← hprincipal, ← hdigest]
      · simp [hexpired, hsame, hdigest, pure, Except.pure] at h
    · simp [hexpired, hsame, pure, Except.pure] at h

/-- **A held grant answers that it is live exactly when no signal has ended it, it is for the
question, and the plane's state of it is live.** -/
theorem ending_live_iff {held : Held} : ending fromIso held ask principal now = .ok .live ↔
    held.endedBy = none ∧ held.grant.conditions = question ask principal ∧
      PlaneLive fromIso held now := by
  constructor
  · intro h
    unfold ending at h
    cases hlive : held.connectionLive with
    | false =>
      rw [hlive] at h
      cases h
    | true =>
      rw [hlive, if_neg (by decide)] at h
      cases hended : held.endedBy with
      | some reason =>
        rw [hended] at h
        cases reason <;> cases h
      | none =>
        rw [hended] at h
        obtain ⟨use, huse, h⟩ := bind_ok_iff.1 h
        by_cases houtranks : use ∈ outranksSilence
        · rw [if_pos houtranks] at h
          simp only [outranksSilence, List.mem_cons, List.not_mem_nil, or_false] at houtranks
          rcases houtranks with rfl | rfl <;> cases h
        · rw [if_neg houtranks] at h
          obtain ⟨silent, hsilent, h⟩ := bind_ok_iff.1 h
          obtain ⟨rfl, rfl⟩ : silent = false ∧ use = .hit := by
            cases silent <;> cases use <;> cases h
            exact ⟨rfl, rfl⟩
          obtain ⟨hconditions, expiresAt, hexpires, hnow⟩ := grantUse_hit huse
          refine ⟨rfl, hconditions, ?_⟩
          unfold Held.silent at hsilent
          cases hheard : held.lastHeardAt with
          | none =>
            rw [hheard] at hsilent
            cases hsilent
          | some t =>
            rw [hheard] at hsilent
            refine ⟨⟨held.grant.grantId, held.grant.decisionRef, held.grant.policyVersion, 0,
              held.grant.lifetimeSeconds, expiresAt, held.grant.heartbeatSeconds,
              ⟨ask.scope, ask.capability, principal, ask.argumentsDigest⟩⟩, t, ⟨hexpires, rfl, rfl⟩,
              hheard, ?_⟩
            unfold grantState
            rw [hlive, if_neg (by decide), if_neg (by simpa using hnow)]
            cases hlifetime : secondsDelta held.grant.lifetimeSeconds with
            | error e =>
              simp only [hlifetime] at hsilent
              cases hsilent
            | ok lifetime =>
              simp only [hlifetime, Except.map, Except.ok.injEq, decide_eq_false_iff_not] at hsilent
              simp [bind, Except.bind, hsilent]
              rfl
  · rintro ⟨hended, hconditions, p, t, hreads, hheard, hstate⟩
    have halike := @ending_alike _ _ _ now _ _ _ hreads hheard hconditions hended
    rw [hstate] at halike
    cases hending : ending fromIso held ask principal now with
    | error e =>
      rw [hending] at halike
      cases halike
    | ok answer =>
      rw [hending] at halike
      have hvalue : answer.value = GrantState.live.value := Except.ok.inj halike
      cases answer <;> first | rfl | exact absurd hvalue (by decide)

/-! ## Readers -/

/-- A signal that ends the grant of its channel. -/
def GrantSignal.ends (signal : GrantSignal) : Prop := signal.kind = .grantEnded

/-- What a reader knows is what it has read: what gives a reason ends the grant. -/
structure Told (r : SignalReader) : Prop where
  unended : r.endedBy = none → r.connectionLive = true →
    ∀ signal ∈ r.read, signal.ends → signal.reason = none
  ended : ∀ reason, r.endedBy = some reason →
    ∃ signal ∈ r.read, signal.ends ∧ signal.reason = some reason

variable {r : SignalReader}

theorem Told.lost (h : Told r) : Told r.lost :=
  ⟨fun _ hlive => (by cases hlive), h.ended⟩

theorem told_made {number : ℕ} {grant : Grant} (h : SignalReader.made fromIso number grant = some r) :
    Told r := by
  obtain ⟨issuedAt, -, rfl⟩ := Option.map_eq_some_iff.1 h
  exact ⟨fun _ _ _ hmem => (by cases hmem), fun _ hended => (by cases hended)⟩

theorem Told.apply (h : Told r) (signal : GrantSignal) : Told (r.apply fromIso signal) := by
  obtain ⟨⟨grant, heard, live, ended⟩, number, read⟩ := r
  obtain ⟨hunended, hended⟩ := h
  unfold SignalReader.apply
  cases ended with
  | some reason =>
    refine ⟨fun hnone => (by cases hnone), fun reason' hreason => ?_⟩
    obtain ⟨last, hmem, hlast⟩ := hended reason' hreason
    exact ⟨last, List.mem_append_left _ hmem, hlast⟩
  | none =>
    simp only [Option.isSome_none, Bool.false_eq_true, if_false]
    cases fromIso signal.at_ with
    | none => exact ⟨fun _ hlive => (by cases hlive), fun _ hreason => (by cases hreason)⟩
    | some at_ =>
      cases hkind : signal.kind with
      | heartbeat =>
        refine ⟨fun _ hlive last hmem hends => ?_, fun _ hreason => (by cases hreason)⟩
        rcases List.mem_append.1 hmem with hmem | hmem
        · exact hunended rfl hlive last hmem hends
        · rw [List.mem_singleton.1 hmem] at hends
          exact absurd (hkind.symm.trans hends) (by decide)
      | grantEnded =>
        refine ⟨fun hreason hlive last hmem hends => ?_, fun reason hreason => ?_⟩
        · rcases List.mem_append.1 hmem with hmem | hmem
          · exact hunended rfl hlive last hmem hends
          · rw [List.mem_singleton.1 hmem]
            exact hreason
        · exact ⟨signal, List.mem_append_right _ (List.mem_singleton.2 rfl), hkind, hreason⟩

theorem Told.frame (h : Told r) (document : Client.Members) : Told (r.frame py fromIso document) := by
  unfold SignalReader.frame
  split
  · exact h.apply _
  · exact h.lost

theorem grant_apply (signal : GrantSignal) : (r.apply fromIso signal).grant = r.grant := by
  unfold SignalReader.apply
  simp only
  split
  · rfl
  · split
    · rfl
    · split <;> rfl

theorem grant_frame (document : Client.Members) : (r.frame py fromIso document).grant = r.grant := by
  unfold SignalReader.frame
  split
  · exact grant_apply _
  · rfl

/-! ## The store -/

/-- Each reader is held under the conditions of its grant, and knows what it has read. -/
def Kept (store : GrantStore) : Prop :=
  ∀ held ∈ store, held.1 = held.2.grant.conditions ∧ Told held.2

namespace Kept

variable {store : GrantStore}

theorem without (h : Kept store) (key : GrantConditions) : Kept (store.without key) :=
  fun held hmem => h held (List.mem_of_mem_filter hmem)

theorem put (h : Kept store) (hr : Told r) : Kept (store.put r) := by
  intro held hmem
  rcases List.mem_cons.1 hmem with rfl | hmem
  · exact ⟨rfl, hr⟩
  · exact h.without _ held hmem

theorem heard (h : Kept store) {f : SignalReader → SignalReader} (number : ℕ)
    (hgrant : ∀ r, (f r).grant = r.grant) (hf : ∀ r, Told r → Told (f r)) :
    Kept (store.heard number f) := by
  intro held hmem
  obtain ⟨held', hmem', rfl⟩ := List.mem_map.1 hmem
  obtain ⟨hkey, htold⟩ := h held' hmem'
  split
  · exact ⟨hkey.trans (by rw [hgrant]), hf _ htold⟩
  · exact ⟨hkey, htold⟩

theorem lookup (h : Kept store) {key : GrantConditions} (hr : store.lookup key = some r) :
    r.grant.conditions = key ∧ Told r := by
  obtain ⟨before, behind, hstore, -⟩ := List.lookup_eq_some_iff.1 hr
  obtain ⟨hkey, htold⟩ := h (key, r) (by rw [hstore]; simp)
  exact ⟨hkey.symm, htold⟩

theorem take (h : Kept store) : Kept (store.take fromIso ask principal now).2 := by
  unfold GrantStore.take
  simp only
  split
  · exact h
  · split
    · exact h
    · exact h.without _
    · exact h

end Kept

/-! ## What is handed out -/

variable {store : GrantStore}

variable (fromIso) in
/-- A reader for the question, of a grant the plane would honour; what ended it gave no reason. -/
structure Hit (r : SignalReader) (ask : DecisionAsk) (principal : Str) (now : ℤ) : Prop where
  conditions : r.grant.conditions = question ask principal
  unnamed : ∀ signal ∈ r.read, signal.ends → signal.reason = none
  live : PlaneLive fromIso r.toHeld now

variable (fromIso) in
/-- What `take` owes of a question: a reader of a grant that was not ended and that the plane would
honour, and endings the plane names alike. -/
structure Honours (store : GrantStore) (ask : DecisionAsk) (principal : Str) (now : ℤ) : Prop where
  handed : ∀ r, (store.take fromIso ask principal now).1 = .ok (some r) →
    Hit fromIso r ask principal now ∧ ∀ signal ∈ r.read, ¬signal.ends
  alike : ∀ held ∈ store, (∀ signal ∈ held.2.read, ¬signal.ends) →
    held.2.grant.conditions = question ask principal → ∀ p t, Reads fromIso p held.2.grant →
    held.2.lastHeardAt = some t → (ending fromIso held.2.toHeld ask principal now).map Ending.value =
      (grantState p now p.policyVersion held.2.connectionLive t).map GrantState.value

variable (fromIso) in
/-- The grant that is held for the question was ended by signals that give no reason, and is live
but for them. -/
def EndedUnnamed (store : GrantStore) (ask : DecisionAsk) (principal : Str) (now : ℤ) : Prop :=
  ∃ r, store.lookup (question ask principal) = some r ∧ (∃ signal ∈ r.read, signal.ends) ∧
    (∀ signal ∈ r.read, signal.ends → signal.reason = none) ∧ PlaneLive fromIso r.toHeld now

theorem PlaneLive.connectionLive {held : Held} (h : PlaneLive fromIso held now) :
    held.connectionLive = true := by
  obtain ⟨p, t, -, -, hstate⟩ := h
  by_contra hlost
  unfold grantState at hstate
  rw [if_pos (by simpa using hlost)] at hstate
  cases hstate

/-- What `take` hands out is what it holds for the question, live. -/
theorem take_handed : (store.take fromIso ask principal now).1 = .ok (some r) ↔
    store.lookup (question ask principal) = some r ∧
      ending fromIso r.toHeld ask principal now = .ok .live := by
  unfold GrantStore.take
  simp only
  cases store.lookup (question ask principal) with
  | none => simp
  | some reader =>
    simp only [Option.some.injEq]
    constructor
    · intro h
      split at h
      · rename_i hlive
        obtain rfl : reader = r := by simpa using h
        exact ⟨rfl, hlive⟩
      · simp at h
      · simp at h
    · rintro ⟨rfl, hlive⟩
      rw [hlive]

theorem hit_of_live (htold : Told r) (h : ending fromIso r.toHeld ask principal now = .ok .live) :
    Hit fromIso r ask principal now := by
  obtain ⟨hended, hconditions, hlive⟩ := ending_live_iff.1 h
  exact ⟨hconditions, htold.unended hended hlive.connectionLive, hlive⟩

theorem Told.endedBy_none (htold : Told r) (h : ∀ signal ∈ r.read, signal.ends → signal.reason = none) :
    r.endedBy = none := by
  cases hended : r.endedBy with
  | none => rfl
  | some reason =>
    obtain ⟨signal, hmem, hends, hreason⟩ := htold.ended reason hended
    exact absurd ((h signal hmem hends).symm.trans hreason) (by simp)

/-- **A store honours a question exactly when no signal without a reason ended what it holds.** -/
theorem honours_iff (hkept : Kept store) :
    Honours fromIso store ask principal now ↔ ¬EndedUnnamed fromIso store ask principal now := by
  constructor
  · rintro h ⟨r, hlookup, ⟨signal, hmem, hends⟩, hunnamed, hlive⟩
    obtain ⟨hconditions, htold⟩ := hkept.lookup hlookup
    have hending := ending_live_iff.2 ⟨htold.endedBy_none hunnamed, hconditions, hlive⟩
    exact (h.handed r (take_handed.2 ⟨hlookup, hending⟩)).2 signal hmem hends
  · refine fun h => ⟨fun r hr => ?_, fun held hmem hread hconditions p t hreads hheard => ?_⟩
    · obtain ⟨hlookup, hending⟩ := take_handed.1 hr
      have hhit := hit_of_live (hkept.lookup hlookup).2 hending
      exact ⟨hhit, fun signal hmem hends =>
        h ⟨r, hlookup, ⟨signal, hmem, hends⟩, hhit.unnamed, hhit.live⟩⟩
    · have hended := (hkept held hmem).2.endedBy_none fun signal hmem hends =>
        absurd hends (hread signal hmem)
      exact ending_alike hreads hheard hconditions hended

/-! ## Runs -/

variable (fromIso settings) in
/-- A body was entered behind a hit, or behind an answer that allows. -/
def Opened (entered : Entered) : Prop :=
  match entered.opening with
  | .hit r now => Hit fromIso r entered.ask settings.principalReference now ∧
      entered.decisionRef = r.grant.decisionRef
  | .allowed decision => decision.outcome = .allow ∧ entered.decisionRef = decision.decisionRef

variable (fromIso settings) in
/-- What holds of a boundary at every moment. -/
structure Reached (s : State) : Prop where
  kept : Kept s.store
  entered : ∀ entered ∈ s.entered, Opened fromIso settings entered

theorem Reached.enter {s : State} (h : Reached fromIso settings s) {ask : DecisionAsk}
    {decisionRef : Str} {opening : Opening}
    (hopened : Opened fromIso settings ⟨ask, decisionRef, opening⟩) :
    Reached fromIso settings (s.enter ask decisionRef opening) := by
  refine ⟨h.kept, fun entered hmem => ?_⟩
  rcases List.mem_append.1 hmem with hmem | hmem
  · exact h.entered entered hmem
  · rw [List.mem_singleton.1 hmem]
    exact hopened

theorem Reached.hold {s : State} (h : Reached fromIso settings s) (stream : Option (Option Grant)) :
    Reached fromIso settings (s.hold fromIso settings stream) := by
  unfold State.hold
  split
  · split
    · split
      · rename_i hmade
        exact ⟨h.kept.put (told_made hmade), h.entered⟩
      · exact h
    · exact h
  · exact h

theorem Reached.answered {s : State} (h : Reached fromIso settings s) (ask : DecisionAsk)
    (answer : Answer) : Reached fromIso settings (s.answered fromIso settings ask answer) := by
  unfold State.answered State.ask
  match answer with
  | none => exact h
  | some (.refused _, _) => exact h
  | some (.couldNotAsk _, _) => exact h
  | some (.answered decision _, stream) =>
    simp only
    cases houtcome : decision.outcome with
    | deny => exact h
    | suspend => exact h
    | allow => exact (h.hold stream).enter ⟨houtcome, rfl⟩

theorem Reached.request {s : State} (h : Reached fromIso settings s) (capability scope : Str)
    (digest : Option Str) (now : ℤ) :
    Reached fromIso settings (s.request fromIso settings capability scope digest now) := by
  cases digest with
  | none => exact h
  | some digest =>
    unfold State.request
    simp only
    split
    · have hkept := @Kept.take fromIso
        ⟨capability, scope, some digest, settings.correlation⟩ settings.principalReference now _ h.kept
      split
      · rename_i reader store htake
        rw [htake] at hkept
        obtain ⟨hlookup, hlive⟩ := take_handed.1 (congrArg Prod.fst htake)
        exact (show Reached fromIso settings { s with store } from ⟨hkept, h.entered⟩).enter
          ⟨hit_of_live (h.kept.lookup hlookup).2 hlive, rfl⟩
      · rename_i htake
        rw [htake] at hkept
        exact ⟨hkept, h.entered⟩
      · rename_i htake
        rw [htake] at hkept
        exact ⟨hkept, h.entered⟩
    · exact ⟨h.kept, h.entered⟩

theorem reached_step (s : State) (event : Event) (s' : State) (h : Reached fromIso settings s)
    (hstep : step py fromIso settings s event = some s') : Reached fromIso settings s' := by
  cases event with
  | request capability scope digest now =>
    cases hstep
    exact h.request capability scope digest now
  | answer number answer =>
    obtain ⟨ask, -, rfl⟩ := Option.map_eq_some_iff.1 hstep
    have hasked : Reached fromIso settings { s with asking := s.asking.eraseIdx number } :=
      ⟨h.kept, h.entered⟩
    exact hasked.answered ask answer
  | frame reader document =>
    cases hstep
    exact ⟨h.kept.heard reader (fun _ => grant_frame document) fun _ hr => hr.frame document,
      h.entered⟩
  | channelEnded reader =>
    cases hstep
    exact ⟨h.kept.heard reader (fun _ => rfl) fun _ hr => hr.lost, h.entered⟩
  | close =>
    cases hstep
    exact ⟨fun _ hmem => (by cases hmem), h.entered⟩

/-- **A boundary honours what the plane would exactly where no signal without a reason ended what it
holds, and enters a body only behind a hit or an answer that allows.** -/
theorem boundary_honours_iff (py : ClientHost) (fromIso : FromIso) (settings : Settings)
    (events : List Event) (s : State)
    (hrun : run (step py fromIso settings) State.begin events = some s) :
    (∀ ask now, Honours fromIso s.store ask settings.principalReference now ↔
      ¬EndedUnnamed fromIso s.store ask settings.principalReference now) ∧
    ∀ entered ∈ s.entered, Opened fromIso settings entered := by
  have hbegin : Reached fromIso settings State.begin :=
    ⟨fun _ hmem => (by cases hmem), fun _ hmem => (by cases hmem)⟩
  have hreached := run_preserves reached_step hbegin hrun
  exact ⟨fun _ _ => honours_iff hreached.kept, hreached.entered⟩

/-! ## A run -/

/-- Three instants of one morning. -/
def morning : FromIso := fun text =>
  if text = lit "2026-01-05T10:00:00Z" then some (some 1767607200000000)
  else if text = lit "2026-01-05T10:00:05Z" then some (some 1767607205000000)
  else if text = lit "2026-01-05T10:05:00Z" then some (some 1767607500000000)
  else none

def sampleSettings : Settings := ⟨lit "user:build", none, true⟩

def sampleAsk : DecisionAsk := ⟨lit "example.effect", lit "local", some (lit "sha256:1"), none⟩

def sampleGrant : Grant where
  grantId := lit "g-1"
  decisionRef := lit "dec-1"
  policyVersion := lit "sha256:a"
  issuedAt := lit "2026-01-05T10:00:00Z"
  lifetimeSeconds := 300
  expiresAt := lit "2026-01-05T10:05:00Z"
  heartbeatSeconds := 10
  conditions := question sampleAsk (lit "user:build")

def sampleAllow : Decision where
  decisionRef := lit "dec-1"
  scope := lit "local"
  capability := lit "example.effect"
  outcome := .allow
  reason := lit "policy_allows"
  policyVersion := some (lit "sha256:a")
  approvalRef := none
  decidedAt := lit "2026-01-05T10:00:00Z"
  correlation := none
  contractGeneration := 1
  extra := []

/-- A frame of the grant's channel. -/
def sampleFrame (kind : String) (reason : List (Str × Json)) : Client.Members :=
  [(lit "contract_generation", .int 1), (lit "kind", .str (lit kind)), (lit "grant_id", .str (lit "g-1")),
    (lit "policy_version", .str (lit "sha256:a")), (lit "at", .str (lit "2026-01-05T10:00:05Z"))] ++
    reason

/-- An act that asks, is allowed and brings a grant, and a frame of the grant's channel. -/
def sampleRun (frame : Client.Members) : List Event :=
  [.request sampleAsk.capability sampleAsk.scope sampleAsk.argumentsDigest 1767607200000000,
    .answer 0 (some (.answered sampleAllow 1, some (some sampleGrant))), .frame 0 frame]

/-- The state behind the run. -/
def sampleState (frame : Client.Members) : State :=
  (run (step Client.plainHost morning sampleSettings) .begin (sampleRun frame)).getD .begin

theorem boundary_honours_iff_heartbeat :
    (∀ ask now, Honours morning (sampleState (sampleFrame "heartbeat" [])).store ask
        sampleSettings.principalReference now ↔
      ¬EndedUnnamed morning (sampleState (sampleFrame "heartbeat" [])).store ask
        sampleSettings.principalReference now) ∧
    ∀ entered ∈ (sampleState (sampleFrame "heartbeat" [])).entered,
      Opened morning sampleSettings entered :=
  boundary_honours_iff Client.plainHost morning sampleSettings (sampleRun (sampleFrame "heartbeat" []))
    _ rfl

/-- Behind a `grant_ended` that gives no reason, `take` hands the grant out. -/
theorem boundary_hands_out_ended : ∃ s, run (step Client.plainHost morning sampleSettings) State.begin
      (sampleRun (sampleFrame "grant_ended" [])) = some s ∧
    ¬Honours morning s.store sampleAsk sampleSettings.principalReference 1767607206000000 := by
  refine ⟨sampleState (sampleFrame "grant_ended" []), rfl, fun h => ?_⟩
  obtain ⟨-, hread⟩ := h.handed
    { grant := sampleGrant, lastHeardAt := some 1767607205000000, connectionLive := true
      endedBy := none, number := 0
      read := [⟨.grantEnded, lit "g-1", lit "sha256:a", lit "2026-01-05T10:00:05Z", none, 1⟩] }
    (by rfl)
  exact hread _ (List.mem_singleton.2 rfl) rfl

end SayFirst.Boundary
