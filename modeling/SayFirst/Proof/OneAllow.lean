import SayFirst.Proof.ApprovalStore
import SayFirst.Proof.Rederive
import SayFirst.Spec.Ask

/-!
# One approval commits at most one allow

The invariant follows each wait from the moment it is opened: who may still open
it, which act answered it, which ask holds its one execution, which committed
decision spent it. A claim is given back by the ask that holds it and by no other
act.

* `Inv` — the invariant.
* `step_inv` — every act of the daemon preserves it.
* `one_allow` — the law, over every run.
-/

namespace SayFirst.Plane

open Py

/-! ## What an ask holds -/

/-- The wait an ask may still open. -/
def Phase.opens : Phase → Option Approval
  | .looking _ o _ => some o
  | .claiming _ o _ _ => some o
  | _ => none

/-- The execution an ask holds and has not recorded. -/
def Phase.spends : Phase → Option ApprovalKey
  | .recording a (some c) => if c.spend then some (a.question.ask.scope, c.approvalRef) else none
  | .settling key .release => some key
  | _ => none

/-- A decision taken on a person's yes. -/
def Committed.granted (c : Committed) : Bool :=
  c.decision.reason == Reason.approvalGranted.value

/-- The execution a committed decision spent. -/
def Committed.spent (c : Committed) : Option ApprovalKey :=
  if c.granted then c.decision.approvalRef.map fun ref => (c.decision.scope, ref) else none

/-- The executions spent so far. -/
def World.spent (w : World) : List ApprovalKey := w.ledger.filterMap Committed.spent

/-- The act of a person who said yes to `question` before `deadline`. -/
def Yes (act : Approval) (key : ApprovalKey) (question : Question) : Prop :=
  act.key = key ∧ act.question = question ∧ act.state = .approved ∧
    ∃ at_, act.resolvedAt = some at_ ∧ at_ < act.deadline

/-- A record is the wait it was opened as. -/
def OfWait (opened : List Approval) (a : Approval) : Prop :=
  ∃ o ∈ opened, o.key = a.key ∧ o.question = a.question ∧ o.deadline = a.deadline

/-- A decision's reason is the approval's exactly when it spends one, and then on a yes. -/
def Phase.Founded (opened acts : List Approval) : Phase → Prop
  | .looking a o _ => o.question = a.question.asked
  | .claiming a o _ found =>
    o.question = a.question.asked ∧ found.question = a.question.asked ∧ OfWait opened found
  | .recording a none => a.verdict.reason ≠ .approvalGranted
  | .recording a (some c) =>
    (c.reason = .approvalGranted ↔ c.spend = true) ∧
      (c.spend = true → ∃ act ∈ acts, Yes act (a.question.ask.scope, c.approvalRef) a.question.asked)
  | _ => True

/-! ## The invariant -/

/-- The records and the index, against the waits opened and the acts taken. -/
structure StoreInv (s : ApprovalStore) (opened acts : List Approval) : Prop where
  record : ∀ k a, s.byReference k = some a → a.key = k ∧ OfWait opened a ∧
    (a.state = .approved → ∃ act ∈ acts, Yes act k a.question)
  index : ∀ q k, k ∈ s.byQuestion q → ∃ o ∈ opened, o.key = k ∧ o.question = q

structure Inv (host : Composition) (w : World) : Prop where
  store : StoreInv w.store w.opened w.acts
  /-- No two waits were opened under one reference. -/
  openedOnce : (w.opened.map (·.approvalRef)).Nodup
  openedIssued : ∀ o ∈ w.opened, o.approvalRef ∈ w.issued
  /-- What an ask may still open was minted for it and never opened. -/
  opensFresh : ∀ i o, (w.phase i).opens = some o →
    o.approvalRef ∈ w.issued ∧ o.approvalRef ∉ w.opened.map (·.approvalRef)
  opensApart : ∀ i j o o', (w.phase i).opens = some o → (w.phase j).opens = some o' →
    o.approvalRef = o'.approvalRef → i = j
  founded : ∀ i, (w.phase i).Founded w.opened w.acts
  /-- An execution in an ask's hands is claimed, unspent, and in no other ask's hands. -/
  held : ∀ i k, (w.phase i).spends = some k → (∃ o ∈ w.opened, o.key = k) ∧ k ∉ w.spent ∧
    ∀ a, w.store.byReference k = some a → a.claimed = true
  heldApart : ∀ i j k, (w.phase i).spends = some k → (w.phase j).spends = some k → i = j
  /-- A spent execution stays claimed for as long as its record is kept. -/
  spentClaimed : ∀ k ∈ w.spent, (∃ o ∈ w.opened, o.key = k) ∧
    ∀ a, w.store.byReference k = some a → a.claimed = true
  spentOnce : w.spent.Nodup
  ledger : ∀ c ∈ w.ledger, (∃ grantId, c.decision = recordedDecision host c.asking c.consulted grantId) ∧
    (c.granted = true → ∃ act ∈ w.acts,
      (∃ ref, c.decision.approvalRef = some ref ∧ Yes act (c.decision.scope, ref) c.asking.question.asked))

theorem initial_inv (host : Composition) (now : ℤ) : Inv host (World.initial now) where
  store := ⟨fun _ _ h => (by cases h), fun _ _ h => (by cases h)⟩
  openedOnce := List.nodup_nil
  openedIssued := fun _ h => (by cases h)
  opensFresh := fun _ _ h => (by cases h)
  opensApart := fun _ _ _ _ h => (by cases h)
  founded := fun _ => trivial
  held := fun _ _ h => (by cases h)
  heldApart := fun _ _ _ h => (by cases h)
  spentClaimed := fun _ h => (by cases h)
  spentOnce := List.nodup_nil
  ledger := fun _ h => (by cases h)

variable {host : Composition} {w w' : World}

/-- One reference names one wait. -/
theorem Inv.wait_unique (h : Inv host w) {o o' : Approval} (ho : o ∈ w.opened)
    (ho' : o' ∈ w.opened) (href : o.approvalRef = o'.approvalRef) : o = o' :=
  List.inj_on_of_nodup_map h.openedOnce ho ho' href

theorem Inv.key_unique (h : Inv host w) {o o' : Approval} (ho : o ∈ w.opened)
    (ho' : o' ∈ w.opened) (hkey : o.key = o'.key) : o = o' :=
  h.wait_unique ho ho' (congrArg Prod.snd hkey)

/-- A reference indexed under a question leads to a record of that question. -/
theorem Inv.indexed_question (h : Inv host w) {q : Question} {k : ApprovalKey} {a : Approval}
    (hk : k ∈ w.store.byQuestion q) (ha : w.store.byReference k = some a) : a.question = q := by
  obtain ⟨o, ho, hokey, hoq⟩ := h.store.index q k hk
  obtain ⟨hakey, ⟨o', ho', ho'key, ho'q, -⟩, -⟩ := h.store.record k a ha
  have : o = o' := h.key_unique ho ho' (by rw [hokey, ho'key, hakey])
  rw [← ho'q, ← this, hoq]

/-! ## Steps that change little -/

theorem StoreInv.keeps {s s' : ApprovalStore} {opened acts : List Approval}
    (h : StoreInv s opened acts) (hk : ApprovalStore.Keeps s s') : StoreInv s' opened acts := by
  refine ⟨fun k y hy => ?_, fun q k hq => h.index q k (hk.index q k hq)⟩
  obtain ⟨x, hx, hsame⟩ := hk.record k y hy
  obtain ⟨hkey, ⟨o, ho, hokey, hoq, hod⟩, hyes⟩ := h.record k x hx
  have hykey : y.key = x.key := by
    unfold Approval.key Approval.scope
    rw [hsame.ref, hsame.question]
  refine ⟨hykey.trans hkey, ⟨o, ho, hokey.trans hykey.symm, ?_, ?_⟩, fun hs => ?_⟩
  · rw [hoq, hsame.question]
  · rw [hod, hsame.deadline]
  · rw [hsame.question]
    exact hyes (hsame.approved hs)

/-- A claim found in a store that only kept was there before. -/
theorem claimed_of_keeps {s s' : ApprovalStore} (hk : ApprovalStore.Keeps s s') {k : ApprovalKey}
    (h : ∀ a, s.byReference k = some a → a.claimed = true) :
    ∀ a, s'.byReference k = some a → a.claimed = true := by
  intro y hy
  obtain ⟨x, hx, hsame⟩ := hk.record k y hy
  rw [hsame.claimed]
  exact h x hx

/-- **A store operation that keeps its records keeps the invariant.** -/
theorem Inv.keeps (h : Inv host w) {s' : ApprovalStore} (hk : ApprovalStore.Keeps w.store s') :
    Inv host { w with store := s' } where
  store := h.store.keeps hk
  openedOnce := h.openedOnce
  openedIssued := h.openedIssued
  opensFresh := h.opensFresh
  opensApart := h.opensApart
  founded := h.founded
  held i k hi :=
    have ⟨ho, hs, hc⟩ := h.held i k hi
    ⟨ho, hs, claimed_of_keeps hk hc⟩
  heldApart := h.heldApart
  spentClaimed k hk' :=
    have ⟨ho, hc⟩ := h.spentClaimed k hk'
    ⟨ho, claimed_of_keeps hk hc⟩
  spentOnce := h.spentOnce
  ledger := h.ledger

@[simp] theorem World.setPhase_self (i : ℕ) (p : Phase) : (w.setPhase i p).phase i = p := by
  simp [World.setPhase]

theorem World.setPhase_ne {i j : ℕ} (p : Phase) (h : j ≠ i) :
    (w.setPhase i p).phase j = w.phase j := by
  simp [World.setPhase, h]

/-- **An ask that moves on without taking more into its hands keeps the invariant.** -/
theorem Inv.setPhase (h : Inv host w) (i : ℕ) (p : Phase)
    (hopens : ∀ o, p.opens = some o → (w.phase i).opens = some o)
    (hspends : ∀ k, p.spends = some k → (w.phase i).spends = some k)
    (hfounded : p.Founded w.opened w.acts) : Inv host (w.setPhase i p) := by
  have opens : ∀ j o, ((w.setPhase i p).phase j).opens = some o → (w.phase j).opens = some o := by
    intro j o hj
    by_cases hij : j = i
    · subst hij; exact hopens o (by simpa using hj)
    · rwa [World.setPhase_ne p hij] at hj
  have spends : ∀ j k, ((w.setPhase i p).phase j).spends = some k →
      (w.phase j).spends = some k := by
    intro j k hj
    by_cases hij : j = i
    · subst hij; exact hspends k (by simpa using hj)
    · rwa [World.setPhase_ne p hij] at hj
  exact {
    store := h.store
    openedOnce := h.openedOnce
    openedIssued := h.openedIssued
    opensFresh := fun j o hj => h.opensFresh j o (opens j o hj)
    opensApart := fun j j' o o' hj hj' => h.opensApart j j' o o' (opens j o hj) (opens j' o' hj')
    founded := fun j => by
      by_cases hij : j = i
      · subst hij; rw [World.setPhase_self]; exact hfounded
      · rw [World.setPhase_ne p hij]; exact h.founded j
    held := fun j k hj => h.held j k (spends j k hj)
    heldApart := fun j j' k hj hj' => h.heldApart j j' k (spends j k hj) (spends j' k hj')
    spentClaimed := h.spentClaimed
    spentOnce := h.spentOnce
    ledger := h.ledger }

/-- The ask's hands are empty: it opens nothing and holds nothing. -/
theorem Inv.setPhase_free (h : Inv host w) (i : ℕ) {p : Phase} (hopens : p.opens = none)
    (hspends : p.spends = none) (hfounded : p.Founded w.opened w.acts) : Inv host (w.setPhase i p) :=
  h.setPhase i p (fun o ho => by rw [hopens] at ho; cases ho)
    (fun k hk => by rw [hspends] at hk; cases hk) hfounded

theorem Inv.idle (h : Inv host w) (i : ℕ) : Inv host (w.setPhase i .idle) :=
  h.setPhase_free i rfl rfl trivial

/-! ## The acts that change what is held -/

/-- A record put in the place of another of the same wait. -/
theorem StoreInv.put {s : ApprovalStore} {opened acts : List Approval} {key : ApprovalKey}
    {kept a : Approval} (h : StoreInv s opened acts) (hk : s.byReference key = some kept)
    (href : a.approvalRef = kept.approvalRef) (hq : a.question = kept.question)
    (hd : a.deadline = kept.deadline)
    (hyes : a.state = .approved → ∃ act ∈ acts, Yes act key kept.question) :
    StoreInv (s.put key a) opened acts := by
  refine ⟨fun k y hy => ?_, h.index⟩
  rw [ApprovalStore.put_byReference] at hy
  by_cases hkey : k = key
  · rw [if_pos hkey] at hy
    cases hy
    obtain ⟨hkk, ⟨o, ho, hokey, hoq, hod⟩, -⟩ := h.record key kept hk
    have hakey : a.key = kept.key := by
      unfold Approval.key Approval.scope
      rw [href, hq]
    refine ⟨by rw [hakey, hkk, hkey], ⟨o, ho, by rw [hokey, hakey], by rw [hoq, hq],
      by rw [hod, hd]⟩, ?_⟩
    rw [hkey, hq]
    exact hyes
  · rw [if_neg hkey] at hy
    exact h.record k y hy

theorem Yes.mono {acts acts' : List Approval} {k : ApprovalKey} {q : Question}
    (hsub : acts ⊆ acts') (h : ∃ act ∈ acts, Yes act k q) : ∃ act ∈ acts', Yes act k q := by
  obtain ⟨act, hact, hyes⟩ := h
  exact ⟨act, hsub hact, hyes⟩

theorem OfWait.mono {opened opened' : List Approval} {a : Approval} (hsub : opened ⊆ opened')
    (h : OfWait opened a) : OfWait opened' a := by
  obtain ⟨o, ho, hwait⟩ := h
  exact ⟨o, hsub ho, hwait⟩

theorem Phase.Founded.mono {opened opened' acts acts' : List Approval} (hopened : opened ⊆ opened')
    (hsub : acts ⊆ acts') : ∀ {p : Phase}, p.Founded opened acts → p.Founded opened' acts' := by
  intro p h
  cases p with
  | claiming a o attempt found => exact ⟨h.1, h.2.1, h.2.2.mono hopened⟩
  | recording a consulted =>
    cases consulted with
    | none => exact h
    | some c => exact ⟨h.1, fun hs => Yes.mono hsub (h.2 hs)⟩
  | _ => exact h

/-- **A person answers a wait.** -/
theorem Inv.resolved (h : Inv host w) {key : ApprovalKey} {kept resolved : Approval}
    (hk : w.store.byReference key = some kept) (href : resolved.approvalRef = kept.approvalRef)
    (hq : resolved.question = kept.question) (hd : resolved.deadline = kept.deadline)
    (hc : resolved.claimed = kept.claimed)
    (hat : ∃ at_, resolved.resolvedAt = some at_ ∧ at_ < resolved.deadline) :
    Inv host { w with
      store := (w.store.put key resolved).indexLapse key resolved
      acts := resolved :: w.acts } := by
  have hsub : w.acts ⊆ resolved :: w.acts := fun _ h => List.mem_cons_of_mem _ h
  have hkey : resolved.key = key := by
    obtain ⟨hkk, -⟩ := h.store.record key kept hk
    rw [← hkk]
    unfold Approval.key Approval.scope
    rw [href, hq]
  have claimed : ∀ k, (∀ a, w.store.byReference k = some a → a.claimed = true) →
      ∀ a, ((w.store.put key resolved).indexLapse key resolved).byReference k = some a →
        a.claimed = true := by
    intro k hall a ha
    rw [ApprovalStore.indexLapse_byReference, ApprovalStore.put_byReference] at ha
    by_cases hkk : k = key
    · rw [if_pos hkk] at ha
      cases ha
      rw [hc]
      exact hall kept (by rw [hkk]; exact hk)
    · rw [if_neg hkk] at ha
      exact hall a ha
  have hstore : StoreInv (w.store.put key resolved) w.opened (resolved :: w.acts) := by
    refine StoreInv.put ⟨fun k a ha => ?_, h.store.index⟩ hk href hq hd fun hs => ?_
    · obtain ⟨hkk, hwait, hyes⟩ := h.store.record k a ha
      exact ⟨hkk, hwait, fun hs => Yes.mono hsub (hyes hs)⟩
    · exact ⟨resolved, List.mem_cons_self, hkey, hq, hs, hat⟩
  exact {
    store := hstore.keeps (ApprovalStore.indexLapse_keeps resolved)
    openedOnce := h.openedOnce
    openedIssued := h.openedIssued
    opensFresh := h.opensFresh
    opensApart := h.opensApart
    founded := fun i => (h.founded i).mono (List.Subset.refl _) hsub
    held := fun i k hi =>
      have ⟨ho, hs, hall⟩ := h.held i k hi
      ⟨ho, hs, claimed k hall⟩
    heldApart := h.heldApart
    spentClaimed := fun k hs =>
      have ⟨ho, hall⟩ := h.spentClaimed k hs
      ⟨ho, claimed k hall⟩
    spentOnce := h.spentOnce
    ledger := fun c hc' =>
      have ⟨hb, hg⟩ := h.ledger c hc'
      ⟨hb, fun hgr =>
        have ⟨act, hact, hyes⟩ := hg hgr
        ⟨act, hsub hact, hyes⟩⟩ }

/-- **An ask mints the wait it may open.** -/
theorem Inv.minted (h : Inv host w) {i : ℕ} {a : Asking} {o : Approval} {decisionRef : Str}
    (hfresh : o.approvalRef ∉ w.issued) (hq : o.question = a.question.asked) :
    Inv host ({ w with issued := decisionRef :: o.approvalRef :: w.issued }.setPhase i
      (.looking a o 0)) := by
  have hnew : o.approvalRef ∉ w.opened.map (·.approvalRef) := by
    intro hmem
    obtain ⟨o', ho', href⟩ := List.mem_map.1 hmem
    exact hfresh (href ▸ h.openedIssued o' ho')
  have hissued : ∀ {r}, r ∈ w.issued → r ∈ decisionRef :: o.approvalRef :: w.issued :=
    fun hr => List.mem_cons_of_mem _ (List.mem_cons_of_mem _ hr)
  have hphase : ∀ {j}, j ≠ i →
      ({ w with issued := decisionRef :: o.approvalRef :: w.issued }.setPhase i
        (.looking a o 0)).phase j = w.phase j := fun hji => World.setPhase_ne _ hji
  have apart : ∀ j o', j ≠ i → (w.phase j).opens = some o' → o'.approvalRef ≠ o.approvalRef := by
    intro j o' _ hj href
    exact hfresh (href ▸ (h.opensFresh j o' hj).1)
  exact {
    store := h.store
    openedOnce := h.openedOnce
    openedIssued := fun o' ho' => hissued (h.openedIssued o' ho')
    opensFresh := fun j o' hj => by
      by_cases hji : j = i
      · subst hji
        rw [World.setPhase_self] at hj
        cases hj
        exact ⟨List.mem_cons_of_mem _ List.mem_cons_self, hnew⟩
      · rw [hphase hji] at hj
        obtain ⟨hi, hn⟩ := h.opensFresh j o' hj
        exact ⟨hissued hi, hn⟩
    opensApart := fun j j' o₁ o₂ hj hj' href => by
      by_cases hji : j = i
      · by_cases hji' : j' = i
        · rw [hji, hji']
        · subst hji
          rw [World.setPhase_self] at hj
          rw [hphase hji'] at hj'
          cases hj
          exact absurd href.symm (apart j' o₂ hji' hj')
      · rw [hphase hji] at hj
        by_cases hji' : j' = i
        · subst hji'
          rw [World.setPhase_self] at hj'
          cases hj'
          exact absurd href (apart j o₁ hji hj)
        · rw [hphase hji'] at hj'
          exact h.opensApart j j' o₁ o₂ hj hj' href
    founded := fun j => by
      by_cases hji : j = i
      · subst hji; rw [World.setPhase_self]; exact hq
      · rw [hphase hji]; exact h.founded j
    held := fun j k hj => by
      by_cases hji : j = i
      · subst hji; rw [World.setPhase_self] at hj; cases hj
      · rw [hphase hji] at hj; exact h.held j k hj
    heldApart := fun j j' k hj hj' => by
      by_cases hji : j = i
      · subst hji; rw [World.setPhase_self] at hj; cases hj
      · by_cases hji' : j' = i
        · subst hji'; rw [World.setPhase_self] at hj'; cases hj'
        · rw [hphase hji] at hj
          rw [hphase hji'] at hj'
          exact h.heldApart j j' k hj hj'
    spentClaimed := h.spentClaimed
    spentOnce := h.spentOnce
    ledger := h.ledger }

/-- **An ask opens its wait**: from here the wait is the store's. -/
theorem Inv.opened (h : Inv host w) {i attempt : ℕ} {a : Asking} {o : Approval}
    (hphase : w.phase i = .looking a o attempt) (hopen : (w.store.openWait o).1 = .ok o) :
    Inv host ({ w with store := (w.store.openWait o).2, opened := o :: w.opened }.setPhase i
      (.suspending a o)) := by
  obtain ⟨-, -, hpending, -, hrec, hidx⟩ := ApprovalStore.openWait_ok hopen
  have hopens : (w.phase i).opens = some o := by rw [hphase]; rfl
  obtain ⟨hissued, hfresh⟩ := h.opensFresh i o hopens
  have hsub : ∀ {o'}, o' ∈ w.opened → o' ∈ o :: w.opened := fun h => List.mem_cons_of_mem _ h
  -- a wait opened before this one lies under another key
  have apart : ∀ k, (∃ o' ∈ w.opened, o'.key = k) → k ≠ o.key := by
    rintro k ⟨o', ho', rfl⟩ hkey
    exact hfresh (List.mem_map.2 ⟨o', ho', congrArg Prod.snd hkey⟩)
  have claimed : ∀ k, (∃ o' ∈ w.opened, o'.key = k) →
      (∀ b, w.store.byReference k = some b → b.claimed = true) →
      ∀ b, (w.store.openWait o).2.byReference k = some b → b.claimed = true := by
    intro k hk hall b hb
    rw [hrec, if_neg (apart k hk)] at hb
    exact hall b hb
  have others : ∀ {j}, j ≠ i →
      ({ w with store := (w.store.openWait o).2, opened := o :: w.opened }.setPhase i
        (.suspending a o)).phase j = w.phase j := fun hji => World.setPhase_ne _ hji
  exact {
    store := by
      refine ⟨fun k b hb => ?_, fun q k hk => ?_⟩
      · change (w.store.openWait o).2.byReference k = some b at hb
        rw [hrec] at hb
        by_cases hkey : k = o.key
        · rw [if_pos hkey] at hb
          cases hb
          refine ⟨hkey.symm, ⟨o, List.mem_cons_self, rfl, rfl, rfl⟩, fun hs => ?_⟩
          rw [hpending] at hs
          cases hs
        · rw [if_neg hkey] at hb
          obtain ⟨hkk, ⟨o', ho', hwait⟩, hyes⟩ := h.store.record k b hb
          exact ⟨hkk, ⟨o', hsub ho', hwait⟩, hyes⟩
      · change k ∈ (w.store.openWait o).2.byQuestion q at hk
        rw [hidx] at hk
        have old : k ∈ w.store.byQuestion q → ∃ o' ∈ o :: w.opened, o'.key = k ∧ o'.question = q := by
          intro hk
          obtain ⟨o', ho', hwait⟩ := h.store.index q k hk
          exact ⟨o', hsub ho', hwait⟩
        split at hk
        · rename_i hq
          rcases List.mem_append.1 hk with hk | hk
          · exact old hk
          · rw [List.mem_singleton.1 hk]
            exact ⟨o, List.mem_cons_self, rfl, hq.symm⟩
        · exact old hk
    openedOnce := List.nodup_cons.2 ⟨hfresh, h.openedOnce⟩
    openedIssued := fun o' ho' => by
      rcases List.mem_cons.1 ho' with rfl | ho'
      · exact hissued
      · exact h.openedIssued o' ho'
    opensFresh := fun j o' hj => by
      by_cases hji : j = i
      · subst hji; rw [World.setPhase_self] at hj; cases hj
      · rw [others hji] at hj
        obtain ⟨hi, hn⟩ := h.opensFresh j o' hj
        refine ⟨hi, fun hmem => ?_⟩
        rcases List.mem_cons.1 hmem with href | hmem
        · exact hji (h.opensApart j i o' o hj hopens href)
        · exact hn hmem
    opensApart := fun j j' o₁ o₂ hj hj' => by
      by_cases hji : j = i
      · subst hji; rw [World.setPhase_self] at hj; cases hj
      · by_cases hji' : j' = i
        · subst hji'; rw [World.setPhase_self] at hj'; cases hj'
        · rw [others hji] at hj
          rw [others hji'] at hj'
          exact h.opensApart j j' o₁ o₂ hj hj'
    founded := fun j => by
      by_cases hji : j = i
      · subst hji; rw [World.setPhase_self]; trivial
      · rw [others hji]
        exact (h.founded j).mono (fun _ => hsub) (List.Subset.refl _)
    held := fun j k hj => by
      by_cases hji : j = i
      · subst hji; rw [World.setPhase_self] at hj; cases hj
      · rw [others hji] at hj
        obtain ⟨⟨o', ho', hk⟩, hs, hall⟩ := h.held j k hj
        exact ⟨⟨o', hsub ho', hk⟩, hs, claimed k ⟨o', ho', hk⟩ hall⟩
    heldApart := fun j j' k hj hj' => by
      by_cases hji : j = i
      · subst hji; rw [World.setPhase_self] at hj; cases hj
      · by_cases hji' : j' = i
        · subst hji'; rw [World.setPhase_self] at hj'; cases hj'
        · rw [others hji] at hj
          rw [others hji'] at hj'
          exact h.heldApart j j' k hj hj'
    spentClaimed := fun k hk => by
      obtain ⟨⟨o', ho', hkey⟩, hall⟩ := h.spentClaimed k hk
      exact ⟨⟨o', hsub ho', hkey⟩, claimed k ⟨o', ho', hkey⟩ hall⟩
    spentOnce := h.spentOnce
    ledger := h.ledger }

/-- **An ask takes the one execution of an approved wait.** -/
theorem Inv.claimed (h : Inv host w) {i attempt : ℕ} {a : Asking} {o found kept claimed : Approval}
    (hphase : w.phase i = .claiming a o attempt found)
    (hk : w.store.byReference found.key = some kept) (hs : kept.state = .approved)
    (hun : kept.claimed = false)
    (hf : claimed.toApprovalFields = { kept.toApprovalFields with claimed := true }) :
    Inv host ({ w with store := w.store.put found.key claimed }.setPhase i
      (.recording a (some ⟨.allow, .approvalGranted, found.approvalRef, true, false⟩))) := by
  have hfounded := h.founded i
  rw [hphase] at hfounded
  obtain ⟨-, hfq, of, hof, hofkey, hofq, -⟩ := hfounded
  have hkey : (a.question.ask.scope, found.approvalRef) = found.key := by
    unfold Approval.key Approval.scope
    rw [hfq]; rfl
  obtain ⟨hkk, ⟨o', ho', hokey, hoq, hod⟩, hyes⟩ := h.store.record found.key kept hk
  obtain ⟨act, hact, hactkey, hactq, hactyes⟩ := hyes hs
  -- nobody holds an execution whose record is unclaimed, and none was spent
  have unheld : ∀ j, (w.phase j).spends ≠ some found.key := by
    intro j hj
    have := (h.held j _ hj).2.2 kept hk
    rw [hun] at this
    cases this
  have unspent : found.key ∉ w.spent := by
    intro hmem
    have := (h.spentClaimed _ hmem).2 kept hk
    rw [hun] at this
    cases this
  have other : ∀ k, k ≠ found.key → (∀ b, w.store.byReference k = some b → b.claimed = true) →
      ∀ b, (w.store.put found.key claimed).byReference k = some b → b.claimed = true := by
    intro k hne hall b hb
    rw [ApprovalStore.put_byReference, if_neg hne] at hb
    exact hall b hb
  have others : ∀ {j}, j ≠ i →
      ({ w with store := w.store.put found.key claimed }.setPhase i
        (.recording a (some ⟨.allow, .approvalGranted, found.approvalRef, true, false⟩))).phase j =
      w.phase j := fun hji => World.setPhase_ne _ hji
  have hactq' : act.question = a.question.asked := by
    have : o' = of := h.key_unique ho' hof (by rw [hokey, hkk, hofkey])
    rw [hactq, ← hoq, this, hofq, hfq]
  exact {
    store := StoreInv.put h.store hk (by rw [hf]) (by rw [hf]) (by rw [hf])
      (fun _ => ⟨act, hact, hactkey, hactq, hactyes⟩)
    openedOnce := h.openedOnce
    openedIssued := h.openedIssued
    opensFresh := fun j o' hj => by
      by_cases hji : j = i
      · subst hji; rw [World.setPhase_self] at hj; cases hj
      · rw [others hji] at hj; exact h.opensFresh j o' hj
    opensApart := fun j j' o₁ o₂ hj hj' => by
      by_cases hji : j = i
      · subst hji; rw [World.setPhase_self] at hj; cases hj
      · by_cases hji' : j' = i
        · subst hji'; rw [World.setPhase_self] at hj'; cases hj'
        · rw [others hji] at hj
          rw [others hji'] at hj'
          exact h.opensApart j j' o₁ o₂ hj hj'
    founded := fun j => by
      by_cases hji : j = i
      · subst hji
        rw [World.setPhase_self]
        exact ⟨by simp, fun _ => ⟨act, hact, by rw [hkey]; exact hactkey, hactq', hactyes⟩⟩
      · rw [others hji]; exact h.founded j
    held := fun j k hj => by
      by_cases hji : j = i
      · subst hji
        rw [World.setPhase_self] at hj
        simp only [Phase.spends, if_true, hkey] at hj
        cases hj
        refine ⟨⟨o', ho', hokey.trans hkk⟩, unspent, fun b hb => ?_⟩
        change (w.store.put found.key claimed).byReference found.key = some b at hb
        rw [ApprovalStore.put_byReference, if_pos rfl] at hb
        cases hb
        rw [hf]
      · rw [others hji] at hj
        obtain ⟨ho, hsp, hall⟩ := h.held j k hj
        exact ⟨ho, hsp, other k (fun hne => unheld j (hne ▸ hj)) hall⟩
    heldApart := fun j j' k hj hj' => by
      by_cases hji : j = i
      · by_cases hji' : j' = i
        · rw [hji, hji']
        · subst hji
          rw [World.setPhase_self] at hj
          rw [others hji'] at hj'
          simp only [Phase.spends, if_true, hkey] at hj
          cases hj
          exact absurd hj' (unheld j')
      · rw [others hji] at hj
        by_cases hji' : j' = i
        · subst hji'
          rw [World.setPhase_self] at hj'
          simp only [Phase.spends, if_true, hkey] at hj'
          cases hj'
          exact absurd hj (unheld j)
        · rw [others hji'] at hj'
          exact h.heldApart j j' k hj hj'
    spentClaimed := fun k hmem => by
      obtain ⟨ho, hall⟩ := h.spentClaimed k hmem
      exact ⟨ho, other k (fun hne => unspent (hne ▸ hmem)) hall⟩
    spentOnce := h.spentOnce
    ledger := h.ledger }

/-- **An ask gives back an execution it did not record.** -/
theorem Inv.released (h : Inv host w) {i : ℕ} {key : ApprovalKey} {kept released : Approval}
    (hphase : w.phase i = .settling key .release) (hk : w.store.byReference key = some kept)
    (hf : released.toApprovalFields = { kept.toApprovalFields with claimed := false }) :
    Inv host ({ w with store := w.store.put key released }.setPhase i .idle) := by
  have hmine : (w.phase i).spends = some key := by rw [hphase]; rfl
  obtain ⟨-, unspent, -⟩ := h.held i key hmine
  have other : ∀ k, k ≠ key → (∀ b, w.store.byReference k = some b → b.claimed = true) →
      ∀ b, (w.store.put key released).byReference k = some b → b.claimed = true := by
    intro k hne hall b hb
    rw [ApprovalStore.put_byReference, if_neg hne] at hb
    exact hall b hb
  have hfree := h.idle i
  exact { hfree with
    store := StoreInv.put h.store hk (by rw [hf]) (by rw [hf]) (by rw [hf]) fun hs => by
      refine (h.store.record key kept hk).2.2 ?_
      rw [hf] at hs
      exact hs
    held := fun j k hj => by
      obtain ⟨ho, hsp, hall⟩ := hfree.held j k hj
      refine ⟨ho, hsp, other k (fun hne => ?_) hall⟩
      by_cases hji : j = i
      · subst hji
        have hj' : ((w.setPhase j .idle).phase j).spends = some k := hj
        rw [World.setPhase_self] at hj'
        cases hj'
      · have hj' : ((w.setPhase i .idle).phase j).spends = some k := hj
        rw [World.setPhase_ne _ hji] at hj'
        exact hji (h.heldApart j i key (hne ▸ hj') hmine)
    spentClaimed := fun k hmem => by
      obtain ⟨ho, hall⟩ := h.spentClaimed k hmem
      exact ⟨ho, other k (fun hne => unspent (hne ▸ hmem)) hall⟩ }

/-! ## Recording -/

@[simp] theorem Reason.value_inj {r r' : Reason} : r.value = r'.value ↔ r = r' := by
  constructor
  · intro h
    cases r <;> cases r' <;> first | rfl | exact absurd (lit_inj.1 h) (by decide)
  · rintro rfl; rfl

/-- The execution a decision spends is the one its ask holds. -/
theorem recorded_spent {a : Asking} {consulted : Option Consulted} {grantId : Option Str}
    {opened acts : List Approval} (hf : (Phase.recording a consulted).Founded opened acts) :
    Committed.spent ⟨recordedDecision host a consulted grantId, a, consulted⟩ =
      (Phase.recording a consulted).spends := by
  cases consulted with
  | none =>
    have : Committed.granted ⟨recordedDecision host a none grantId, a, none⟩ = false := by
      unfold Committed.granted recordedDecision
      simpa [Phase.Founded] using hf
    unfold Committed.spent
    rw [this]; rfl
  | some c =>
    have hg : Committed.granted ⟨recordedDecision host a (some c) grantId, a, some c⟩ = c.spend := by
      unfold Committed.granted recordedDecision
      rw [Bool.eq_iff_iff]
      simpa using hf.1
    unfold Committed.spent
    rw [hg]
    cases hs : c.spend <;> simp [Phase.spends, hs, recordedDecision]

/-- **A decision is, or may be, committed.** -/
theorem Inv.recorded (h : Inv host w) {i : ℕ} {a : Asking} {consulted : Option Consulted}
    (grantId : Option Str) (hphase : w.phase i = .recording a consulted) :
    Inv host ({ w with
      ledger := ⟨recordedDecision host a consulted grantId, a, consulted⟩ :: w.ledger
      }.setPhase i (World.afterRecord a.question.ask.scope consulted)) := by
  have hfounded := h.founded i
  rw [hphase] at hfounded
  have hspent : Committed.spent ⟨recordedDecision host a consulted grantId, a, consulted⟩ =
      (Phase.recording a consulted).spends := recorded_spent hfounded
  have hphase' : ∀ c : Option Consulted, (World.afterRecord a.question.ask.scope c).opens = none ∧
      (World.afterRecord a.question.ask.scope c).spends = none ∧
      (World.afterRecord a.question.ask.scope c).Founded w.opened w.acts := by
    intro c
    unfold World.afterRecord
    split
    · split
      · exact ⟨rfl, rfl, trivial⟩
      · split <;> exact ⟨rfl, rfl, trivial⟩
    · exact ⟨rfl, rfl, trivial⟩
  obtain ⟨hopens, hspends, hfd⟩ := hphase' consulted
  have hfree := h.setPhase_free i hopens hspends hfd
  have cons : ∀ k, k ∈ (Committed.mk (recordedDecision host a consulted grantId) a consulted ::
      w.ledger).filterMap Committed.spent ↔
      (Phase.recording a consulted).spends = some k ∨ k ∈ w.spent := by
    intro k
    rw [List.filterMap_cons, hspent]
    cases hsp : (Phase.recording a consulted).spends with
    | none => simp [World.spent]
    | some k' => simp [World.spent, eq_comm]
  have hmine : ∀ {k}, (Phase.recording a consulted).spends = some k → (w.phase i).spends = some k :=
    fun hk => by rw [hphase]; exact hk
  exact { hfree with
    held := fun j k hj => by
      obtain ⟨ho, hsp, hall⟩ := hfree.held j k hj
      refine ⟨ho, fun hmem => ?_, hall⟩
      rcases (cons k).1 hmem with hk | hk
      · by_cases hji : j = i
        · subst hji
          have hj' : ((w.setPhase j _).phase j).spends = some k := hj
          rw [World.setPhase_self, hspends] at hj'
          cases hj'
        · have hj' : ((w.setPhase i _).phase j).spends = some k := hj
          rw [World.setPhase_ne _ hji] at hj'
          exact hji (h.heldApart j i k hj' (hmine hk))
      · exact hsp hk
    spentClaimed := fun k hmem => by
      rcases (cons k).1 hmem with hk | hk
      · obtain ⟨ho, -, hall⟩ := h.held i k (hmine hk)
        exact ⟨ho, hall⟩
      · exact h.spentClaimed k hk
    spentOnce := by
      change (List.filterMap Committed.spent (_ :: w.ledger)).Nodup
      rw [List.filterMap_cons, hspent]
      cases hsp : (Phase.recording a consulted).spends with
      | none => exact h.spentOnce
      | some k => exact List.nodup_cons.2 ⟨(h.held i k (hmine hsp)).2.1, h.spentOnce⟩
    ledger := fun c hc => by
      rcases List.mem_cons.1 hc with rfl | hc
      · refine ⟨⟨grantId, rfl⟩, fun hg => ?_⟩
        cases consulted with
        | none =>
          unfold Committed.granted recordedDecision at hg
          exact absurd (by simpa using hg) hfounded
        | some c =>
          unfold Committed.granted recordedDecision at hg
          have hs : c.spend = true := hfounded.1.1 (by simpa using hg)
          obtain ⟨act, hact, hyes⟩ := hfounded.2 hs
          exact ⟨act, hact, c.approvalRef, rfl, hyes⟩
      · exact h.ledger c hc }

/-! ## Every act -/

/-- **An ask reads what the store answered it with.** -/
theorem Inv.consulted (h : Inv host w) {i attempt : ℕ} {a : Asking} {o found : Approval}
    {k : ApprovalKey} (hphase : w.phase i = .looking a o attempt)
    (hk : k ∈ w.store.byQuestion o.question) (hrec : w.store.byReference k = some found) :
    found.approvalRef ≠ o.approvalRef ∧
      Inv host (w.setPhase i (World.consult a o attempt found)) := by
  have hopens : (w.phase i).opens = some o := by rw [hphase]; rfl
  have hq : o.question = a.question.asked := by
    have := h.founded i
    rw [hphase] at this
    exact this
  obtain ⟨hkk, hwait, -⟩ := h.store.record k found hrec
  have hne : found.approvalRef ≠ o.approvalRef := by
    intro href
    obtain ⟨o', ho', hkey, -⟩ := hwait
    refine (h.opensFresh i o hopens).2 (List.mem_map.2 ⟨o', ho', ?_⟩)
    rw [← href]
    exact congrArg Prod.snd hkey
  have again : Inv host (w.setPhase i (World.again a o attempt)) := by
    unfold World.again
    split
    · exact h.setPhase i _ (fun _ ho => by rw [hopens]; exact ho) (fun _ hs => by cases hs) hq
    · exact h.idle i
  refine ⟨hne, ?_⟩
  unfold World.consult
  rw [if_neg hne]
  split
  · split
    · exact h.setPhase_free i rfl rfl ⟨by simp, fun hs => by cases hs⟩
    · exact again
  · exact h.setPhase_free i rfl rfl ⟨by simp, fun hs => by cases hs⟩
  · exact h.idle i
  · split
    · exact again
    · refine h.setPhase i _ (fun _ ho => by rw [hopens]; exact ho) (fun _ hs => by cases hs) ?_
      exact ⟨hq, (h.indexed_question hk hrec).trans hq, hwait⟩

theorem Inv.act (h : Inv host w) {i : ℕ} (hact : w.act i = some w') : Inv host w' := by
  unfold World.act at hact
  split at hact
  · rename_i q now hphase
    cases hact
    refine (h.keeps ApprovalStore.expirePast_keeps).setPhase_free i ?_ ?_ ?_ <;> split <;>
      first | rfl | trivial
  · rename_i q now hphase
    cases hact
    refine (h.keeps ApprovalStore.forgetLapsed_keeps).setPhase_free i ?_ ?_ ?_ <;> split <;>
      first | rfl | trivial
  · rename_i a o attempt hphase
    rcases ApprovalStore.openIfAbsent_cases w.store o w.now with
      ⟨raised, heq⟩ | ⟨found, heq, k, hk, hrec⟩ | ⟨s', heq, hopen, rfl⟩
    · rw [heq] at hact
      cases hact
      exact h.idle i
    · rw [heq] at hact
      obtain ⟨hne, hinv⟩ := h.consulted hphase hk hrec
      simp only [if_neg hne] at hact
      cases hact
      exact hinv
    · rw [heq] at hact
      simp only [if_true, World.consult] at hact
      cases hact
      exact h.opened hphase hopen
  · rename_i a o attempt found hphase
    have hopens : (w.phase i).opens = some o := by rw [hphase]; rfl
    have hq : o.question = a.question.asked := by
      have := h.founded i
      rw [hphase] at this
      exact this.1
    have again : Inv host (w.setPhase i (World.again a o attempt)) := by
      unfold World.again
      split
      · exact h.setPhase i _ (fun _ ho => by rw [hopens]; exact ho) (fun _ hs => by cases hs) hq
      · exact h.idle i
    rcases ApprovalStore.claim_cases w.store found.key with
      ⟨raised, heq⟩ | ⟨kept, claimed, heq, hk, hs, hun, hf⟩
    · rw [heq] at hact
      cases hact
      cases raised <;> first | exact again | exact h.idle i
    · rw [heq] at hact
      cases hact
      exact h.claimed hphase hk hs hun hf
  · rename_i key how hphase
    cases hact
    cases how with
    | publish => exact (h.keeps ApprovalStore.publish_keeps).idle i
    | consume => exact (h.keeps ApprovalStore.consume_keeps).idle i
    | abandon => exact (h.keeps ApprovalStore.abandon_keeps).idle i
    | release =>
      rcases ApprovalStore.releaseClaim_cases w.store key with heq | ⟨kept, released, heq, hk, -, hf⟩
      · unfold World.settle
        rw [heq]
        exact h.idle i
      · unfold World.settle
        rw [heq]
        exact h.released hphase hk hf
  · cases hact

theorem Inv.withoutRecord (h : Inv host w) {i : ℕ} {a : Asking} {consulted : Option Consulted}
    (hphase : w.phase i = .recording a consulted) :
    Inv host (w.setPhase i (World.withoutRecord a.question.ask.scope consulted)) := by
  unfold World.withoutRecord
  split
  · rename_i c
    split
    · rename_i hs
      refine h.setPhase i _ (fun _ ho => by cases ho) (fun k hk => ?_) trivial
      rw [hphase]
      simpa [Phase.spends, hs] using hk
    · split
      · exact h.setPhase_free i rfl rfl trivial
      · exact h.idle i
  · exact h.idle i

theorem Inv.raised (h : Inv host w) {i : ℕ} (hr : w.raised i = some w') : Inv host w' := by
  unfold World.raised at hr
  split at hr
  · cases hr; exact h.idle i
  · cases hr; exact h.idle i
  · cases hr; exact h.idle i
  · cases hr; exact h.idle i
  · rename_i hphase
    cases hr
    exact h.withoutRecord hphase
  · cases hr

/-- More identities were minted. -/
theorem Inv.issue (h : Inv host w) {refs : List Str} (hsub : w.issued ⊆ refs) :
    Inv host { w with issued := refs } :=
  { h with
    openedIssued := fun o ho => hsub (h.openedIssued o ho)
    opensFresh := fun i o ho => ⟨hsub (h.opensFresh i o ho).1, (h.opensFresh i o ho).2⟩ }

theorem opening_ok {a : Asking} {seconds : ℤ} {ref : Str} {o : Approval}
    (h : World.opening a seconds ref = .ok o) :
    o.approvalRef = ref ∧ o.question = a.question.asked := by
  unfold World.opening at h
  split at h
  · cases h
  · have hf := ApprovalFields.build_ok h
    rw [hf]
    exact ⟨rfl, rfl⟩

theorem Inv.decided (h : Inv host w) {i : ℕ} {q : DecisionQuestion} {now : ℤ}
    {content : List UInt8} {policy : Policy} {verdict : Verdict} {decisionRef approvalRef : Str}
    (hfresh : approvalRef ∉ w.issued) (hv : evaluate policy q = .ok verdict) :
    Inv host ({ w with issued := decisionRef :: approvalRef :: w.issued }.setPhase i
      (World.consultOrRecord host ⟨q, content, policy, verdict, decisionRef, now⟩ approvalRef)) := by
  have hissue : Inv host { w with issued := decisionRef :: approvalRef :: w.issued } :=
    h.issue fun _ hr => List.mem_cons_of_mem _ (List.mem_cons_of_mem _ hr)
  unfold World.consultOrRecord
  split
  · split
    · exact hissue.idle i
    · split
      · exact hissue.idle i
      · rename_i o ho
        obtain ⟨href, hq⟩ := opening_ok ho
        subst href
        exact h.minted hfresh hq
  · refine hissue.setPhase_free i rfl rfl ?_
    intro hreason
    have hmem := evaluate_reason hv
    simp only at hreason
    rw [hreason] at hmem
    simp [strictestFirst] at hmem

/-- **Every act of the daemon preserves the invariant.** -/
theorem step_inv {w w' : World} {e : Event} (h : Inv host w) (hs : step host w e = some w') :
    Inv host w' := by
  cases e with
  | tick now =>
    simp only [step] at hs
    split at hs
    · cases hs; exact { h with }
    · cases hs
  | resolve key person resolution reason at_ =>
    simp only [step] at hs
    split at hs
    · rcases ApprovalStore.resolve_cases w.store key person resolution reason at_ with
        ⟨raised, heq, hk⟩ | ⟨kept, resolved, heq, hk, hp, hd, hf⟩
      · rw [heq] at hs
        cases hs
        exact h.keeps hk
      · rw [heq] at hs
        cases hs
        exact h.resolved hk (by rw [hf]) (by rw [hf]) (by rw [hf]) (by rw [hf])
          ⟨at_, by rw [hf], by rw [hf]; exact hd⟩
    · cases hs
  | expirePast at_ =>
    simp only [step] at hs
    split at hs
    · cases hs; exact h.keeps ApprovalStore.expirePast_keeps
    · cases hs
  | forgetLapsed at_ =>
    simp only [step] at hs
    split at hs
    · cases hs; exact h.keeps ApprovalStore.forgetLapsed_keeps
    · cases hs
  | ask i question =>
    simp only [step] at hs
    split at hs
    · cases hs
      refine h.setPhase_free i ?_ ?_ ?_ <;> split <;> first | rfl | trivial
    · cases hs
  | act i => exact h.act hs
  | decide i content decisionRef approvalRef =>
    simp only [step] at hs
    split at hs
    · split at hs
      · cases hs
      rename_i hfresh
      split at hs
      · cases hs
      split at hs
      · cases hs; exact h.idle i
      rename_i verdict hv
      split at hs
      · cases hs; exact h.idle i
      cases hs
      simp only [not_or] at hfresh
      exact h.decided hfresh.2.1 hv
    · cases hs
  | suspended i takenUp =>
    simp only [step] at hs
    split at hs
    · cases hs
      refine h.setPhase_free i ?_ ?_ ?_ <;> split <;>
        first | rfl | trivial | exact ⟨by simp, fun hs => by cases hs⟩
    · cases hs
  | append i grantId outcome =>
    simp only [step] at hs
    split at hs
    · rename_i hphase
      split at hs
      · cases hs
      split at hs
      · cases hs; exact h.withoutRecord hphase
      · cases hs; exact h.recorded grantId hphase
    · cases hs
  | raised i => exact h.raised hs

theorem reaches_inv {now : ℤ} (h : Reaches (step host) (World.initial now) w) : Inv host w :=
  h.preserves (fun _ _ _ hinv hs => step_inv hinv hs) (initial_inv host now)

/-! ## Who gives a claim back -/

/-- Every claim of `s` is still there in `s'`, if its record is. -/
def ClaimsKept (s s' : ApprovalStore) : Prop :=
  ∀ k x y, s.byReference k = some x → x.claimed = true → s'.byReference k = some y →
    y.claimed = true

theorem ClaimsKept.of_keeps {s s' : ApprovalStore} (h : ApprovalStore.Keeps s s') :
    ClaimsKept s s' := by
  intro k x y hx hc hy
  obtain ⟨x', hx', hsame⟩ := h.record k y hy
  rw [hx] at hx'
  cases hx'
  rw [hsame.claimed, hc]

theorem ClaimsKept.refl (s : ApprovalStore) : ClaimsKept s s := .of_keeps (.refl s)

/-- Another record in the place of one, with its claim or one of its own. -/
theorem ClaimsKept.put {s : ApprovalStore} {key : ApprovalKey} {kept a : Approval}
    (hk : s.byReference key = some kept) (hc : kept.claimed = true → a.claimed = true) :
    ClaimsKept s (s.put key a) := by
  intro k x y hx hxc hy
  rw [ApprovalStore.put_byReference] at hy
  by_cases hkey : k = key
  · rw [if_pos hkey] at hy
    cases hy
    rw [hkey, hk] at hx
    cases hx
    exact hc hxc
  · rw [if_neg hkey, hx] at hy
    cases hy
    exact hxc

/-- **A claim is given back by the ask that holds it and by no other act.** -/
theorem step_claims {e : Event} (hs : step host w e = some w') : ClaimsKept w.store w'.store ∨
    ∃ i key released, e = .act i ∧ w.phase i = .settling key .release ∧
      w' = { w with store := w.store.put key released }.setPhase i .idle := by
  cases e with
  | tick now =>
    simp only [step] at hs
    split at hs <;> cases hs
    exact .inl (.refl _)
  | resolve key person resolution reason at_ =>
    simp only [step] at hs
    split at hs
    · rcases ApprovalStore.resolve_cases w.store key person resolution reason at_ with
        ⟨raised, heq, hk⟩ | ⟨kept, resolved, heq, hk, -, -, hf⟩
      · rw [heq] at hs
        cases hs
        exact .inl (.of_keeps hk)
      · rw [heq] at hs
        cases hs
        refine .inl fun k x y hx hxc hy => ?_
        rw [ApprovalStore.indexLapse_byReference] at hy
        exact ClaimsKept.put hk (fun hc => by rw [hf]; exact hc) k x y hx hxc hy
    · cases hs
  | expirePast at_ =>
    simp only [step] at hs
    split at hs <;> cases hs
    exact .inl (.of_keeps ApprovalStore.expirePast_keeps)
  | forgetLapsed at_ =>
    simp only [step] at hs
    split at hs <;> cases hs
    exact .inl (.of_keeps ApprovalStore.forgetLapsed_keeps)
  | ask i question =>
    simp only [step] at hs
    split at hs <;> cases hs
    exact .inl (.refl _)
  | act i =>
    simp only [step, World.act] at hs
    split at hs
    · cases hs; exact .inl (.of_keeps ApprovalStore.expirePast_keeps)
    · cases hs; exact .inl (.of_keeps ApprovalStore.forgetLapsed_keeps)
    · rename_i a o attempt _
      rcases ApprovalStore.openIfAbsent_cases w.store o w.now with
        ⟨raised, heq⟩ | ⟨found, heq, -⟩ | ⟨s', heq, hopen, rfl⟩
      · rw [heq] at hs; cases hs; exact .inl (.refl _)
      · rw [heq] at hs; cases hs; exact .inl (.refl _)
      · rw [heq] at hs
        cases hs
        obtain ⟨-, -, -, hnone, hrec, -⟩ := ApprovalStore.openWait_ok hopen
        refine .inl fun k x y hx hxc hy => ?_
        change (w.store.openWait o).2.byReference k = some y at hy
        by_cases hkey : k = o.key
        · rw [hkey, hnone] at hx; cases hx
        · rw [hrec, if_neg hkey, hx] at hy; cases hy; exact hxc
    · rename_i a o attempt found _
      rcases ApprovalStore.claim_cases w.store found.key with
        ⟨raised, heq⟩ | ⟨kept, claimed, heq, hk, -, -, hf⟩
      · rw [heq] at hs; cases hs; exact .inl (.refl _)
      · rw [heq] at hs
        cases hs
        exact .inl (ClaimsKept.put hk fun _ => by rw [hf])
    · rename_i key how hphase
      cases hs
      cases how with
      | publish => exact .inl (.of_keeps ApprovalStore.publish_keeps)
      | consume => exact .inl (.of_keeps ApprovalStore.consume_keeps)
      | abandon => exact .inl (.of_keeps ApprovalStore.abandon_keeps)
      | release =>
        unfold World.settle
        rcases ApprovalStore.releaseClaim_cases w.store key with heq | ⟨kept, released, heq, -⟩
        · rw [heq]; exact .inl (.refl _)
        · rw [heq]; exact .inr ⟨i, key, released, rfl, hphase, rfl⟩
    · cases hs
  | decide i content decisionRef approvalRef =>
    simp only [step] at hs
    split at hs
    · split at hs
      · cases hs
      split at hs
      · cases hs
      split at hs
      · cases hs; exact .inl (.refl _)
      split at hs <;> cases hs <;> exact .inl (.refl _)
    · cases hs
  | suspended i takenUp =>
    simp only [step] at hs
    split at hs <;> cases hs
    exact .inl (.refl _)
  | append i grantId outcome =>
    simp only [step] at hs
    split at hs
    · split at hs
      · cases hs
      split at hs <;> cases hs <;> exact .inl (.refl _)
    · cases hs
  | raised i =>
    simp only [step, World.raised] at hs
    split at hs <;> cases hs <;> exact .inl (.refl _)

/-! ## The law -/

theorem Committed.spent_granted {c : Committed} {ref : Str} (hg : c.granted = true)
    (href : c.decision.approvalRef = some ref) : c.spent = some (c.decision.scope, ref) := by
  unfold Committed.spent
  rw [if_pos hg, href]; rfl

/-- Two decisions on one reference are one decision. -/
theorem Inv.refs_once (h : Inv host w) :
    ((w.ledger.filter Committed.granted).map (·.decision.approvalRef)).Nodup := by
  have hspent : w.ledger.Pairwise fun c c' => ∀ k ∈ c.spent, ∀ k' ∈ c'.spent, k ≠ k' :=
    List.pairwise_filterMap.1 h.spentOnce
  refine List.pairwise_map.2 (List.pairwise_filter.2 (hspent.imp_of_mem ?_))
  intro c c' hc hc' hne hg hg' href
  obtain ⟨-, hyes⟩ := h.ledger c hc
  obtain ⟨act, -, ref, hcref, -⟩ := hyes hg
  have hcref' : c'.decision.approvalRef = some ref := href ▸ hcref
  have hk := Committed.spent_granted hg hcref
  have hk' := Committed.spent_granted hg' hcref'
  obtain ⟨⟨o, ho, hokey⟩, -⟩ := h.spentClaimed _ (List.mem_filterMap.2 ⟨c, hc, hk⟩)
  obtain ⟨⟨o', ho', ho'key⟩, -⟩ := h.spentClaimed _ (List.mem_filterMap.2 ⟨c', hc', hk'⟩)
  have : o = o' := h.wait_unique ho ho' (by
    have h1 : o.approvalRef = ref := congrArg Prod.snd hokey
    have h2 : o'.approvalRef = ref := congrArg Prod.snd ho'key
    rw [h1, h2])
  exact hne _ hk _ hk' (by rw [← hokey, ← ho'key, this])

/-- **One approval commits at most one allow.** In every run: no two decisions that are, or
may be, committed on a person's yes name one approval; each was taken on the act of a person
who approved its question before the deadline of the wait; and a claim is given back only by
an ask under which nothing was committed. -/
theorem one_allow (host : Composition) (now : ℤ) {w : World}
    (h : Reaches (step host) (World.initial now) w) :
    ((w.ledger.filter Committed.granted).map (·.decision.approvalRef)).Nodup ∧
    (∀ c ∈ w.ledger, c.decision.reason = Reason.approvalGranted.value →
      ∃ act ∈ w.acts, c.decision.approvalRef = some act.approvalRef ∧
        act.state = .approved ∧ (∃ p ps, act.person = some (p :: ps)) ∧
        (∃ at_, act.resolvedAt = some at_ ∧ at_ < act.deadline) ∧
        act.question = c.asking.question.asked ∧
        c.decision.scope = act.question.scope ∧
        c.decision.capability = act.question.capability) ∧
    (∀ e w', step host w e = some w' → ∀ k a a', w.store.byReference k = some a →
      a.claimed = true → w'.store.byReference k = some a' → a'.claimed = false →
      ∃ i, e = .act i ∧ w.phase i = .settling k .release ∧
        ∀ c ∈ w'.ledger, c.granted = true → c.decision.approvalRef ≠ some k.2) := by
  have hinv := reaches_inv h
  refine ⟨hinv.refs_once, fun c hc hreason => ?_, fun e w' hs k a a' ha hac ha' hac' => ?_⟩
  · obtain ⟨⟨grantId, hbuilt⟩, hyes⟩ := hinv.ledger c hc
    obtain ⟨act, hact, ref, href, hkey, hq, hst, hat⟩ := hyes (by
      unfold Committed.granted
      rw [hreason]
      exact beq_self_eq_true _)
    have hactref : act.approvalRef = ref := congrArg Prod.snd hkey
    refine ⟨act, hact, by rw [href, hactref], hst, act.acted_person (by rw [hst]; rfl), hat, hq,
      ?_, ?_⟩
    · rw [hq, hbuilt]; rfl
    · rw [hq, hbuilt]; rfl
  · rcases step_claims hs with hkept | ⟨i, key, released, rfl, hphase, rfl⟩
    · rw [hkept k a a' ha hac ha'] at hac'
      cases hac'
    · have hk : k = key := by
        by_contra hne
        change (w.store.put key released).byReference k = some a' at ha'
        rw [ApprovalStore.put_byReference, if_neg hne, ha] at ha'
        cases ha'
        rw [hac] at hac'
        cases hac'
      subst hk
      obtain ⟨⟨o, ho, hokey⟩, hunspent, -⟩ := hinv.held i k (by rw [hphase]; rfl)
      refine ⟨i, rfl, hphase, fun c hc hg href => ?_⟩
      have hsp := Committed.spent_granted hg href
      have hmem : (c.decision.scope, k.2) ∈ w.spent := List.mem_filterMap.2 ⟨c, hc, hsp⟩
      obtain ⟨⟨o', ho', ho'key⟩, -⟩ := hinv.spentClaimed _ hmem
      have : o = o' := hinv.wait_unique ho ho' (by
        have h1 : o.approvalRef = k.2 := congrArg Prod.snd hokey
        have h2 : o'.approvalRef = k.2 := congrArg Prod.snd ho'key
        rw [h1, h2])
      exact hunspent (by rw [← hokey, this, ho'key]; exact hmem)

/-! ## A run in which a yes is spent -/

section Demo

/-- A policy of one rule that asks for review. -/
def reviewPolicy : List (Str × Toml) :=
  [(lit "format", .int 1),
    (lit "revision", .table [(lit "reason", .str (lit "first"))]),
    (lit "rule", .arr [.table [(lit "id", .str (lit "pay")),
      (lit "capability", .str (lit "pay.send")),
      (lit "principals", .arr [.str (lit "user:ana")]),
      (lit "outcome", .str (lit "suspend")),
      (lit "reason", .str (lit "money leaves"))]])]

def reviewHost : Composition where
  toml := ⟨fun _ => .ok reviewPolicy, fun _ => [], fun _ => []⟩
  sha256 := fun _ => List.replicate 64 48
  instant := intText
  maxLifetimeSeconds := 3600
  approvals := true

def reviewQuestion : DecisionQuestion :=
  ⟨⟨lit "pay.send", lit "local", none, none⟩, ⟨lit "user", 1000, lit "ana", [], [], none⟩⟩

/-- Ask 0 suspends and is published, a person approves, ask 1 spends the yes on an append
that cannot say whether it committed. -/
def reviewEvents : List Event :=
  [.ask 0 reviewQuestion, .act 0, .act 0, .decide 0 [] (lit "d0") (lit "a0"), .act 0,
    .suspended 0 true, .append 0 none (.position (lit "s") 1), .act 0,
    .resolve (lit "local", lit "a0") (lit "user:boss") .approve none 0,
    .ask 1 reviewQuestion, .act 1, .act 1, .decide 1 [] (lit "d1") (lit "a1"), .act 1, .act 1,
    .append 1 none .indeterminate, .act 1]

theorem one_allow_review : ∃ w, run (step reviewHost) (World.initial 0) reviewEvents = some w ∧
    w.spent = [(lit "local", lit "a0")] ∧
    ((w.ledger.filter Committed.granted).map (·.decision.approvalRef)).Nodup := by
  have hsome : ((run (step reviewHost) (World.initial 0) reviewEvents).map World.spent) =
      some [(lit "local", lit "a0")] := by decide +kernel
  obtain ⟨w, hw, hspent⟩ := Option.map_eq_some_iff.1 hsome
  exact ⟨w, hw, hspent, (one_allow reviewHost 0 ⟨_, hw⟩).1⟩

end Demo

end SayFirst.Plane
