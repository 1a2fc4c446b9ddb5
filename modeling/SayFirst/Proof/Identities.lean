import SayFirst.Proof.OneAllow

/-!
# Every decision is recorded under an identity of its own

* `step_moves` — what one step of the daemon makes of its asks and of its ledger.
* `RefsOnce.step` — identities are minted once, and recorded once.
* `Consents.step` — an allow that consulting makes of a suspension is a person's.
-/

namespace SayFirst.Plane

open Py

variable {host : Composition} {w w' : World}

/-- The question of an ask in flight. -/
def Phase.question : Phase → Option DecisionQuestion
  | .expiring q _ | .forgetting q _ | .deciding q _ => some q
  | .looking a _ _ | .claiming a _ _ _ | .suspending a _ | .recording a _ => some a.question
  | .idle | .settling _ _ => none

/-- The identity of the decision an ask may still record. -/
def Phase.ref : Phase → Option Str
  | .looking a _ _ | .claiming a _ _ _ | .suspending a _ | .recording a _ => some a.decisionRef
  | _ => none

/-- An allow that consulting makes of a suspension is a person's, and spends it. -/
def Consulted.Yes (c : Consulted) : Prop :=
  c.outcome = .allow → c.reason = .approvalGranted ∧ c.spend = true

/-- What an ask consulted is a person's yes where it allows. -/
def Phase.Yes : Phase → Prop
  | .recording _ (some c) => c.Yes
  | _ => True

/-- An ask that goes on: its question and its decision stay, or it holds none any more. -/
structure Phase.GoesOn (p p' : Phase) : Prop where
  question : p'.question = none ∨ p'.question = p.question
  ref : p'.ref = none ∨ p'.ref = p.ref
  yes : p' = p ∨ p'.Yes

/-- What one step makes of the asks. -/
inductive Moves (host : Composition) (w w' : World) : Event → Prop
  /-- One ask goes on, or none. -/
  | goesOn {e : Event} (i : ℕ) (hledger : w'.ledger = w.ledger) (hissued : w'.issued = w.issued)
      (hothers : ∀ j, j ≠ i → w'.phase j = w.phase j) (hphase : (w.phase i).GoesOn (w'.phase i)) :
      Moves host w w' e
  | asked (i : ℕ) (q : DecisionQuestion) (hledger : w'.ledger = w.ledger)
      (hissued : w'.issued = w.issued) (hothers : ∀ j, j ≠ i → w'.phase j = w.phase j)
      (hquestion : (w'.phase i).question = some q) (href : (w'.phase i).ref = none)
      (hyes : (w'.phase i).Yes) :
      Moves host w w' (.ask i q)
  | decided (i : ℕ) (content : List UInt8) (decisionRef approvalRef : Str)
      (hfresh : decisionRef ∉ w.issued) (hledger : w'.ledger = w.ledger)
      (hissued : w'.issued = decisionRef :: approvalRef :: w.issued)
      (hothers : ∀ j, j ≠ i → w'.phase j = w.phase j)
      (hquestion : (w'.phase i).question = none ∨ (w'.phase i).question = (w.phase i).question)
      (href : (w'.phase i).ref = none ∨ (w'.phase i).ref = some decisionRef)
      (hyes : (w'.phase i).Yes) :
      Moves host w w' (.decide i content decisionRef approvalRef)
  | recorded (i : ℕ) (a : Asking) (consulted : Option Consulted) (grantId : Option Str)
      (outcome : AppendOutcome) (hphase : w.phase i = .recording a consulted)
      (hgrant : grantId.isSome = true → World.mayGrant a consulted = true)
      (hledger : w'.ledger = ⟨recordedDecision host a consulted grantId, a, consulted⟩ :: w.ledger)
      (hissued : w'.issued = w.issued) (hothers : ∀ j, j ≠ i → w'.phase j = w.phase j)
      (hquestion : (w'.phase i).question = none) (href : (w'.phase i).ref = none)
      (hyes : (w'.phase i).Yes) :
      Moves host w w' (.append i grantId outcome)

theorem Phase.yes_of_free {p : Phase} (hquestion : p.question = none) : p.Yes := by
  cases p with
  | recording a consulted => cases hquestion
  | _ => trivial

theorem Phase.GoesOn.ended {p p' : Phase} (hquestion : p'.question = none) (href : p'.ref = none) :
    p.GoesOn p' := ⟨.inl hquestion, .inl href, .inr (Phase.yes_of_free hquestion)⟩

theorem Phase.GoesOn.held {a : Asking} {p p' : Phase} (hp : p.question = some a.question)
    (hp' : p'.question = some a.question) (href : p.ref = some a.decisionRef)
    (href' : p'.ref = some a.decisionRef) (hyes : p'.Yes) : p.GoesOn p' :=
  ⟨.inr (hp'.trans hp.symm), .inr (href'.trans href.symm), .inr hyes⟩

/-- A step of one ask. -/
theorem Moves.one {e : Event} {i : ℕ} {p : Phase} (hgoes : (w.phase i).GoesOn p)
    (hphase : w'.phase = fun j => if j = i then p else w.phase j) (hledger : w'.ledger = w.ledger)
    (hissued : w'.issued = w.issued) : Moves host w w' e := by
  refine .goesOn i hledger hissued (fun j hj => ?_) ?_
  · rw [hphase]
    exact if_neg hj
  · rw [hphase]
    simpa using hgoes

theorem again_goesOn {a : Asking} {o : Approval} {attempt : ℕ} {p : Phase}
    (hp : p.question = some a.question) (href : p.ref = some a.decisionRef) :
    p.GoesOn (World.again a o attempt) := by
  unfold World.again
  split
  · exact .held hp rfl href rfl trivial
  · exact .ended rfl rfl

theorem consult_goesOn {a : Asking} {o found : Approval} {attempt : ℕ} {p : Phase}
    (hp : p.question = some a.question) (href : p.ref = some a.decisionRef) :
    p.GoesOn (World.consult a o attempt found) := by
  unfold World.consult
  split
  · exact .held hp rfl href rfl trivial
  split
  · split
    · exact .held hp rfl href rfl fun h => (by cases h)
    · exact again_goesOn hp href
  · exact .held hp rfl href rfl fun h => (by cases h)
  · exact .ended rfl rfl
  · split
    · exact again_goesOn hp href
    · exact .held hp rfl href rfl trivial

theorem settled_question (scope : Str) (consulted : Option Consulted) :
    (World.afterRecord scope consulted).question = none ∧
      (World.afterRecord scope consulted).ref = none ∧
      (World.withoutRecord scope consulted).question = none ∧
      (World.withoutRecord scope consulted).ref = none := by
  unfold World.afterRecord World.withoutRecord
  cases consulted with
  | none => exact ⟨rfl, rfl, rfl, rfl⟩
  | some c =>
    refine ⟨?_, ?_, ?_, ?_⟩ <;> simp only <;> split <;> (try split) <;> rfl

theorem act_moves {e : Event} {i : ℕ} (hact : w.act i = some w') : Moves host w w' e := by
  unfold World.act at hact
  split at hact
  · rename_i q now hphase
    cases hact
    refine .one (i := i) ?_ rfl rfl rfl
    rw [hphase]
    split
    · exact ⟨.inr rfl, .inl rfl, .inr trivial⟩
    · exact .ended rfl rfl
  · rename_i q now hphase
    cases hact
    refine .one (i := i) ?_ rfl rfl rfl
    rw [hphase]
    split
    · exact ⟨.inr rfl, .inl rfl, .inr trivial⟩
    · exact .ended rfl rfl
  · rename_i a o attempt hphase
    simp only at hact
    split at hact
    · cases hact
      refine .one (i := i) ?_ rfl rfl rfl
      exact .ended rfl rfl
    · cases hact
      refine .one (i := i) ?_ rfl rfl rfl
      rw [hphase]
      exact consult_goesOn rfl rfl
  · rename_i a o attempt found hphase
    cases hact
    refine .one (i := i) ?_ rfl rfl rfl
    rw [hphase]
    split
    · exact .held rfl rfl rfl rfl fun _ => ⟨rfl, rfl⟩
    · exact again_goesOn rfl rfl
    · exact again_goesOn rfl rfl
    · exact .ended rfl rfl
  · cases hact
    exact .one (i := i) (.ended rfl rfl) rfl rfl rfl
  · cases hact

variable (host) in
theorem consultOrRecord_ref (a : Asking) (approvalRef : Str) :
    ((World.consultOrRecord host a approvalRef).question = none ∨
      (World.consultOrRecord host a approvalRef).question = some a.question) ∧
    ((World.consultOrRecord host a approvalRef).ref = none ∨
      (World.consultOrRecord host a approvalRef).ref = some a.decisionRef) ∧
    (World.consultOrRecord host a approvalRef).Yes := by
  unfold World.consultOrRecord
  split
  · split
    · exact ⟨.inl rfl, .inl rfl, trivial⟩
    · split
      · exact ⟨.inl rfl, .inl rfl, trivial⟩
      · exact ⟨.inr rfl, .inr rfl, trivial⟩
  · exact ⟨.inr rfl, .inr rfl, trivial⟩

/-- A step that leaves the asks as they are. -/
theorem Moves.still {e : Event} (hphase : w'.phase = w.phase) (hledger : w'.ledger = w.ledger)
    (hissued : w'.issued = w.issued) : Moves host w w' e :=
  .goesOn 0 hledger hissued (fun j _ => by rw [hphase])
    ⟨.inr (by rw [hphase]), .inr (by rw [hphase]), .inl (by rw [hphase])⟩

/-- **What one step of the daemon makes of its asks.** -/
theorem step_moves {e : Event} (hs : step host w e = some w') : Moves host w w' e := by
  cases e with
  | tick now =>
    simp only [step] at hs
    split at hs <;> cases hs
    exact .still rfl rfl rfl
  | resolve key person resolution reason at_ =>
    simp only [step] at hs
    split at hs <;> cases hs
    exact .still rfl rfl rfl
  | expirePast at_ =>
    simp only [step] at hs
    split at hs <;> cases hs
    exact .still rfl rfl rfl
  | forgetLapsed at_ =>
    simp only [step] at hs
    split at hs <;> cases hs
    exact .still rfl rfl rfl
  | ask i question =>
    simp only [step] at hs
    split at hs <;> cases hs
    refine .asked i question rfl rfl (fun j hj => World.setPhase_ne _ hj) ?_ ?_ ?_
    · rw [World.setPhase_self]
      split <;> rfl
    · rw [World.setPhase_self]
      split <;> rfl
    · rw [World.setPhase_self]
      split <;> trivial
  | act i => exact act_moves hs
  | decide i content decisionRef approvalRef =>
    simp only [step] at hs
    split at hs <;> [skip; cases hs]
    rename_i question now hphase
    split at hs
    · cases hs
    rename_i hfresh
    split at hs
    · cases hs
    rename_i policy hpolicy
    split at hs
    · cases hs
      exact .one (i := i) (.ended rfl rfl) rfl rfl rfl
    rename_i verdict hverdict
    split at hs
    · cases hs
      exact .one (i := i) (.ended rfl rfl) rfl rfl rfl
    · cases hs
      obtain ⟨hquestion, href, hyes⟩ := consultOrRecord_ref host
        ⟨question, content, policy, verdict, decisionRef, now⟩ approvalRef
      refine .decided i content decisionRef approvalRef (fun h => hfresh (.inl h)) rfl rfl
        (fun j hj => World.setPhase_ne _ hj) ?_ ?_ ?_
      · rw [World.setPhase_self, hphase]
        exact hquestion
      · rw [World.setPhase_self]
        exact href
      · rw [World.setPhase_self]
        exact hyes
  | suspended i takenUp =>
    simp only [step] at hs
    split at hs <;> [skip; cases hs]
    rename_i a o hphase
    cases hs
    refine .one (i := i) ?_ rfl rfl rfl
    rw [hphase]
    split
    · exact .held rfl rfl rfl rfl fun h => (by cases h)
    · exact .ended rfl rfl
  | append i grantId outcome =>
    simp only [step] at hs
    split at hs <;> [skip; cases hs]
    rename_i a consulted hphase
    split at hs
    · cases hs
    rename_i hgrant
    obtain ⟨hquestion, href, hquestion', href'⟩ := settled_question a.question.ask.scope consulted
    split at hs
    · cases hs
      exact .one (i := i) (.ended hquestion' href') rfl rfl rfl
    · cases hs
      refine .recorded i a consulted grantId outcome hphase (fun h => ?_) rfl rfl
        (fun j hj => World.setPhase_ne _ hj) ?_ ?_ ?_
      · by_contra hno
        exact hgrant ⟨h, by simpa using hno⟩
      · rw [World.setPhase_self]
        exact hquestion
      · rw [World.setPhase_self]
        exact href
      · rw [World.setPhase_self]
        exact Phase.yes_of_free hquestion
  | raised i =>
    have hraised : w.raised i = some w' := hs
    unfold World.raised at hraised
    split at hraised <;> cases hraised
    · exact .one (i := i) (.ended rfl rfl) rfl rfl rfl
    · exact .one (i := i) (.ended rfl rfl) rfl rfl rfl
    · exact .one (i := i) (.ended rfl rfl) rfl rfl rfl
    · exact .one (i := i) (.ended rfl rfl) rfl rfl rfl
    · rename_i a consulted hphase
      obtain ⟨-, -, hquestion, href⟩ := settled_question a.question.ask.scope consulted
      exact .one (i := i) (.ended hquestion href) rfl rfl rfl

/-! ## Identities are used once -/

/-- The identity of every decision was minted once, for one ask, and is recorded once. -/
structure RefsOnce (w : World) : Prop where
  issued : ∀ i r, (w.phase i).ref = some r → r ∈ w.issued
  apart : ∀ i j r, (w.phase i).ref = some r → (w.phase j).ref = some r → i = j
  recordedIssued : ∀ c ∈ w.ledger, c.decision.decisionRef ∈ w.issued
  recordedOnce : (w.ledger.map (·.decision.decisionRef)).Nodup
  unrecorded : ∀ i r, (w.phase i).ref = some r → r ∉ w.ledger.map (·.decision.decisionRef)

theorem RefsOnce.initial (now : ℤ) : RefsOnce (World.initial now) where
  issued := fun _ _ h => (by cases h)
  apart := fun _ _ _ h => (by cases h)
  recordedIssued := fun _ h => (by cases h)
  recordedOnce := List.nodup_nil
  unrecorded := fun _ _ h => (by cases h)

theorem RefsOnce.step {e : Event} (h : RefsOnce w) (hs : step host w e = some w') :
    RefsOnce w' := by
  have kept : ∀ {i : ℕ}, (∀ j, j ≠ i → w'.phase j = w.phase j) → ∀ {j r},
      (w'.phase i).ref = none ∨ (w'.phase i).ref = (w.phase i).ref →
      (w'.phase j).ref = some r → (w.phase j).ref = some r := by
    intro i hothers j r hi hj
    by_cases hji : j = i
    · subst hji
      rcases hi with hi | hi
      · rw [hi] at hj
        cases hj
      · rw [← hi, hj]
    · rw [← hothers j hji, hj]
  cases step_moves hs with
  | goesOn i hledger hissued hothers hphase =>
    -- an ask that goes on holds the identity it held, or none
    have hkept := fun {j r} => @kept i hothers j r hphase.ref
    exact
      { issued := fun i r hi => by rw [hissued]; exact h.issued i r (hkept hi)
        apart := fun i j r hi hj => h.apart i j r (hkept hi) (hkept hj)
        recordedIssued := by rw [hledger, hissued]; exact h.recordedIssued
        recordedOnce := by rw [hledger]; exact h.recordedOnce
        unrecorded := fun i r hi => by rw [hledger]; exact h.unrecorded i r (hkept hi) }
  | asked i q hledger hissued hothers hquestion href hyes =>
    have hkept := fun {j r} => @kept i hothers j r (.inl href)
    exact
      { issued := fun i r hi => by rw [hissued]; exact h.issued i r (hkept hi)
        apart := fun i j r hi hj => h.apart i j r (hkept hi) (hkept hj)
        recordedIssued := by rw [hledger, hissued]; exact h.recordedIssued
        recordedOnce := by rw [hledger]; exact h.recordedOnce
        unrecorded := fun i r hi => by rw [hledger]; exact h.unrecorded i r (hkept hi) }
  | decided i content decisionRef approvalRef hfresh hledger hissued hothers hquestion href hyes =>
    have hsub : ∀ {r}, r ∈ w.issued → r ∈ w'.issued := fun hr => by
      rw [hissued]
      exact List.mem_cons_of_mem _ (List.mem_cons_of_mem _ hr)
    have hcases : ∀ {j r}, (w'.phase j).ref = some r →
        (j = i ∧ r = decisionRef) ∨ (j ≠ i ∧ (w.phase j).ref = some r) := by
      intro j r hj
      by_cases hji : j = i
      · subst hji
        rcases href with hnone | hsome
        · rw [hnone] at hj
          cases hj
        · rw [hsome] at hj
          exact .inl ⟨rfl, (Option.some.inj hj).symm⟩
      · exact .inr ⟨hji, by rw [← hothers j hji, hj]⟩
    -- a fresh identity is apart from all that were issued, recorded ones among them
    refine ⟨fun j r hj => ?_, fun j k r hj hk => ?_, fun c hc => ?_, ?_, fun j r hj => ?_⟩
    · rcases hcases hj with ⟨-, rfl⟩ | ⟨-, hj⟩
      · rw [hissued]
        exact List.mem_cons_self
      · exact hsub (h.issued j r hj)
    · rcases hcases hj with ⟨rfl, rfl⟩ | ⟨hji, hj⟩ <;> rcases hcases hk with ⟨rfl, heq⟩ | ⟨hki, hk⟩
      · rfl
      · exact absurd (h.issued k _ hk) hfresh
      · subst heq
        exact absurd (h.issued j _ hj) hfresh
      · exact h.apart j k r hj hk
    · rw [hledger] at hc
      exact hsub (h.recordedIssued c hc)
    · rw [hledger]
      exact h.recordedOnce
    · rw [hledger]
      rcases hcases hj with ⟨-, rfl⟩ | ⟨-, hj⟩
      · intro hmem
        obtain ⟨c, hc, href⟩ := List.mem_map.1 hmem
        exact hfresh (href ▸ h.recordedIssued c hc)
      · exact h.unrecorded j r hj
  | recorded i a consulted grantId outcome hphase _ hledger hissued hothers hquestion href hyes =>
    have hkept := fun {j r} => @kept i hothers j r (.inl href)
    have hmine : (w.phase i).ref = some a.decisionRef := by rw [hphase]; rfl
    refine ⟨fun j r hj => ?_, fun j k r hj hk => h.apart j k r (hkept hj) (hkept hk),
      fun c hc => ?_, ?_, fun j r hj => ?_⟩
    · rw [hissued]
      exact h.issued j r (hkept hj)
    · rw [hissued]
      rw [hledger] at hc
      rcases List.mem_cons.1 hc with rfl | hc
      · exact h.issued i _ hmine
      · exact h.recordedIssued c hc
    · rw [hledger]
      exact List.nodup_cons.2 ⟨h.unrecorded i _ hmine, h.recordedOnce⟩
    · rw [hledger]
      intro hmem
      rcases List.mem_cons.1 hmem with heq | hmem
      · -- the ask that recorded holds no identity any more
        have hj' := hkept hj
        rw [heq] at hj'
        have hji : j = i := h.apart j i _ hj' hmine
        rw [hji, href] at hj
        cases hj
      · exact h.unrecorded j r (hkept hj) hmem

/-! ## An allow behind a suspension is a person's -/

/-- Whatever was consulted, or is recorded as consulted, is a person's yes where it allows. -/
structure Consents (w : World) : Prop where
  phases : ∀ i, (w.phase i).Yes
  ledger : ∀ c ∈ w.ledger, ∀ consulted, c.consulted = some consulted → consulted.Yes

theorem Consents.initial (now : ℤ) : Consents (World.initial now) :=
  ⟨fun _ => trivial, fun _ h => (by cases h)⟩

theorem Consents.step {e : Event} (h : Consents w) (hs : step host w e = some w') :
    Consents w' := by
  have phases : ∀ {i : ℕ}, (∀ j, j ≠ i → w'.phase j = w.phase j) → (w'.phase i).Yes →
      ∀ j, (w'.phase j).Yes := by
    intro i hothers hi j
    by_cases hji : j = i
    · rw [hji]
      exact hi
    · rw [hothers j hji]
      exact h.phases j
  cases step_moves hs with
  | goesOn i hledger _ hothers hphase =>
    refine ⟨phases hothers ?_, by rw [hledger]; exact h.ledger⟩
    rcases hphase.yes with heq | hyes
    · rw [heq]
      exact h.phases i
    · exact hyes
  | asked i _ hledger _ hothers _ _ hyes =>
    exact ⟨phases hothers hyes, by rw [hledger]; exact h.ledger⟩
  | decided i _ _ _ _ hledger _ hothers _ _ hyes =>
    exact ⟨phases hothers hyes, by rw [hledger]; exact h.ledger⟩
  | recorded i a consulted grantId outcome hphase _ hledger _ hothers _ _ hyes =>
    refine ⟨phases hothers hyes, fun c hc => ?_⟩
    rw [hledger] at hc
    rcases List.mem_cons.1 hc with rfl | hc
    · -- what is recorded was consulted in the phase before it
      intro x hx
      have hi := h.phases i
      have hconsulted : consulted = some x := hx
      rw [hphase, hconsulted] at hi
      exact hi
    · exact h.ledger c hc

end SayFirst.Plane
