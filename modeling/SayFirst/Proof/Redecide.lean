import SayFirst.Lib.Reference
import SayFirst.Proof.OneAllow
import SayFirst.Proof.Rederive
import SayFirst.Spec.Effect
import SayFirst.Spec.Export

/-!
# Every committed decision re-derives

* `reaches_decided` — in every run an ask holds the verdict of its policy and question.
* `effect_recorded` — what the offline verifier reads back of a decision's effect.
* `live_and_retrospective` — both evaluations agree, so every decision of the recipe's
  own reasons re-derives as confirmed.
-/

namespace SayFirst.Plane

open Py
open Contract (recipeReasons recorded rederiveRecordedDecision)

variable {host : Composition} {w w' : World}

/-- An ask holds what its policy file and its question evaluate to. -/
def Asking.Decided (host : Composition) (a : Asking) : Prop :=
  parsePolicy host.toml a.content host.maxLifetimeSeconds = .ok a.policy ∧
    evaluate a.policy a.question = .ok a.verdict

/-- What consulting made of a verdict: the recipe's own reason only for a suspension. -/
def ConsultedOn (verdict : Verdict) (c : Consulted) : Prop :=
  verdict.outcome = .suspend ∧
    ((c.outcome = .suspend ∧ c.reason = .policyRequiresReview) ∨
      c.reason = .approvalGranted ∨ c.reason = .approvalRejected)

/-- A verdict, and what was made of it. -/
def AnsweredOn (host : Composition) (a : Asking) (consulted : Option Consulted) : Prop :=
  a.Decided host ∧ ∀ c, consulted = some c → ConsultedOn a.verdict c

/-- What an ask in flight holds. -/
def Phase.Decided (host : Composition) : Phase → Prop
  | .looking a _ _ => a.Decided host ∧ a.verdict.outcome = .suspend
  | .claiming a _ _ _ => a.Decided host ∧ a.verdict.outcome = .suspend
  | .suspending a _ => a.Decided host ∧ a.verdict.outcome = .suspend
  | .recording a consulted => AnsweredOn host a consulted
  | _ => True

/-- Every ask and every committed decision stands on an evaluation. -/
structure Decided (host : Composition) (w : World) : Prop where
  phases : ∀ i, (w.phase i).Decided host
  ledger : ∀ c ∈ w.ledger, AnsweredOn host c.asking c.consulted ∧
    ∃ grantId, c.decision = recordedDecision host c.asking c.consulted grantId

/-- An ask that moves on, in a world whose ledger and other asks stay. -/
theorem Decided.setPhase (h : Decided host w) (i : ℕ) {p : Phase} (hp : p.Decided host)
    (hphase : w'.phase = fun j => if j = i then p else w.phase j) (hledger : w'.ledger = w.ledger) :
    Decided host w' := by
  refine ⟨fun j => ?_, fun c hc => h.ledger c (hledger ▸ hc)⟩
  rw [hphase]
  simp only
  split
  · exact hp
  · exact h.phases j

theorem Decided.of_eq (h : Decided host w) (hphase : w'.phase = w.phase)
    (hledger : w'.ledger = w.ledger) : Decided host w' :=
  ⟨fun i => by rw [hphase]; exact h.phases i, fun c hc => h.ledger c (by rw [← hledger]; exact hc)⟩

theorem again_decided {a : Asking} {o : Approval} {attempt : ℕ} (ha : a.Decided host)
    (hs : a.verdict.outcome = .suspend) : (World.again a o attempt).Decided host := by
  unfold World.again
  split
  · exact ⟨ha, hs⟩
  · trivial

theorem consult_decided {a : Asking} {o found : Approval} {attempt : ℕ} (ha : a.Decided host)
    (hs : a.verdict.outcome = .suspend) : (World.consult a o attempt found).Decided host := by
  have answered : ∀ {c : Consulted}, ConsultedOn a.verdict c → AnsweredOn host a (some c) :=
    fun hc => ⟨ha, fun c' hc' => by cases hc'; exact hc⟩
  unfold World.consult
  split
  · exact ⟨ha, hs⟩
  split
  · split
    · exact answered ⟨hs, .inl ⟨rfl, rfl⟩⟩
    · exact again_decided ha hs
  · exact answered ⟨hs, .inr (.inr rfl)⟩
  · trivial
  · split
    · exact again_decided ha hs
    · exact ⟨ha, hs⟩

theorem settled_decided (scope : Str) (consulted : Option Consulted) :
    (World.afterRecord scope consulted).Decided host ∧
      (World.withoutRecord scope consulted).Decided host := by
  unfold World.afterRecord World.withoutRecord
  constructor <;> (repeat' split) <;> trivial

theorem Decided.act (h : Decided host w) {i : ℕ} (hact : w.act i = some w') : Decided host w' := by
  unfold World.act at hact
  have hi := h.phases i
  split at hact
  · cases hact
    refine h.setPhase i ?_ rfl rfl
    split <;> trivial
  · cases hact
    refine h.setPhase i ?_ rfl rfl
    split <;> trivial
  · rename_i a o attempt hphase
    rw [hphase] at hi
    simp only at hact
    split at hact
    · cases hact
      refine h.setPhase i ?_ rfl rfl
      trivial
    · cases hact
      exact h.setPhase i (consult_decided hi.1 hi.2) rfl rfl
  · rename_i a o attempt found hphase
    rw [hphase] at hi
    cases hact
    refine h.setPhase i ?_ rfl rfl
    split
    · exact ⟨hi.1, fun c hc => by cases hc; exact ⟨hi.2, .inr (.inl rfl)⟩⟩
    · exact again_decided hi.1 hi.2
    · exact again_decided hi.1 hi.2
    · trivial
  · cases hact
    refine h.setPhase i ?_ rfl rfl
    trivial
  · cases hact

theorem consultOrRecord_decided {a : Asking} {ref : Str} (ha : a.Decided host) :
    (World.consultOrRecord host a ref).Decided host := by
  unfold World.consultOrRecord
  split
  · rename_i hs
    split
    · trivial
    · split
      · trivial
      · exact ⟨ha, hs.1⟩
  · exact ⟨ha, fun c hc => by cases hc⟩

/-- **Every act keeps what the asks hold.** -/
theorem step_decided {e : Event} (h : Decided host w) (hs : step host w e = some w') :
    Decided host w' := by
  cases e with
  | tick now =>
    simp only [step] at hs
    split at hs <;> cases hs
    exact h.of_eq rfl rfl
  | resolve key person resolution reason at_ =>
    simp only [step] at hs
    split at hs <;> cases hs
    exact h.of_eq rfl rfl
  | expirePast at_ =>
    simp only [step] at hs
    split at hs <;> cases hs
    exact h.of_eq rfl rfl
  | forgetLapsed at_ =>
    simp only [step] at hs
    split at hs <;> cases hs
    exact h.of_eq rfl rfl
  | ask i question =>
    simp only [step] at hs
    split at hs <;> cases hs
    refine h.setPhase i ?_ rfl rfl
    split <;> trivial
  | act i => exact h.act hs
  | decide i content decisionRef approvalRef =>
    simp only [step] at hs
    split at hs <;> [skip; cases hs]
    split at hs
    · cases hs
    split at hs
    · cases hs
    rename_i policy hpolicy
    split at hs
    · cases hs
      refine h.setPhase i ?_ rfl rfl
      trivial
    rename_i verdict hverdict
    split at hs
    · cases hs
      refine h.setPhase i ?_ rfl rfl
      trivial
    · cases hs
      exact h.setPhase i (consultOrRecord_decided
        (a := ⟨_, content, policy, verdict, decisionRef, _⟩) ⟨hpolicy, hverdict⟩) rfl rfl
  | suspended i takenUp =>
    have hi := h.phases i
    simp only [step] at hs
    split at hs <;> [skip; cases hs]
    rename_i a o hphase
    rw [hphase] at hi
    cases hs
    refine h.setPhase i ?_ rfl rfl
    split
    · exact ⟨hi.1, fun c hc => by cases hc; exact ⟨hi.2, .inl ⟨rfl, rfl⟩⟩⟩
    · trivial
  | append i grantId outcome =>
    have hi := h.phases i
    simp only [step] at hs
    split at hs <;> [skip; cases hs]
    rename_i a consulted hphase
    rw [hphase] at hi
    split at hs
    · cases hs
    split at hs
    · cases hs
      exact h.setPhase i (settled_decided _ _).2 rfl rfl
    · cases hs
      -- the decision joins the ledger with what its ask held
      have hjoin : Decided host { w with
          ledger := ⟨recordedDecision host a consulted grantId, a, consulted⟩ :: w.ledger } := by
        refine ⟨h.phases, fun c hc => ?_⟩
        rcases List.mem_cons.1 hc with rfl | hc
        · exact ⟨hi, grantId, rfl⟩
        · exact h.ledger c hc
      exact hjoin.setPhase i (settled_decided _ _).1 rfl rfl
  | raised i =>
    have hraised : w.raised i = some w' := hs
    unfold World.raised at hraised
    split at hraised <;> cases hraised
    · refine h.setPhase i ?_ rfl rfl
      trivial
    · refine h.setPhase i ?_ rfl rfl
      trivial
    · refine h.setPhase i ?_ rfl rfl
      trivial
    · refine h.setPhase i ?_ rfl rfl
      trivial
    · exact h.setPhase i (settled_decided _ _).2 rfl rfl

/-- **In every run an ask holds the verdict of its policy and question.** -/
theorem reaches_decided {now : ℤ} (h : Reaches (step host) (World.initial now) w) :
    Decided host w :=
  h.preserves (fun _ _ _ hinv hs => step_decided hinv hs)
    ⟨fun _ => trivial, fun c hc => by cases hc⟩

/-! ## Reading a decision back -/

/-- The body of a decision's effect, spelled out. -/
theorem recordedEffect_body {py : Interpreter} {a : Asking} {consulted : Option Consulted}
    {grantId : Option Str} {epoch : Str} {position : Option (Str × ℤ)} {body : Body}
    (h : recordedEffect py epoch (recordedDecision host a consulted grantId) position = some body) :
    ∃ decidedAt place, body = [(lit "capability", .str a.question.ask.capability),
      (lit "decision_id", .str a.decisionRef),
      (lit "outcome", .str ((consulted.map Consulted.outcome).getD a.verdict.outcome).value),
      (lit "decided_at", .str decidedAt),
      (lit "policy_version", .str (policyVersion host a.content)),
      (lit "recording_epoch", .str epoch),
      (lit "reason", .str ((consulted.map Consulted.reason).getD a.verdict.reason).value),
      (lit "rule_id", .ofOption .str a.verdict.ruleId),
      (lit "arguments_digest", .ofOption .str a.question.ask.argumentsDigest),
      (lit "correlation", .ofOption .str a.question.ask.correlation),
      (lit "correlation_source", .str (if a.question.ask.correlation.isNone then lit "absent"
        else lit "boundary_supplied")),
      (lit "principal_references", .arr ((referencesRead a.policy a.question).map .str)),
      (lit "evaluation_recipe", .str evaluationRecipe), (lit "decision_position", place)] := by
  unfold recordedEffect effectDecision at h
  simp only [bind, Option.bind_eq_some_iff, pure, Option.some.injEq] at h
  obtain ⟨copied, ⟨stamp, -, decidedAt, -, rfl⟩, h⟩ := h
  unfold effectBody at h
  simp only [bind, Option.bind_eq_some_iff, pure, Option.some.injEq] at h
  obtain ⟨rendered, -, rfl⟩ := h
  exact ⟨rendered, _, rfl⟩

theorem getStr_ofOption (value : Option Str) :
    (match some (Json.ofOption Json.str value) with
      | some (.str s) => some s
      | _ => none) = value := by
  cases value <;> rfl

/-- **What is read back of a decision's effect** are the inputs it was decided on. -/
theorem effect_recorded {py : Interpreter} {a : Asking} {consulted : Option Consulted}
    {grantId : Option Str} {epoch : Str} {position : Option (Str × ℤ)} {body : Body}
    (h : recordedEffect py epoch (recordedDecision host a consulted grantId) position = some body) :
    recorded py body a.question.ask.scope = {
      scope := a.question.ask.scope
      capability := a.question.ask.capability
      principalReferences := some (referencesRead a.policy a.question)
      argumentsDigest := a.question.ask.argumentsDigest
      outcome := ((consulted.map Consulted.outcome).getD a.verdict.outcome).value
      reason := ((consulted.map Consulted.reason).getD a.verdict.reason).value
      ruleId := a.verdict.ruleId
      evaluationRecipe := some evaluationRecipe } := by
  obtain ⟨decidedAt, place, rfl⟩ := recordedEffect_body h
  have htexts : (referencesRead a.policy a.question).map (Json.text py ∘ .str) =
      referencesRead a.policy a.question := List.map_id _
  refine Contract.RecordedDecision.mk.injEq .. |>.mpr ⟨rfl, rfl, ?_, ?_, rfl, rfl, ?_, rfl⟩
  · exact congrArg some ((List.map_map ..).trans htexts)
  · exact getStr_ofOption _
  · exact getStr_ofOption _

/-! ## Both evaluations -/

/-- The recipe's own reasons are the ones a verdict gives, and none of an approval. -/
theorem reason_value_recipe {reason : Reason} (h : reason.value ∈ recipeReasons) :
    reason ≠ .approvalGranted ∧ reason ≠ .approvalRejected := by
  constructor
  · rintro rfl
    exact absurd h (by decide)
  · rintro rfl
    exact absurd h (by decide)

/-- **A committed decision of the recipe's own reasons re-derives as confirmed.** -/
theorem committed_rederives {c : Committed} {grantId : Option Str}
    (h : AnsweredOn host c.asking c.consulted)
    (hc : c.decision = recordedDecision host c.asking c.consulted grantId)
    (hreason : c.decision.reason ∈ recipeReasons) {py : Interpreter} {epoch : Str}
    {position : Option (Str × ℤ)} {body : Body}
    (hbody : recordedEffect py epoch c.decision position = some body) :
    rederiveRecordedDecision host.toml (recorded py body c.decision.scope) c.asking.content =
      .ok ⟨.confirmed, none, none⟩ := by
  obtain ⟨⟨hparse, heval⟩, hconsulted⟩ := h
  rw [hc] at hbody hreason ⊢
  have hreason' : ((c.consulted.map Consulted.reason).getD c.asking.verdict.reason).value ∈
      recipeReasons := hreason
  -- what was consulted keeps the verdict's outcome and reason, or is no reason of the recipe
  have hsame : (c.consulted.map Consulted.outcome).getD c.asking.verdict.outcome =
        c.asking.verdict.outcome ∧
      (c.consulted.map Consulted.reason).getD c.asking.verdict.reason =
        c.asking.verdict.reason := by
    cases hcon : c.consulted with
    | none => exact ⟨rfl, rfl⟩
    | some made =>
      rw [hcon] at hreason'
      obtain ⟨hsuspend, ⟨hout, hrequires⟩ | hgranted | hrejected⟩ := hconsulted made hcon
      · have hverdict := evaluate_reason heval
        rw [hsuspend] at hverdict
        have hwhy : c.asking.verdict.reason = .policyRequiresReview := by
          simpa [strictestFirst] using hverdict
        exact ⟨by simp [hout, hsuspend], by simp [hrequires, hwhy]⟩
      · exact absurd hgranted (reason_value_recipe hreason').1
      · exact absurd hrejected (reason_value_recipe hreason').2
  have hread : recorded py body
      (recordedDecision host c.asking c.consulted grantId).scope = _ := effect_recorded hbody
  rw [hread, hsame.1, hsame.2]
  rw [hsame.2] at hreason'
  have hrecipe : ¬ evaluationRecipe ≠ Contract.recipe := fun h => h rfl
  unfold rederiveRecordedDecision
  simp only
  rw [if_neg hrecipe, if_neg (not_not.2 hreason'), evaluate_agree hparse heval]
  exact if_pos rfl

/-- **Live and retrospective evaluation agree.** Over bytes the control plane accepts every
question is answered, and the contract's evaluation of the recorded references answers the same;
so in every run a committed decision whose reason is one of the recipe's re-derives as confirmed
from the effect recorded of it, on the bytes its policy version is the digest of. -/
theorem live_and_retrospective :
    (∀ (toml : TomlLib) (raw : List UInt8) (bound : ℤ) (policy : Policy)
        (question : DecisionQuestion), parsePolicy toml raw bound = .ok policy →
      ∃ verdict, evaluate policy question = .ok verdict ∧
        Contract.evaluateRecordedInputs toml raw question.ask.scope question.ask.capability
          (referencesRead policy question) question.ask.argumentsDigest =
          .ok (.triple (verdict.outcome.value, verdict.reason.value, verdict.ruleId))) ∧
    (∀ (host : Composition) (now : ℤ) (w : World), Reaches (step host) (World.initial now) w →
      ∀ c ∈ w.ledger, c.decision.reason ∈ recipeReasons →
        c.decision.policyVersion = some (policyVersion host c.asking.content) ∧
        ∀ py epoch position body, recordedEffect py epoch c.decision position = some body →
          rederiveRecordedDecision host.toml (recorded py body c.decision.scope) c.asking.content =
            .ok ⟨.confirmed, none, none⟩) := by
  constructor
  · intro toml raw bound policy question h
    obtain ⟨verdict, hv⟩ := evaluate_ok policy question
    exact ⟨verdict, hv, evaluate_agree h hv⟩
  · intro host now w hw c hc hreason
    obtain ⟨hanswered, grantId, hdecision⟩ := (reaches_decided hw).ledger c hc
    refine ⟨by rw [hdecision]; rfl, fun py epoch position body hbody => ?_⟩
    exact committed_rederives hanswered hdecision hreason hbody

/-- The daemon of the review, on a fixed clock. -/
def clockedHost : Composition := { reviewHost with instant := fun _ => lit "2026-01-05T10:00:00Z" }

theorem live_and_retrospective_review :
    (∃ policy verdict, parsePolicy clockedHost.toml [] 3600 = .ok policy ∧
      evaluate policy reviewQuestion = .ok verdict ∧ verdict.outcome = .suspend ∧
      Contract.evaluateRecordedInputs clockedHost.toml [] (lit "local") (lit "pay.send")
        (referencesRead policy reviewQuestion) none =
        .ok (.triple (verdict.outcome.value, verdict.reason.value, verdict.ruleId))) ∧
    ∃ w, ∃ c ∈ w.ledger, ∃ body, run (step clockedHost) (World.initial 0) reviewEvents = some w ∧
      c.decision.reason = lit "policy_requires_review" ∧
      recordedEffect reference (lit "e1") c.decision (some (lit "s", 1)) = some body ∧
      rederiveRecordedDecision clockedHost.toml (recorded reference body c.decision.scope)
        c.asking.content = .ok ⟨.confirmed, none, none⟩ := by
  constructor
  · have hparse : ((parsePolicy clockedHost.toml [] 3600).toOption.any fun policy =>
        (evaluate policy reviewQuestion).toOption.any (·.outcome == .suspend)) = true := by
      decide +kernel
    cases hp : parsePolicy clockedHost.toml [] 3600 with
    | error raised => rw [hp] at hparse; cases hparse
    | ok policy =>
      obtain ⟨verdict, hv, hagree⟩ :=
        live_and_retrospective.1 clockedHost.toml [] 3600 policy reviewQuestion hp
      rw [hp] at hparse
      refine ⟨policy, verdict, rfl, hv, ?_, hagree⟩
      have : (evaluate policy reviewQuestion).toOption.any (·.outcome == .suspend) = true := hparse
      rw [hv] at this
      exact beq_iff_eq.1 this
  · have hrun : ((run (step clockedHost) (World.initial 0) reviewEvents).map fun w =>
        w.ledger.any fun c => c.decision.reason == lit "policy_requires_review" &&
          (recordedEffect reference (lit "e1") c.decision (some (lit "s", 1))).isSome) =
        some true := by decide +kernel
    obtain ⟨w, hw, hany⟩ := Option.map_eq_some_iff.1 hrun
    obtain ⟨c, hc, hboth⟩ := List.any_eq_true.1 hany
    rw [Bool.and_eq_true, beq_iff_eq] at hboth
    obtain ⟨hreason, hbody⟩ := hboth
    obtain ⟨body, hbody⟩ := Option.isSome_iff_exists.1 hbody
    have hrecipe : c.decision.reason ∈ recipeReasons := by rw [hreason]; decide
    exact ⟨w, c, hc, body, hw, hreason, hbody,
      (live_and_retrospective.2 clockedHost 0 w ⟨_, hw⟩ c hc hrecipe).2 reference (lit "e1")
        (some (lit "s", 1)) body hbody⟩

end SayFirst.Plane
