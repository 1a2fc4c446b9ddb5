import SayFirst.Lib.JsonRead
import SayFirst.Proof.Readers

/-!
# Which answers leave the client with a result

* `client_total` — a document operation returns a result, and a hold returns one with its
  connection closed or kept in a channel, exactly on the answers that `Answerable` and
  `Holdable` describe.
-/

namespace SayFirst.Client

open Py
open SayFirst.Contract (Decision contractGeneration)
open SayFirst.Plane (Outcome)

variable (py : ClientHost)

/-! ## The condition -/

/-- The status and the bytes an exchange delivers. -/
def Exchange.answer (exchange : Exchange) : Except WireFault (ℤ × Bytes) := do
  exchange.request
  let response ← exchange.response
  let payload ← response.payload
  return (response.status, payload)

/-- A document that an operation's reader is asked to read. -/
def Operation.Reaches (operation : Operation) (status : ℤ) (generation : ℤ)
    (document : Members) : Prop :=
  status = 200 ∧ Json.get document "contract_generation" = some (.int generation) ∧
    (operation = readStatus ∨ generation = contractGeneration)

/-- **An answer to an operation that leaves it with a result.** The HTTP library raises nothing
outside `OSError` and `HTTPException`, and no integer the reader comes to is infinite. -/
def Operation.Answerable (operation : Operation) (exchange : Exchange) : Prop :=
  (∀ text, exchange.answer ≠ .error (.other text)) ∧
    ∀ status payload generation document, exchange.answer = .ok (status, payload) →
      py.loads payload = .ok (.obj document) → operation.Reaches status generation document →
      ¬operation.Overflows py generation document

/-- A decision that reads: an outcome of the contract, and every required member. -/
def DecisionReads (frame : Members) : Prop :=
  (∃ outcome, readEnum Outcome py (member frame "outcome") = .known outcome) ∧
    ∀ key ∈ ["decision_ref", "scope", "capability", "reason", "policy_version", "decided_at",
      "correlation"], Has frame key

/-- The frame an exchange delivers to a hold, with its response. -/
def Exchange.held (exchange : Exchange) : Except Raised (Response × Option Json) :=
  match exchange.request with
  | .error fault => .error (.wire fault)
  | .ok () =>
    match exchange.response with
    | .error fault => .error (.wire fault)
    | .ok response => (response.frame py).map (Prod.mk response)

/-- **An answer to a hold that leaves it with a result.** The HTTP library raises nothing outside
`OSError` and `HTTPException`, the frame spells no integer of more digits than are converted,
and no integer of the grant of a decision that reads is infinite. -/
def Holdable (exchange : Exchange) : Prop :=
  (∀ text, exchange.held py ≠ .error (.wire (.other text))) ∧
    (∀ text, exchange.held py ≠ .error (.load (.valueError text))) ∧
    ∀ response frame grant, exchange.held py = .ok (response, some (.obj frame)) →
      response.streamed = true → response.status = 200 →
      Json.get frame "contract_generation" = some (.int contractGeneration) →
      DecisionReads py frame → Json.get frame "grant" = some (.obj grant) →
      ¬GrantOverflows py grant

variable {py}

/-! ## The document operations -/

/-- The operation returned a result, or the platform has no peer identity. -/
def Settles {α : Type} (x : Except Raised (Result α)) : Prop :=
  Returns x ∨ ∃ text, x = .error (.wire (.unsupportedPlatform text))

theorem Settles.of_returns {α : Type} {x : Except Raised (Result α)} (h : Returns x) : Settles x :=
  .inl h

/-- A call that raised settles the operation, unless no clause names the exception. -/
theorem caught_settles {α β : Type} {method : Method} {sent : Bool} {fault : WireFault}
    {k : (β ⊕ Result α) → Except Raised (Result α)} (hk : ∀ r, k (.inr r) = .ok r) :
    Settles (caught method sent fault >>= k) ↔ ∀ text, fault ≠ .other text := by
  cases fault with
  | other text => simp [caught, wireProblem, Settles, Bind.bind, Except.bind]
  | unsupportedPlatform text => simp [caught, wireProblem, Settles, Bind.bind, Except.bind]
  | _ => simp [caught, wireProblem, Settles, Bind.bind, Except.bind, hk]

/-- Whether the request was sent moves only what is said of repeating it. -/
theorem request_error {α : Type} {method : Method} {exchange : Exchange} {fault : WireFault}
    (h : exchange.answer = .error fault) :
    ∃ sent, request (α := α) py method exchange = caught method sent fault := by
  unfold Exchange.answer at h
  unfold request
  cases hrequest : exchange.request with
  | error f =>
    simp only [hrequest, Bind.bind, Except.bind, Except.error.injEq] at h
    exact ⟨false, by rw [h]⟩
  | ok u =>
    cases hresponse : exchange.response with
    | error f =>
      simp only [hrequest, hresponse, Bind.bind, Except.bind, Except.error.injEq] at h
      exact ⟨true, by rw [h]⟩
    | ok response =>
      cases hpayload : response.payload with
      | error f =>
        simp only [hrequest, hresponse, hpayload, Bind.bind, Except.bind, Except.error.injEq] at h
        exact ⟨true, by simp only [hpayload, h]⟩
      | ok payload =>
        simp [hrequest, hresponse, hpayload, Bind.bind, Except.bind, Pure.pure, Except.pure] at h

theorem request_ok {α : Type} {method : Method} {exchange : Exchange} {status : ℤ}
    {payload : Bytes} (h : exchange.answer = .ok (status, payload)) :
    request (α := α) py method exchange =
      match py.loads payload with
      | .error error => .ok (.inr (unreadable error.text))
      | .ok (.obj document) => .ok (.inl (status, document))
      | .ok _ => .ok (.inr (unreadable (lit "response document is not an object"))) := by
  simp only [Exchange.answer, bind_ok_iff] at h
  obtain ⟨u, hrequest, response, hresponse, bytes, hpayload, heq⟩ := h
  obtain ⟨rfl, rfl⟩ := Prod.mk.inj (Except.ok.inj heq)
  cases hloads : py.loads bytes with
  | error error => simp only [request, hrequest, hresponse, hpayload, hloads]
  | ok value => cases value <;> simp only [request, hrequest, hresponse, hpayload, hloads]

/-- The generation a document echoes, or none that reads. -/
theorem echoed_iff {document : Members} {generation : ℤ} :
    (member document "contract_generation").plainInt? = some generation ↔
      Json.get document "contract_generation" = some (.int generation) := by
  constructor
  · exact generation_reads
  · intro h
    simp [member, h, Json.plainInt?]

theorem judged_settles {α : Type} {generation : ℤ} {reading : Except ReadError (Reading α)} :
    Settles (judged generation reading) ↔ ¬Raises Uncaught reading := by
  cases reading with
  | error error => cases h : error.isCaught <;> simp [judged, h, Settles, Uncaught]
  | ok r => cases r <;> simp [judged, Settles]

/-- What the judgement gives before it comes to the reader is no answer. -/
theorem interpret_cases {α : Type} {status : ℤ} {payload : Members} {reader : Reader α}
    {accept : Bool} :
    (∃ result, interpret py status payload reader accept = .ok result ∧ result.isOk = false) ∧
        (∀ generation, status = 200 →
          Json.get payload "contract_generation" = some (.int generation) →
          ¬(accept = true ∨ generation = contractGeneration)) ∨
      ∃ generation, status = 200 ∧
        Json.get payload "contract_generation" = some (.int generation) ∧
        (accept = true ∨ generation = contractGeneration) ∧
        interpret py status payload reader accept = judged generation (reader payload) := by
  unfold interpret
  cases hechoed : (member payload "contract_generation").plainInt? with
  | none =>
    refine .inl ⟨⟨_, rfl, rfl⟩, fun generation _ hget => ?_⟩
    rw [← echoed_iff, hechoed] at hget
    cases hget
  | some generation =>
    have hget := echoed_iff.mp hechoed
    have hsame : ∀ g, Json.get payload "contract_generation" = some (.int g) → g = generation := by
      intro g hg
      rw [hget] at hg
      cases hg
      rfl
    by_cases hstatus : status = 200
    · by_cases hopen : accept = true ∨ generation = contractGeneration
      · refine .inr ⟨generation, hstatus, hget, hopen, ?_⟩
        have hshut : ¬((!accept) = true ∧ generation ≠ contractGeneration) := by
          cases accept <;> simp_all
        simp only [hstatus, ne_eq, not_true_eq_false, if_false, hshut]
      · have hshut : (!accept) = true ∧ generation ≠ contractGeneration := by
          cases accept <;> simp_all
        refine .inl ⟨?_, fun g _ hg => hsame g hg ▸ hopen⟩
        simp only [hstatus, ne_eq, not_true_eq_false, if_false, hshut]
        exact ⟨_, if_pos ⟨trivial, not_false⟩, rfl⟩
    · refine .inl ⟨?_, fun _ h => absurd h hstatus⟩
      simp only [ne_eq, hstatus, not_false_eq_true, if_true]
      split
      · exact ⟨_, rfl, rfl⟩
      · split <;> exact ⟨_, rfl, rfl⟩

/-- The judgement of an answer is left only by what its reader lets through. -/
theorem interpret_settles {α : Type} {status : ℤ} {payload : Members} {reader : Reader α}
    {accept : Bool} :
    Settles (interpret py status payload reader accept) ↔
      ∀ generation, status = 200 →
        Json.get payload "contract_generation" = some (.int generation) →
        (accept = true ∨ generation = contractGeneration) → ¬Raises Uncaught (reader payload) := by
  obtain ⟨⟨result, hresult, -⟩, hshut⟩ | ⟨generation, hstatus, hget, hopen, heq⟩ :=
    @interpret_cases py _ status payload reader accept
  · exact iff_of_true (.inl ⟨result, hresult⟩) fun g hs hg ho => absurd ho (hshut g hs hg)
  · rw [heq, judged_settles]
    constructor
    · exact fun h _ _ _ _ => h
    · exact fun h => h generation hstatus hget hopen

/-- A request settles when what it answers does, and no exception passes its clauses. -/
theorem request_settles {α : Type} {method : Method} {exchange : Exchange}
    {k : ((ℤ × Members) ⊕ Result α) → Except Raised (Result α)}
    (hk : ∀ r, k (.inr r) = .ok r) :
    Settles (request py method exchange >>= k) ↔
      (∀ text, exchange.answer ≠ .error (.other text)) ∧
        ∀ status payload document, exchange.answer = .ok (status, payload) →
          py.loads payload = .ok (.obj document) → Settles (k (.inl (status, document))) := by
  cases hanswer : exchange.answer with
  | error fault =>
    obtain ⟨sent, heq⟩ := @request_error py α method _ _ hanswer
    rw [heq, caught_settles hk]
    simp
  | ok answer =>
    obtain ⟨status, payload⟩ := answer
    rw [request_ok hanswer]
    have hsettled : ∀ r : Result α, Settles (k (.inr r)) := fun r => .inl ⟨r, hk r⟩
    have hone : (∀ s p document, (.ok (status, payload) : Except WireFault _) = .ok (s, p) →
        py.loads p = .ok (.obj document) → Settles (k (.inl (s, document)))) ↔
        ∀ document, py.loads payload = .ok (.obj document) →
          Settles (k (.inl (status, document))) := by
      constructor
      · exact fun h document => h status payload document rfl
      · rintro h s p document ⟨⟩
        exact h document
    rw [hone]
    cases hloads : py.loads payload with
    | error error => simp [Bind.bind, Except.bind, hsettled]
    | ok value => cases value <;> simp [Bind.bind, Except.bind, hsettled]

theorem read_settles {α : Type} {method : Method} {exchange : Exchange} {reader : Reader α}
    {accept : Bool} :
    Settles (read py method exchange reader accept) ↔
      (∀ text, exchange.answer ≠ .error (.other text)) ∧
        ∀ status payload document, exchange.answer = .ok (status, payload) →
          py.loads payload = .ok (.obj document) → ∀ generation, status = 200 →
          Json.get document "contract_generation" = some (.int generation) →
          (accept = true ∨ generation = contractGeneration) →
          ¬Raises Uncaught (reader document) := by
  unfold read
  rw [request_settles fun _ => rfl]
  simp only [interpret_settles]

theorem settles_map {α β : Type} {x : Except Raised (Result α)} {f : Result α → Result β} :
    Settles (x.map f) ↔ Settles x := by
  cases x <;> simp [Settles, Except.map]

/-- An evidence page is handed over unread. -/
theorem evidenceRead_settles {exchange : Exchange} :
    Settles (evidenceRead py exchange) ↔ ∀ text, exchange.answer ≠ .error (.other text) := by
  unfold evidenceRead
  rw [request_settles fun _ => rfl]
  refine and_iff_left fun status payload document _ _ => ?_
  by_cases hstatus : status = 200
  · simp only [hstatus, ne_eq, not_true_eq_false, if_false]
    split <;> exact .inl ⟨_, rfl⟩
  · simp only [ne_eq, hstatus, not_false_eq_true, if_true, interpret_settles]
    exact fun _ h => h.elim

/-- **A document operation returns a result exactly on the answers `Answerable` describes.** -/
theorem perform_settles {operation : Operation} {exchange : Exchange} :
    Settles (perform py operation exchange) ↔ operation.Answerable py exchange := by
  have hread : ∀ accept : Bool, (accept = true ↔ operation = .readStatus) →
      (Settles (read py operation.method exchange (operation.reader py) accept) ↔
        operation.Answerable py exchange) := by
    intro accept haccept
    rw [read_settles]
    refine and_congr_right fun _ => ?_
    constructor
    · rintro h status payload generation document hanswer hloads ⟨hstatus, hget, hopen⟩ hover
      rw [← haccept] at hopen
      exact h status payload document hanswer hloads generation hstatus hget hopen
        ((Operation.reader_raises hget).mpr hover)
    · intro h status payload document hanswer hloads generation hstatus hget hopen hraises
      rw [haccept] at hopen
      exact h status payload generation document hanswer hloads ⟨hstatus, hget, hopen⟩
        ((Operation.reader_raises hget).mp hraises)
  cases operation with
  | readEvidence | exportEvidence =>
    simp only [perform, settles_map, evidenceRead_settles, Operation.Answerable,
      Operation.Overflows, not_false_eq_true, implies_true, and_true]
  | readStatus => exact hread true (by simp)
  | _ => exact hread false (by simp)

/-! ## The hold -/

/-- The hold returned a result, and has closed its connection if it returned no channel. -/
def Held.Settles (held : Held) : Prop :=
  ∃ result channel, held.outcome = .ok (result, channel) ∧ (channel = none → held.closed = true)

theorem givenUp_settles {result : Result Decision} : (Held.givenUp result).Settles :=
  ⟨result, none, rfl, fun _ => rfl⟩

theorem raised_settles {error : Raised} : ¬(Held.raised error).Settles := by
  rintro ⟨result, channel, h, -⟩
  cases h

theorem holdFault_settles {sent : Bool} {error : Raised} :
    (holdFault sent error).Settles ↔
      (∀ text, error ≠ .wire (.other text)) ∧ (∀ text, error ≠ .load (.valueError text)) ∧
        ∀ e, error ≠ .read e := by
  cases error with
  | wire fault =>
    cases fault <;> simp [holdFault, wireProblem, givenUp_settles, raised_settles]
  | load error => cases error <;> simp [holdFault, givenUp_settles, raised_settles]
  | read error => simp [holdFault, raised_settles]

theorem nextFrame_error {lines : List Bytes} {fault : Option WireFault} {e : ReadError} :
    nextFrame py lines fault ≠ .error (.read e) := by
  unfold nextFrame
  cases frameData [] lines fault with
  | error f => simp
  | ok payload =>
    cases payload with
    | nil => simp
    | cons b payload => cases h : py.loads (b :: payload) <;> simp [h]

theorem frame_error {response : Response} {e : ReadError} :
    response.frame py ≠ .error (.read e) := by
  unfold Response.frame
  split
  · exact nextFrame_error
  · simp
  · split <;> simp

theorem held_not_read {exchange : Exchange} {e : ReadError} :
    exchange.held py ≠ .error (.read e) := by
  unfold Exchange.held
  cases exchange.request with
  | error f => simp
  | ok u =>
    cases exchange.response with
    | error f => simp
    | ok response =>
      have := @frame_error py response e
      cases h : response.frame py <;> simp_all [Except.map]

theorem hold_error {exchange : Exchange} {error : Raised} (h : exchange.held py = .error error) :
    ∃ sent, holdDecision py exchange = holdFault sent error := by
  unfold Exchange.held at h
  unfold holdDecision
  cases hrequest : exchange.request with
  | error f =>
    simp only [hrequest, Except.error.injEq] at h
    subst h
    exact ⟨false, rfl⟩
  | ok u =>
    cases hresponse : exchange.response with
    | error f =>
      simp only [hrequest, hresponse, Except.error.injEq] at h
      subst h
      exact ⟨true, rfl⟩
    | ok response =>
      cases hframe : response.frame py with
      | error f =>
        simp only [hrequest, hresponse, hframe, Except.map, Except.error.injEq] at h
        subst h
        exact ⟨true, by simp only [hframe]⟩
      | ok frame => simp [hrequest, hresponse, hframe, Except.map] at h

theorem hold_ok {exchange : Exchange} {response : Response} {frame : Option Json}
    (h : exchange.held py = .ok (response, frame)) :
    holdDecision py exchange =
      match frame with
      | some (.obj frame) => holdFrame py response frame
      | _ => .givenUp (unreadable (lit "the stream carried no answer")) := by
  unfold Exchange.held at h
  unfold holdDecision
  cases hrequest : exchange.request with
  | error f => simp [hrequest] at h
  | ok u =>
    cases hresponse : exchange.response with
    | error f => simp [hrequest, hresponse] at h
    | ok r =>
      cases hframe : r.frame py with
      | error f => simp [hrequest, hresponse, hframe, Except.map] at h
      | ok value =>
        simp only [hrequest, hresponse, hframe, Except.map, Except.ok.injEq, Prod.mk.injEq] at h
        obtain ⟨rfl, rfl⟩ := h
        simp only [hframe]
        cases value with
        | none => rfl
        | some value => cases value <;> rfl

theorem member_of_get {document : Members} {key : String} {value : Json}
    (h : Json.get document key = some value) : member document key = value := by
  simp [member, h]

/-- The decision of a frame reads where every member the contract requires is there. -/
theorem decisionFromDocument_reads {frame : Members} {generation : ℤ} {outcome : Outcome}
    (h : Json.get frame "contract_generation" = some (.int generation))
    (houtcome : readEnum Outcome py (member frame "outcome") = .known outcome) :
    Returns (decisionFromDocument py frame) ↔
      ∀ key ∈ ["decision_ref", "scope", "capability", "reason", "policy_version", "decided_at",
        "correlation"], Has frame key := by
  cases hget : Json.get frame "outcome" with
  | none => simp [member, hget, readEnum] at houtcome
  | some value =>
    rw [member_of_get hget] at houtcome
    have hwhole : wholeAt py frame "contract_generation" = .ok generation := wholeAt_int h
    rw [decisionFromDocument, returns_bind]
    simp only [item_ok, hget, Option.some.injEq, exists_eq_left', houtcome, returns_bind,
      exists_and_right, textAt_ok, enumAt_ok, stringAt_ok, hwhole, returns_pure]
    simp

/-- A decision reads exactly when its outcome is known and its members are there. -/
theorem readDecision_answers {frame : Members} {generation : ℤ}
    (h : Json.get frame "contract_generation" = some (.int generation)) :
    (∃ value g, readDecision py frame = .ok (.result (.answered value g))) ↔
      DecisionReads py frame := by
  unfold readDecision DecisionReads
  cases houtcome : readEnum Outcome py (member frame "outcome") with
  | unknown raw => simp
  | known outcome =>
    rw [← decisionFromDocument_reads h houtcome]
    cases decisionFromDocument py frame <;> simp [Bind.bind, Except.bind, Pure.pure, Except.pure]

theorem holdGrant_settles {frame : Members} {result : Result Decision} :
    (holdGrant py frame result).Settles ↔
      ∀ grant, Json.get frame "grant" = some (.obj grant) → ¬GrantOverflows py grant := by
  unfold holdGrant
  cases hget : Json.get frame "grant" with
  | none => simp [member, hget, Held.Settles]
  | some value =>
    rw [member_of_get hget]
    cases value with
    | obj grant =>
      have hraises := @grant_raises py grant
      cases hread : grantFromDocument py grant with
      | ok g =>
        rw [hread, raises_ok, false_iff] at hraises
        simp [hread, Held.Settles, hraises]
      | error e =>
        rw [hread, raises_error] at hraises
        cases hcaught : e.isCaught with
        | true =>
          have : ¬GrantOverflows py grant := by simp [← hraises, Uncaught, hcaught]
          simp [hread, this, givenUp_settles, hcaught]
        | false =>
          have : GrantOverflows py grant := hraises.mp hcaught
          simp [hread, this, raised_settles, hcaught]
    | _ => simp [Held.Settles]

/-- `read_decision` gives a result of its own. -/
theorem readDecision_result {frame : Members} {value : Decision} :
    readDecision py frame ≠ .ok (.value value) := by
  unfold readDecision
  cases readEnum Outcome py (member frame "outcome") with
  | unknown raw => simp
  | known outcome =>
    cases decisionFromDocument py frame <;> simp [Bind.bind, Except.bind, Pure.pure, Except.pure]

theorem holdFrame_settles {response : Response} {frame : Members} :
    (holdFrame py response frame).Settles ↔
      (response.streamed = true → response.status = 200 →
        Json.get frame "contract_generation" = some (.int contractGeneration) →
        DecisionReads py frame → ∀ grant, Json.get frame "grant" = some (.obj grant) →
        ¬GrantOverflows py grant) := by
  unfold holdFrame
  obtain ⟨⟨result, hresult, hno⟩, hshut⟩ | ⟨generation, hstatus, hget, hopen, heq⟩ :=
    @interpret_cases py _ response.status frame (readDecision py) false
  · refine iff_of_true ?_ fun _ hstatus hget => absurd (.inr rfl) (hshut _ hstatus hget)
    simp only [hresult, hno, Bool.not_false, Bool.true_or, if_true]
    exact givenUp_settles
  · obtain rfl : generation = contractGeneration := by simpa using hopen
    have hreads := @readDecision_answers py _ _ hget
    rw [heq]
    cases hread : readDecision py frame with
    | error e =>
      have hcaught : e.isCaught = true := by
        have := @readDecision_raises py _ _ hget
        rw [hread, raises_error] at this
        simpa [Uncaught] using this
      have hnot : ¬DecisionReads py frame := by simp [← hreads, hread]
      simp [judged, hcaught, hnot, unreadable, ownProblem, clientProblem, Result.isOk,
        givenUp_settles]
    | ok reading =>
      cases reading with
      | value value => exact absurd hread readDecision_result
      | result result =>
        cases result with
        | answered value g =>
          have hyes : DecisionReads py frame := hreads.mp ⟨value, g, hread⟩
          cases hstreamed : response.streamed with
          | false => simp [judged, Result.isOk, givenUp_settles]
          | true => simp [judged, Result.isOk, holdGrant_settles, hstatus, hget, hyes]
        | _ =>
          have hnot : ¬DecisionReads py frame := by simp [← hreads, hread]
          simp [judged, Result.isOk, givenUp_settles, hnot]

/-- **A hold settles exactly on the answers `Holdable` describes.** -/
theorem hold_settles {exchange : Exchange} :
    (holdDecision py exchange).Settles ↔ Holdable py exchange := by
  unfold Holdable
  cases hheld : exchange.held py with
  | error error =>
    obtain ⟨sent, heq⟩ := hold_error hheld
    have hnot : ∀ e, error ≠ .read e := fun e he => held_not_read (he ▸ hheld)
    rw [heq, holdFault_settles]
    simp [hnot]
  | ok held =>
    obtain ⟨response, frame⟩ := held
    rw [hold_ok hheld]
    cases frame with
    | none => simp [givenUp_settles]
    | some value =>
      cases value with
      | obj frame =>
        simp only [holdFrame_settles]
        constructor
        · intro h
          refine ⟨by simp, by simp, ?_⟩
          rintro response frame grant ⟨⟩ hstreamed hstatus hget hreads hgrant
          exact h hstreamed hstatus hget hreads grant hgrant
        · rintro ⟨-, -, h⟩ hstreamed hstatus hget hreads grant hgrant
          exact h response frame grant rfl hstreamed hstatus hget hreads hgrant
      | _ => simp [givenUp_settles]

/-- **The client is total exactly on the answers it can read.** -/
theorem client_total (py : ClientHost) :
    (∀ operation exchange, Settles (perform py operation exchange) ↔
      operation.Answerable py exchange) ∧
    ∀ exchange, (holdDecision py exchange).Settles ↔ Holdable py exchange :=
  ⟨fun _ _ => perform_settles, fun _ => hold_settles⟩

/-- A host whose `json.loads` reads ASCII, and no integer of more than 4300 digits. -/
def plainHost : ClientHost where
  sha256 _ := []
  floatRepr _ := []
  repr _ := []
  intOfText _ := none
  fromIso _ := none
  b64decode _ := none
  intError _ := lit "cannot convert float infinity to integer"
  iterError _ := []
  memberError _ := []
  encodeError _ := []
  loads body :=
    if 4300 < body.length && body.all (isDigit ·.toNat) then
      .error (.valueError (lit "Exceeds the limit (4300 digits) for integer string conversion"))
    else
      match Json.loads (fun _ => .nan) (body.map UInt8.toNat) with
      | some value => .ok value
      | none => .error (.jsonDecodeError (lit "Expecting value"))

/-- A request answered at 200 by a document of these bytes. -/
def answeredBy (body : Bytes) : Exchange := ⟨.ok (), .ok ⟨200, .document (.ok body)⟩⟩

/-- A policy status whose format is `Infinity`. -/
def infiniteFormat : Exchange :=
  answeredBy (ascii (lit ("\x7b\"contract_generation\":1,\"projection\":\x7b\x7d,\"authority\":\"a\"," ++
    "\"policy_version\":\"v\",\"format\":Infinity\x7d")))

/-- A document that is one integer of 4301 digits. -/
def longInteger : Exchange := answeredBy (List.replicate 4301 49)

/-- An infinite number leaves a read with an `OverflowError`, and an integer of too many digits a
hold with a `ValueError` and an open connection. -/
theorem client_not_total :
    ¬Settles (perform plainHost .readPolicyStatus infiniteFormat) ∧
      ¬(holdDecision plainHost longInteger).Settles := by
  constructor
  · have h : perform plainHost .readPolicyStatus infiniteFormat =
        .error (.read ⟨.overflowError, lit "cannot convert float infinity to integer"⟩) := by rfl
    simp [Settles, h]
  · have h : plainHost.loads (List.replicate 4301 49) = .error (.valueError
        (lit "Exceeds the limit (4300 digits) for integer string conversion")) := by
      have hdigits : ∀ n : ℕ, (List.replicate n (49 : UInt8)).all (isDigit ·.toNat) = true := by
        intro n
        simp [isDigit]
      simp only [plainHost, List.length_replicate, hdigits]
      rfl
    simp only [longInteger, answeredBy, holdDecision, Response.frame, h]
    exact raised_settles

end SayFirst.Client
