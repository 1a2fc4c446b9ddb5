import SayFirst.Spec.VerifiedConnection
import SayFirst.Proof.ClientTotal

/-!
# When the two clients class an answer alike

Both clients answer through the same readers and the same registry; what differs is the order
of the checks before them. `clients_alike`: the two results are of one class, with one value,
exactly on the answers that `AlikeRead` describes.
-/

namespace SayFirst.Client

open Py
open SayFirst.Contract (Decision contractGeneration)

/-- Two results of one class; of two answers, with one value. -/
def Alike : Except Raised (Result Value) → Except ReadError (Result Value) → Prop
  | .ok (.answered value _), .ok (.answered value' _) => value = value'
  | .ok (.refused _), .ok (.refused _) => True
  | .ok (.couldNotAsk _), .ok (.couldNotAsk _) => True
  | _, _ => False

variable (py : ClientHost)

/-- A document that the reader of an operation reads to an answer. -/
def SharedOperation.Reads (operation : SharedOperation) (document : Members) : Prop :=
  ∃ value, operation.operation.reader py document = .ok (.value value) ∨
    ∃ generation, operation.operation.reader py document = .ok (.result (.answered value generation))

/-- A published code of the class `refused`. -/
def RefusalCode (code : Json) : Prop := ∃ name, code = .str name ∧ classOfName name = some .refused

/-- **An answer of which both clients make the same.** Where it echoes the generation of the
connection, its reader comes to no infinite integer. Where it echoes another one, it does not
publish `generation_unsupported`. Where it echoes none that reads, it publishes no refusal and
is no document the reader reads. -/
def AlikeRead (operation : SharedOperation) (status : ℤ) (document : Members) : Prop :=
  match (member document "contract_generation").plainInt? with
  | some generation =>
    if generation = contractGeneration then
      status = 200 → ¬operation.operation.Overflows py generation document
    else status ≠ 200 → member document "code" ≠ .str (lit "generation_unsupported")
  | none =>
    if status = 200 then ¬operation.Reads py document
    else ¬RefusalCode (member document "code")

variable {py}

/-! ## The reader's part -/

/-- What a client makes of a reading: an answer of its value, or its own result. -/
inductive Judged : Except ReadError (Reading Value) → Result Value → Prop
  | error (e : ReadError) (p : Problem) : Judged (.error e) (.couldNotAsk p)
  | value (v : Value) (generation : ℤ) : Judged (.ok (.value v)) (.answered v generation)
  | result (r : Result Value) : Judged (.ok (.result r)) r

theorem Judged.alike {reading : Except ReadError (Reading Value)} {r r' : Result Value}
    (h : Judged reading r) (h' : Judged reading r') : Alike (.ok r) (.ok r') := by
  cases h with
  | error e p => cases h'; trivial
  | value v g => cases h'; rfl
  | result => cases h'; cases r <;> simp [Alike]

variable {operation : SharedOperation} {status generation : ℤ} {document : Members}

/-- The reader within the clause of `SocketClient`. -/
theorem judged_alike {reading : Except ReadError (Reading Value)} {r : Result Value}
    (h : Judged reading r) :
    Alike (judged generation reading) (.ok r) ↔ ¬Raises Uncaught reading := by
  cases h with
  | error e p =>
    cases hcaught : e.isCaught <;>
      simp [judged, hcaught, Alike, Uncaught, unreadable, ownProblem, clientProblem]
  | value v g => simp [judged, Alike]
  | result => cases r <;> simp [judged, Alike]

/-! ## The problem's part -/

theorem readEnum_text {α : Type} [StrEnum α] {name : Str} :
    (readEnum α py (.str name)).text = name := by
  cases hfind : (StrEnum.members (α := α)).find? (StrEnum.value · == name) with
  | none => simp [readEnum, hfind, Known.text]
  | some a => simpa [readEnum, hfind, Known.text] using List.find?_some hfind

theorem problem_class {name : Str} (h : member document "code" = .str name) :
    problemClassOf (readProblem py document) = .refused ↔ classOfName name = some .refused := by
  simp [problemClassOf, readProblem, h, problemClass, readEnum_text]

/-- The one code whose publication answers the question of the generation. -/
theorem code_unsupported :
    (readProblem py document).code = .known .generationUnsupported ↔
      member document "code" = .str (lit "generation_unsupported") := by
  constructor
  · intro h
    cases hcode : member document "code" with
    | str name =>
      have htext := @readEnum_text py ProblemCode inferInstance name
      rw [← hcode] at htext
      simp only [readProblem] at h
      rw [h] at htext
      rw [← htext]
      rfl
    | _ => simp [readProblem, hcode, readEnum] at h
  · intro h
    simp only [readProblem, h]
    rfl

namespace VerifiedConnection

variable {α : Type} {negotiated : ℤ}

/-- The clause of a verified connection names everything a reader raises. -/
theorem guarded_error {e : ReadError} :
    guarded (α := α) negotiated (.error e) = .ok (unreadable negotiated e.text) := by
  have h : isUnreadable e = true := by
    unfold isUnreadable
    split <;> rfl
  simp [guarded, h]

end VerifiedConnection

section Verified

open VerifiedConnection

variable {negotiated : ℤ}

theorem documentAnswer_reads {reader : Reader Value}
    (h : echoedGeneration negotiated (.obj document) = none) :
    ∃ r, documentAnswer py negotiated 200 (.obj document) reader = .ok r ∧
      Judged (reader document) r := by
  simp only [documentAnswer, h, ne_eq, not_true_eq_false, if_false]
  cases hread : reader document with
  | error e => exact ⟨_, guarded_error, .error _ _⟩
  | ok reading =>
    cases reading with
    | value v => exact ⟨_, rfl, .value _ _⟩
    | result r => exact ⟨_, rfl, .result _⟩

/-- A verified connection at 200, when the generation is not refused. -/
theorem verified_reads (h : echoedGeneration negotiated (.obj document) = none) :
    ∃ r, operation.verifiedConnection py negotiated 200 document = .ok r ∧
      Judged (operation.operation.reader py document) r := by
  cases operation with
  | askDecision =>
    simp only [SharedOperation.verifiedConnection, askDecision, h, if_true, decisionOf,
      SharedOperation.operation, Operation.reader]
    cases hread : readDecision py document with
    | error e => exact ⟨_, congrArg (Except.map _) guarded_error, .error _ _⟩
    | ok reading =>
      cases reading with
      | value v => exact ⟨_, rfl, .value _ _⟩
      | result r => exact ⟨_, rfl, .result _⟩
  | readWhoami =>
    simp only [SharedOperation.verifiedConnection, readWhoami, h, ne_eq, not_true_eq_false,
      if_false, indexing, SharedOperation.operation, Operation.reader, valueReader]
    cases hread : whoAmIFromDocument py document with
    | error e => exact ⟨_, congrArg (Except.map _) guarded_error, .error _ _⟩
    | ok value => exact ⟨_, rfl, .value _ _⟩
  | _ => exact documentAnswer_reads h

/-- A verified connection that refuses the generation an answer echoes. -/
theorem verified_refuses {problem : Problem}
    (h : echoedGeneration negotiated (.obj document) = some problem) :
    operation.verifiedConnection py negotiated status document = .ok (.couldNotAsk problem) := by
  cases operation <;>
    simp [SharedOperation.verifiedConnection, askDecision, readWhoami, documentAnswer, h, Except.map,
      Result.map]

/-- A verified connection classes a problem by its code. -/
theorem verified_classifies (h : echoedGeneration negotiated (.obj document) = none)
    (hstatus : status ≠ 200) :
    ∃ r, operation.verifiedConnection py negotiated status document = .ok r ∧
      ((∃ p, RefusalCode (member document "code") ∧ r = .refused p) ∨
        ∃ p, ¬RefusalCode (member document "code") ∧ r = .couldNotAsk p) := by
  have hclass : ∀ α : Type, ∃ r : Result α,
      classify py negotiated status (.obj document) = r ∧
        ((∃ p, RefusalCode (member document "code") ∧ r = .refused p) ∨
          ∃ p, ¬RefusalCode (member document "code") ∧ r = .couldNotAsk p) := by
    intro α
    refine ⟨_, rfl, ?_⟩
    cases hcode : member document "code" with
    | str name =>
      have hproblem := @problem_class py _ _ hcode
      by_cases hrefused : classOfName name = some .refused
      · refine .inl ⟨readProblem py document, ⟨name, rfl, hrefused⟩, ?_⟩
        simp [classify, hcode, classified, hproblem, hrefused]
      · refine .inr ⟨readProblem py document, ?_, ?_⟩
        · rintro ⟨name', heq, hname⟩
          cases heq
          exact hrefused hname
        · simp [classify, hcode, classified, hproblem, hrefused]
    | _ => exact .inr ⟨_, by simp [RefusalCode], by simp only [classify, hcode]; rfl⟩
  cases operation with
  | askDecision =>
    obtain ⟨r, hr, hcases⟩ := hclass Decision
    refine ⟨r.map .decision, ?_, ?_⟩
    · simp [SharedOperation.verifiedConnection, askDecision, h, hstatus, hr, Except.map]
    · obtain ⟨p, hcode, rfl⟩ | ⟨p, hcode, rfl⟩ := hcases
      · exact .inl ⟨p, hcode, rfl⟩
      · exact .inr ⟨p, hcode, rfl⟩
  | readWhoami =>
    obtain ⟨r, hr, hcases⟩ := hclass WhoAmI
    refine ⟨r.map .whoami, ?_, ?_⟩
    · simp [SharedOperation.verifiedConnection, readWhoami, h, hstatus, hr, Except.map]
    · obtain ⟨p, hcode, rfl⟩ | ⟨p, hcode, rfl⟩ := hcases
      · exact .inl ⟨p, hcode, rfl⟩
      · exact .inr ⟨p, hcode, rfl⟩
  | _ =>
    obtain ⟨r, hr, hcases⟩ := hclass Value
    exact ⟨r, by simp [SharedOperation.verifiedConnection, documentAnswer, h, hstatus, hr], hcases⟩

theorem echoed_none (h : (member document "contract_generation").plainInt? = none) :
    echoedGeneration negotiated (.obj document) = none := by
  simp [echoedGeneration, h]

theorem echoed_own
    (h : (member document "contract_generation").plainInt? = some contractGeneration) :
    echoedGeneration contractGeneration (.obj document) = none := by
  simp [echoedGeneration, h, negotiateGeneration, supportedGenerations]

theorem echoed_other (h : (member document "contract_generation").plainInt? = some generation)
    (hother : generation ≠ contractGeneration) :
    ∃ problem, echoedGeneration negotiated (.obj document) = some problem := by
  simp [echoedGeneration, h, negotiateGeneration, supportedGenerations, hother]

end Verified

/-! ## The two clients -/

/-- `SocketClient` of a problem whose generation reads: refused by its code, unless the
generation is another one and the code does not say so. -/
theorem socket_classifies {α : Type} {reader : Reader α} (hstatus : status ≠ 200)
    (hechoed : (member document "contract_generation").plainInt? = some generation) :
    interpret py status document reader false =
      if (readProblem py document).code ≠ .known .generationUnsupported ∧
          generation ≠ contractGeneration then
        .ok (generationProblem py (.int generation) (some generation))
      else if problemClassOf (readProblem py document) = .couldNotAsk then
        .ok (.couldNotAsk (readProblem py document))
      else .ok (.refused (readProblem py document)) := by
  simp only [interpret, hechoed, ne_eq, hstatus, not_false_eq_true, if_true]

/-- Without a code that is a text, a problem is no refusal. -/
theorem class_of_no_text (hrepr : ∀ value : Json, value.str? = none →
      classOfName (py.repr value) = none) (h : (member document "code").str? = none) :
    problemClassOf (readProblem py document) = .couldNotAsk := by
  have hcode : readEnum ProblemCode py (member document "code") =
      .unknown (py.repr (member document "code")) := by
    cases hmember : member document "code" <;> simp_all [readEnum, Json.str?]
  simp [problemClassOf, readProblem, hcode, problemClass, Known.text, hrepr _ h]

/-- The class of a problem is that of its code, when that is a text. -/
theorem class_iff (hrepr : ∀ value : Json, value.str? = none →
      classOfName (py.repr value) = none) :
    problemClassOf (readProblem py document) = .couldNotAsk ↔
      ¬RefusalCode (member document "code") := by
  cases hcode : member document "code" with
  | str name =>
    have hclass := @problem_class py _ _ hcode
    have hrefusal : RefusalCode (.str name) ↔ classOfName name = some .refused := by
      constructor
      · rintro ⟨name', heq, h⟩
        cases heq
        exact h
      · exact fun h => ⟨name, rfl, h⟩
    rw [hrefusal, ← hclass]
    cases problemClassOf (readProblem py document) <;> simp
  | _ =>
    have hnone : (member document "code").str? = none := by rw [hcode]; rfl
    exact iff_of_true (class_of_no_text hrepr hnone) (by simp [RefusalCode])

theorem value_not_refused {α : Type} {x : Except ReadError α} {f : α → Value} {p : Problem} :
    ¬Judged (x.map fun a => .value (f a)) (.refused p) := by
  intro h
  cases x <;> cases h

/-- No reader refuses. -/
theorem judged_not_refused {p : Problem} :
    ¬Judged (operation.operation.reader py document) (.refused p) := by
  have hdecision : ¬Judged ((readDecision py document).map (.map .decision)) (.refused p) := by
    unfold readDecision
    cases readEnum Plane.Outcome py (member document "outcome") with
    | unknown raw => intro h; cases h
    | known outcome =>
      intro h
      cases hread : decisionFromDocument py document <;> rw [hread] at h <;> cases h
  cases operation with
  | askDecision | readDecision => exact hdecision
  | _ => exact value_not_refused

/-- What is made of a reading is an answer exactly when the reader gave one. -/
theorem judged_answers {r : Result Value}
    (h : Judged (operation.operation.reader py document) r) :
    (∃ value g, r = .answered value g) ↔ operation.Reads py document := by
  unfold SharedOperation.Reads
  generalize operation.operation.reader py document = reading at h
  cases h with
  | error e p => simp
  | value v g => simp
  | result => simp

/-- `SharedOperation.socketClient` is the operation of the client on an answer that arrived. -/
theorem perform_answered {exchange : Exchange} {payload : Bytes}
    (hanswer : exchange.answer = .ok (status, payload))
    (hloads : py.loads payload = .ok (.obj document)) :
    perform py operation.operation exchange = operation.socketClient py status document := by
  have hread : ∀ method : Method,
      read py method exchange (operation.operation.reader py) false =
        operation.socketClient py status document := by
    intro method
    rw [read, request_ok hanswer, hloads]
    rfl
  cases operation <;> exact hread _

/-- **The two clients class an answer alike exactly where `AlikeRead` says.** What is asked of
`repr` is that the text of a value that is no string is no published code. -/
theorem clients_alike (py : ClientHost)
    (hrepr : ∀ value : Json, value.str? = none → classOfName (py.repr value) = none)
    (operation : SharedOperation) (status : ℤ) (document : Members) :
    Alike (operation.socketClient py status document)
        (operation.verifiedConnection py contractGeneration status document) ↔
      AlikeRead py operation status document := by
  unfold SharedOperation.socketClient AlikeRead
  cases hechoed : (member document "contract_generation").plainInt? with
  | none =>
    have hsocket : ∃ p, interpret py status document (operation.operation.reader py) false =
        .ok (.couldNotAsk p) := ⟨_, by simp only [interpret, hechoed]; rfl⟩
    obtain ⟨p, hsocket⟩ := hsocket
    rw [hsocket]
    by_cases hstatus : status = 200
    · subst hstatus
      obtain ⟨r, hr, hjudged⟩ := @verified_reads py operation _ _
        (@echoed_none _ contractGeneration hechoed)
      rw [hr, if_pos rfl, ← judged_answers hjudged]
      cases r with
      | answered v g => simp [Alike]
      | refused p => exact absurd hjudged judged_not_refused
      | couldNotAsk p => simp [Alike]
    · obtain ⟨r, hr, hcases⟩ := @verified_classifies py operation _ _ _
        (@echoed_none _ contractGeneration hechoed) hstatus
      rw [hr]
      simp only [hstatus, if_false]
      obtain ⟨p', hcode, rfl⟩ | ⟨p', hcode, rfl⟩ := hcases
      · simp [Alike, hcode]
      · simp [Alike, hcode]
  | some generation =>
    by_cases hown : generation = contractGeneration
    · subst hown
      simp only [if_true]
      by_cases hstatus : status = 200
      · subst hstatus
        obtain ⟨r, hr, hjudged⟩ := @verified_reads py operation _ _
          (echoed_own hechoed)
        have hsocket : interpret py 200 document (operation.operation.reader py) false =
            judged contractGeneration (operation.operation.reader py document) := by
          simp [interpret, hechoed]
        rw [hr, hsocket, judged_alike hjudged,
          Operation.reader_raises (generation_reads hechoed)]
        simp
      · obtain ⟨r, hr, hcases⟩ := @verified_classifies py operation _ _ _
          (echoed_own hechoed) hstatus
        rw [hr, socket_classifies hstatus hechoed]
        simp only [ne_eq, not_true_eq_false, and_false, if_false, hstatus, false_implies, iff_true]
        obtain ⟨p', hcode, rfl⟩ | ⟨p', hcode, rfl⟩ := hcases
        · rw [if_neg ((class_iff hrepr).not.mpr (not_not.mpr hcode))]
          trivial
        · rw [if_pos ((class_iff hrepr).mpr hcode)]
          trivial
    · obtain ⟨problem, hproblem⟩ := @echoed_other _ document
        contractGeneration hechoed hown
      rw [verified_refuses hproblem]
      simp only [hown, if_false]
      by_cases hstatus : status = 200
      · subst hstatus
        simp [interpret, hechoed, hown, Alike, generationProblem, clientProblem]
      · rw [socket_classifies hstatus hechoed]
        by_cases hcode : member document "code" = .str (lit "generation_unsupported")
        · have hclass : problemClassOf (readProblem py document) ≠ .couldNotAsk := by
            rw [(problem_class hcode).mpr (by decide)]
            decide
          rw [if_neg fun h => h.1 (code_unsupported.mpr hcode), if_neg hclass]
          simp [Alike, hstatus, hcode]
        · rw [if_pos ⟨mt code_unsupported.mp hcode, hown⟩]
          simp [Alike, hcode, generationProblem, clientProblem]

/-- A refusal of the connection's own generation. -/
theorem clients_alike_refused :
    Alike (SharedOperation.askDecision.socketClient plainHost 403
        [(lit "contract_generation", .int 1), (lit "code", .str (lit "principal_refused"))])
      (SharedOperation.askDecision.verifiedConnection plainHost contractGeneration 403
        [(lit "contract_generation", .int 1), (lit "code", .str (lit "principal_refused"))]) :=
  (clients_alike plainHost (fun _ _ => show classOfName [] = none by decide) .askDecision 403 _).mpr (by
    have h : (member [(lit "contract_generation", .int 1),
        (lit "code", .str (lit "principal_refused"))] "contract_generation").plainInt? = some 1 := by
      rfl
    simp [AlikeRead, h, contractGeneration])

/-- A refusal that echoes no generation is refused by one client and could not be asked by the
other. -/
theorem clients_differ :
    ¬Alike (SharedOperation.askDecision.socketClient plainHost 403
        [(lit "code", .str (lit "principal_refused"))])
      (SharedOperation.askDecision.verifiedConnection plainHost contractGeneration 403
        [(lit "code", .str (lit "principal_refused"))]) := by
  intro h
  exact h

end SayFirst.Client
