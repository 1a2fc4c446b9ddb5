import SayFirst.Spec.Recipes

/-!
# What the contract's chain verifier raises and answers

* `readEntry_onlyInvalid` — reading an entry raises `InvalidBundle` or nothing.
* `readEntry_ok` — what an entry that was read satisfies.
* `declaredGaps_ok` — gap counts are read exactly when `int` reads each of them.
* `verifyRead_ok` — it answers exactly when every gap count it meets is a number.
-/

namespace SayFirst.Contract

open Py Evidence

/-! ## Raising nothing but `InvalidBundle` -/

/-- A computation that, if it raises, raises `InvalidBundle`. -/
def OnlyInvalid {α : Type} (x : Except PyError α) : Prop :=
  ∀ raised, x = .error raised → ∃ reason, raised = .invalidBundle reason

namespace OnlyInvalid

variable {α β : Type}

theorem ok (a : α) : OnlyInvalid (.ok a : Except PyError α) := by
  intro raised h; cases h

theorem pure (a : α) : OnlyInvalid (Pure.pure a : Except PyError α) := .ok a

theorem invalid (message : String) : OnlyInvalid (invalid message : Except PyError α) := by
  intro raised h
  cases h
  exact ⟨_, rfl⟩

theorem raise (reason : Str) : OnlyInvalid (.error (.invalidBundle reason) : Except PyError α) := by
  intro raised h
  cases h
  exact ⟨_, rfl⟩

theorem bind {x : Except PyError α} {f : α → Except PyError β} (hx : OnlyInvalid x)
    (hf : ∀ a, OnlyInvalid (f a)) : OnlyInvalid (x >>= f) := by
  intro raised h
  cases x with
  | error r =>
    cases h
    exact hx _ rfl
  | ok a => exact hf a raised h

theorem mapM {f : α → Except PyError β} (hf : ∀ a, OnlyInvalid (f a)) :
    ∀ l : List α, OnlyInvalid (l.mapM f) := by
  intro l
  induction l with
  | nil => exact .pure _
  | cons a l ih =>
    rw [List.mapM_cons]
    exact (hf a).bind fun b => ih.bind fun bs => .pure _

end OnlyInvalid

/-- `x >>= f` answers what `f` answers on what `x` answers. -/
theorem bind_ok {α β : Type} {x : Except PyError α} {f : α → Except PyError β} {b : β} :
    x >>= f = .ok b ↔ ∃ a, x = .ok a ∧ f a = .ok b := by
  cases x with
  | error r => exact ⟨fun h => (by cases h), fun ⟨_, h, _⟩ => (by cases h)⟩
  | ok a => exact ⟨fun h => ⟨a, rfl, h⟩, fun ⟨_, h, h'⟩ => (by cases h; exact h')⟩

theorem mapM_ok {α β : Type} {f : α → Except PyError β} : ∀ {l : List α} {bs : List β},
    l.mapM f = .ok bs ↔ List.Forall₂ (fun a b => f a = .ok b) l bs := by
  intro l
  induction l with
  | nil =>
    intro bs
    rw [List.mapM_nil]
    constructor
    · intro h; cases h; exact .nil
    · intro h; cases h; rfl
  | cons a l ih =>
    intro bs
    rw [List.mapM_cons, bind_ok]
    constructor
    · rintro ⟨b, hb, h⟩
      obtain ⟨bs', hbs, h⟩ := bind_ok.1 h
      cases h
      exact .cons hb (ih.1 hbs)
    · intro h
      cases h with
      | cons hb hbs => exact ⟨_, hb, bind_ok.2 ⟨_, ih.2 hbs, rfl⟩⟩

/-- Each of what `mapM` answers was answered for one of the list. -/
theorem mapM_mem {α β : Type} {f : α → Except PyError β} : ∀ {l : List α} {bs : List β},
    l.mapM f = .ok bs → ∀ b ∈ bs, ∃ a ∈ l, f a = .ok b := by
  intro l bs h
  have hall := mapM_ok.1 h
  clear h
  induction hall with
  | nil => intro b hb; cases hb
  | cons hab _ ih =>
    intro b hb
    rcases List.mem_cons.1 hb with rfl | hb
    · exact ⟨_, List.mem_cons_self, hab⟩
    · obtain ⟨a, ha, hf⟩ := ih b hb
      exact ⟨a, List.mem_cons_of_mem _ ha, hf⟩

/-- `mapM` answers for each of the list. -/
theorem mapM_mem_left {α β : Type} {f : α → Except PyError β} : ∀ {l : List α} {bs : List β},
    l.mapM f = .ok bs → ∀ a ∈ l, ∃ b ∈ bs, f a = .ok b := by
  intro l bs h
  have hall := mapM_ok.1 h
  clear h
  induction hall with
  | nil => intro a ha; cases ha
  | cons hab _ ih =>
    intro a ha
    rcases List.mem_cons.1 ha with rfl | ha
    · exact ⟨_, List.mem_cons_self, hab⟩
    · obtain ⟨b, hb, hf⟩ := ih a ha
      exact ⟨b, List.mem_cons_of_mem _ hb, hf⟩

theorem mapM_total {α β : Type} {f : α → Except PyError β} : ∀ {l : List α},
    (∀ a ∈ l, ∃ b, f a = .ok b) → ∃ bs, l.mapM f = .ok bs := by
  intro l
  induction l with
  | nil => intro _; exact ⟨[], rfl⟩
  | cons a l ih =>
    intro h
    obtain ⟨b, hb⟩ := h a List.mem_cons_self
    obtain ⟨bs, hbs⟩ := ih fun a' ha' => h a' (List.mem_cons_of_mem _ ha')
    exact ⟨b :: bs, mapM_ok.2 (.cons hb (mapM_ok.1 hbs))⟩

/-! ## Reading an entry -/

theorem requireInvalid_onlyInvalid (ok : Bool) (message : String) :
    OnlyInvalid (requireInvalid ok message) := by
  unfold requireInvalid require
  split
  · exact .ok _
  · exact .raise _

theorem checkBody_onlyInvalid (kind : Str) (body : Members) : OnlyInvalid (checkBody kind body) := by
  unfold checkBody
  repeat' first | exact .ok _ | exact .invalid _ | exact .raise _ | split

/-- The readers of one member answer it or raise `InvalidBundle`. -/
theorem readers_onlyInvalid (value : Json) (entry : Members) (key : String) :
    OnlyInvalid (readObject value) ∧ OnlyInvalid (requireMembers entry) ∧
    OnlyInvalid (readSequence entry) ∧ OnlyInvalid (readPrevious entry) ∧
    OnlyInvalid (readHash entry) ∧ OnlyInvalid (textMember entry key) ∧
    OnlyInvalid (readObjects entry) ∧ OnlyInvalid (requirePrincipal entry) := by
  unfold readObject requireMembers readSequence readPrevious readHash textMember readObjects
    requirePrincipal
  refine ⟨?_, ?_, ?_, ?_, ?_, ?_, ?_, ?_⟩ <;>
    repeat' first | exact .ok _ | exact .invalid _ | split

/-- **Reading an entry raises `InvalidBundle` or nothing.** -/
theorem readEntry_onlyInvalid (value : Json) : OnlyInvalid (readEntry value) := by
  have readers := fun (entry : Members) (key : String) => readers_onlyInvalid value entry key
  unfold readEntry
  refine (readers [] "").1.bind fun entry => ?_
  obtain ⟨-, hmembers, hseq, hprev, hhash, -, hobjects, -⟩ := readers entry ""
  have htext := fun key => (readers entry key).2.2.2.2.2.1
  refine hmembers.bind fun _ => hseq.bind fun _ => hprev.bind fun _ => ?_
  refine (requireInvalid_onlyInvalid _ _).bind fun _ => (requireInvalid_onlyInvalid _ _).bind fun _ => ?_
  refine hhash.bind fun _ => (htext _).bind fun _ => (htext _).bind fun _ => (htext _).bind fun _ => ?_
  refine (htext _).bind fun _ => (htext _).bind fun _ => hobjects.bind fun objects => ?_
  refine ((readers objects.1 "").2.2.2.2.2.2.2).bind fun _ => ?_
  exact (checkBody_onlyInvalid _ _).bind fun _ => .pure _

theorem requireInvalid_ok {ok : Bool} {message : String} (h : requireInvalid ok message = .ok ()) :
    ok = true := by
  unfold requireInvalid require at h
  split at h
  · assumption
  · cases h

theorem readSequence_ok {entry : Members} {n : ℤ} (h : readSequence entry = .ok n) : 1 ≤ n := by
  unfold readSequence at h
  split at h
  · split at h
    · rename_i hn; cases h; exact hn
    · cases h
  · cases h

/-- **What an entry that was read satisfies.** -/
theorem readEntry_ok {value : Json} {e : Entry} (h : readEntry value = .ok e) :
    1 ≤ e.sequence ∧ (1 < e.sequence → e.previousHash.isSome = true) ∧
      checkBody e.kind e.body = .ok () := by
  unfold readEntry at h
  obtain ⟨entry, -, h⟩ := bind_ok.1 h
  obtain ⟨-, -, h⟩ := bind_ok.1 h
  obtain ⟨sequence, hseq, h⟩ := bind_ok.1 h
  obtain ⟨previousHash, -, h⟩ := bind_ok.1 h
  obtain ⟨-, -, h⟩ := bind_ok.1 h
  obtain ⟨_, hlater, h⟩ := bind_ok.1 h
  obtain ⟨entryHash, -, h⟩ := bind_ok.1 h
  obtain ⟨scope, -, h⟩ := bind_ok.1 h
  obtain ⟨kind, -, h⟩ := bind_ok.1 h
  obtain ⟨recordedAt, -, h⟩ := bind_ok.1 h
  obtain ⟨connectionId, -, h⟩ := bind_ok.1 h
  obtain ⟨version, -, h⟩ := bind_ok.1 h
  obtain ⟨⟨principal, body⟩, -, h⟩ := bind_ok.1 h
  obtain ⟨-, -, h⟩ := bind_ok.1 h
  obtain ⟨_, hbody, h⟩ := bind_ok.1 h
  cases h
  refine ⟨readSequence_ok hseq, fun hlt => ?_, hbody⟩
  have := requireInvalid_ok hlater
  simpa [hlt] using this

/-! ## Order -/

theorem outOfOrder_false {α : Type} {sequence : α → ℤ} : ∀ {l : List α},
    outOfOrder sequence l = false ↔ l.Pairwise fun a b => sequence a < sequence b := by
  intro l
  induction l with
  | nil => simp [outOfOrder]
  | cons a rest ih =>
    cases rest with
    | nil => simp [outOfOrder]
    | cons b rest =>
      unfold outOfOrder
      rw [Bool.or_eq_false_iff, ih, decide_eq_false_iff_not]
      constructor
      · rintro ⟨hab, hrest⟩
        refine List.pairwise_cons.2 ⟨fun c hc => ?_, hrest⟩
        rcases List.mem_cons.1 hc with rfl | hc
        · omega
        · have := (List.pairwise_cons.1 hrest).1 c hc
          omega
      · intro h
        obtain ⟨hfirst, hrest⟩ := List.pairwise_cons.1 h
        have := hfirst b List.mem_cons_self
        exact ⟨by omega, hrest⟩

/-! ## Gap counts -/

/-- Every gap of `entries` counts with a number `int` reads. -/
def CountsReadable (py : Interpreter) (entries : List Entry) : Prop :=
  ∀ e ∈ entries, e.kind = lit "gap" → ∃ n, gapCount py e = .ok n

variable {py : Interpreter}

theorem declaredGaps_ok : ∀ {entries : List Entry},
    (∃ gaps, declaredGaps py entries = .ok gaps) ↔ CountsReadable py entries := by
  intro entries
  induction entries with
  | nil =>
    exact ⟨fun _ e he => (by cases he), fun _ => ⟨[], rfl⟩⟩
  | cons e rest ih =>
    unfold declaredGaps CountsReadable
    by_cases hk : e.kind = lit "gap"
    · rw [if_pos hk]
      constructor
      · rintro ⟨gaps, h⟩
        obtain ⟨n, hn, h⟩ := bind_ok.1 h
        obtain ⟨gaps', hrest, -⟩ := bind_ok.1 h
        intro e' he' hk'
        rcases List.mem_cons.1 he' with rfl | he'
        · exact ⟨n, hn⟩
        · exact ih.1 ⟨gaps', hrest⟩ e' he' hk'
      · intro h
        obtain ⟨n, hn⟩ := h e List.mem_cons_self hk
        obtain ⟨gaps, hgaps⟩ := ih.2 fun e' he' => h e' (List.mem_cons_of_mem _ he')
        exact ⟨_, bind_ok.2 ⟨n, hn, bind_ok.2 ⟨gaps, hgaps, rfl⟩⟩⟩
    · rw [if_neg hk, ih]
      constructor
      · intro h e' he' hk'
        rcases List.mem_cons.1 he' with rfl | he'
        · exact absurd hk' hk
        · exact h e' he' hk'
      · intro h e' he'
        exact h e' (List.mem_cons_of_mem _ he')

theorem toInt_error {value : Json} {raised : PyError} (h : value.toInt py = .error raised) :
    ∀ reason, raised ≠ .invalidBundle reason := by
  unfold Json.toInt at h
  repeat' first | split at h | (cases h <;> (intro reason hr; cases hr))

/-- A count that cannot be read raises something else than `InvalidBundle`. -/
theorem declaredGaps_error : ∀ {entries : List Entry} {raised : PyError},
    declaredGaps py entries = .error raised → ∀ reason, raised ≠ .invalidBundle reason := by
  intro entries
  induction entries with
  | nil => intro raised h; cases h
  | cons e rest ih =>
    intro raised h
    unfold declaredGaps at h
    split at h
    · cases hcount : gapCount py e with
      | error r =>
        rw [hcount] at h
        cases h
        unfold gapCount at hcount
        split at hcount
        · exact toInt_error hcount
        · cases hcount
          intro reason hr
          cases hr
      | ok n =>
        rw [hcount] at h
        cases hrest : declaredGaps py rest with
        | error r =>
          rw [hrest] at h
          cases h
          exact ih hrest
        | ok gaps =>
          rw [hrest] at h
          cases h
    · exact ih h

/-! ## Verdicts -/

/-- The scope and the range `verify_chain` accepts. -/
def ValidRange (scope : Str) (lo : ℤ) (hi : Option ℤ) : Prop :=
  Plane.scopePattern.fullmatch scope = true ∧ 1 ≤ lo ∧ ∀ t, hi = some t → lo ≤ t

/-- What `verify_chain` reports on entries that were read. -/
def told (py : Interpreter) (read : List Entry) (scope : Str) (lo : ℤ) (hi : Option ℤ) :
    Report Entry :=
  if read.any (fun e => e.scope != scope) ∨ outOfOrder Entry.sequence read then
    ⟨.unverifiable, none, none, none, none, []⟩
  else report (entryView py) Entry.preimageVersion read (Chain.scan (entryView py) lo hi read)

variable {read : List Entry} {scope : Str} {lo : ℤ} {hi : Option ℤ} {lowered : List Str}

theorem ValidRange.range (h : ValidRange scope lo hi) :
    ¬(lo < 1 ∨ hi.any (· < lo) = true) := by
  obtain ⟨-, hlo, hhi⟩ := h
  rintro (h | h)
  · omega
  · cases hi with
    | none => cases h
    | some t =>
      have := hhi t rfl
      simp only [Option.any_some, decide_eq_true_eq] at h
      omega

theorem verifyRead_valid (h : ValidRange scope lo hi) :
    verifyRead py read scope lo hi lowered =
      verdictOf py read scope lo lowered (told py read scope lo hi) := by
  unfold verifyRead told
  rw [h.1, if_neg (by simp), if_neg h.range]
  split <;> rfl

theorem verifyChain_valid {documents : List Json} (h : ValidRange scope lo hi) :
    verifyChain py documents scope lo hi lowered =
      (documents.mapM readEntry >>= fun read => verifyRead py read scope lo hi lowered) := by
  unfold verifyChain
  rw [h.1, if_neg (by simp), if_neg h.range]

theorem verifyRead_invalid (h : ¬ ValidRange scope lo hi) :
    ∃ reason, verifyRead py read scope lo hi lowered = .error (.invalidBundle reason) := by
  unfold verifyRead
  split
  · exact ⟨_, rfl⟩
  · rename_i hs
    split
    · exact ⟨_, rfl⟩
    · rename_i hr
      simp only [not_or] at hr
      refine absurd ⟨by simpa using hs, by omega, fun t ht => ?_⟩ h
      subst ht
      have := hr.2
      simpa using this

theorem verdictOf_ok {report : Report Entry} {v : ChainVerdict}
    (h : verdictOf py read scope lo lowered report = .ok v) :
    v.condition = report.condition ∧ v.sequence = report.sequence ∧ CountsReadable py read := by
  unfold verdictOf at h
  obtain ⟨gaps, hgaps, h⟩ := bind_ok.1 h
  cases h
  exact ⟨rfl, rfl, declaredGaps_ok.1 ⟨gaps, hgaps⟩⟩

theorem verdictOf_total {report : Report Entry} (h : CountsReadable py read) :
    ∃ v, verdictOf py read scope lo lowered report = .ok v := by
  obtain ⟨gaps, hgaps⟩ := declaredGaps_ok.2 h
  unfold verdictOf
  exact ⟨_, bind_ok.2 ⟨gaps, hgaps, rfl⟩⟩

theorem verdictOf_error {report : Report Entry} {raised : PyError}
    (h : verdictOf py read scope lo lowered report = .error raised) :
    ∀ reason, raised ≠ .invalidBundle reason := by
  unfold verdictOf at h
  cases hgaps : declaredGaps py read with
  | error r =>
    rw [hgaps] at h
    cases h
    exact declaredGaps_error hgaps
  | ok gaps =>
    rw [hgaps] at h
    cases h

/-- **A verdict on entries that were read.** -/
theorem verifyRead_ok {v : ChainVerdict} (h : verifyRead py read scope lo hi lowered = .ok v) :
    ValidRange scope lo hi ∧ CountsReadable py read ∧
      v.condition = (told py read scope lo hi).condition ∧
      v.sequence = (told py read scope lo hi).sequence := by
  by_cases hv : ValidRange scope lo hi
  · rw [verifyRead_valid hv] at h
    obtain ⟨hc, hs, hcount⟩ := verdictOf_ok h
    exact ⟨hv, hcount, hc, hs⟩
  · have hinvalid : ∃ reason, verifyRead py read scope lo hi lowered =
        .error (.invalidBundle reason) := verifyRead_invalid hv
    obtain ⟨reason, hr⟩ := hinvalid
    rw [hr] at h
    cases h

/-- What is reported with a sequence or as intact was scanned in order. -/
theorem told_scanned (h : (told py read scope lo hi).condition = .intact ∨
      (told py read scope lo hi).sequence.isSome = true) :
    (∀ e ∈ read, e.scope = scope) ∧ Chain.Rising (entryView py) read ∧
      told py read scope lo hi =
        report (entryView py) Entry.preimageVersion read (Chain.scan (entryView py) lo hi read) := by
  unfold told at h ⊢
  split at h
  · rcases h with h | h <;> cases h
  · rename_i hno
    simp only [not_or, Bool.not_eq_true] at hno
    refine ⟨?_, outOfOrder_false.1 hno.2, ?_⟩
    · simpa using hno.1
    · rw [if_neg (by simp [hno.1, hno.2])]

/-- The sequence a report names is the one the scan found. -/
theorem report_sequence {α : Type} (v : Chain.View α) (version : α → Str) (entries : List α)
    (f : Chain.Finding α) : (report v version entries f).sequence = f.names v := by
  cases f <;> rfl

theorem report_intact {α : Type} {v : Chain.View α} {version : α → Str} {entries : List α}
    {f : Chain.Finding α} (h : (report v version entries f).condition = .intact) : f = .intact := by
  cases f <;> first | rfl | cases h

end SayFirst.Contract
