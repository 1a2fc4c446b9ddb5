import SayFirst.Lib.Reference
import SayFirst.Proof.Recipes
import SayFirst.Spec.Evidence

/-!
# The control plane's verifier and the contract's

An entry the control plane admits is read back from its document by `readEntry`,
unless it is one of two kinds the contract does not know. What is read renders the
same preimage, so the two verifiers scan one chain.

* `checkBody_held` — the body rules of the two, kind by kind.
* `readEntry_document` — which documents are read, and what is read of them.
* `verifiers_agree` — the verdicts are equal exactly when every entry can be read.
-/

namespace SayFirst

open Py Evidence Contract

/-! ## Instants -/

theorem decimalAux_digits : ∀ {k n : ℕ} {acc : Str},
    (∀ c ∈ acc, c < 58) → ∀ c ∈ decimalAux k n acc, c < 58 := by
  intro k
  induction k with
  | zero => intro n acc h; exact h
  | succ k ih =>
    intro n acc h c hc
    unfold decimalAux at hc
    split at hc
    · rcases List.mem_cons.1 hc with rfl | hc
      · omega
      · exact h c hc
    · refine ih (fun c hc => ?_) c hc
      rcases List.mem_cons.1 hc with rfl | hc
      · omega
      · exact h c hc

theorem padded_digits {width n : ℕ} : ∀ c ∈ padded width n, c < 58 := by
  intro c hc
  unfold padded at hc
  rcases List.mem_append.1 hc with hc | hc
  · rw [List.eq_of_mem_replicate hc]
    omega
  · exact decimalAux_digits (fun c hc => by cases hc) c hc

/-- No `Z` stands in an instant before its end. -/
theorem stem_ne {c : Civil} : ∀ d ∈ c.stem, d ≠ 90 := by
  intro d hd
  unfold Civil.stem at hd
  simp only [List.mem_append, List.mem_cons, or_assoc] at hd
  have digits := fun width n (h : d ∈ padded width n) => padded_digits d h
  rcases hd with h | rfl | h | rfl | h | rfl | h | rfl | h | rfl | h
  all_goals first | omega | (have hdigit := digits _ _ h; omega)

/-- `value.replace("Z", "+00:00")` of an instant's text. -/
theorem text_replaced (c : Civil) :
    c.text.flatMap (fun d => if d = 90 then lit "+00:00" else [d]) = c.isoformat := by
  have hstem : c.stem.flatMap (fun d => if d = 90 then lit "+00:00" else [d]) = c.stem := by
    calc c.stem.flatMap (fun d => if d = 90 then lit "+00:00" else [d])
        = c.stem.flatMap fun d => [d] := by
          refine List.flatMap_congr fun d hd => ?_
          rw [if_neg (stem_ne d hd)]
      _ = c.stem := List.flatMap_singleton' c.stem
  rw [Civil.text, List.flatMap_append, hstem]
  rfl

/-- `fromisoformat` reads what `isoformat` writes of the instant. -/
def ReadsBack (py : Interpreter) (i : Instant) : Prop :=
  ∀ c, i.utc = some c → py.fromIso c.isoformat = some (some ⟨some c⟩)

theorem renderInstant_text {py : Interpreter} {i : Instant} {text : Str} (hlaw : ReadsBack py i)
    (h : Plane.renderInstant i = some text) : Contract.renderInstant py text = some text := by
  obtain ⟨c, hc, rfl⟩ := Option.map_eq_some_iff.1 h
  unfold Contract.renderInstant
  rw [text_replaced, hlaw c hc]
  rfl

/-! ## Principals -/

theorem principalDocument_obj {py : Interpreter} {kind id : Str} {via : List Json} :
    principalDocument py (.obj [(lit "kind", .str kind), (lit "id", .str id),
      (lit "via", .arr via)]) =
      (principalDocuments py via).map fun via =>
        .obj [(lit "kind", .str kind), (lit "id", .str id), (lit "via", .arr via)] := by
  have hvia : viaDocuments py [(lit "kind", .str kind), (lit "id", .str id),
      (lit "via", .arr via)] = principalDocuments py via := by
    simp [viaDocuments]
  unfold principalDocument
  rw [hvia]
  have hkind : Json.get [(lit "kind", .str kind), (lit "id", .str id), (lit "via", .arr via)]
      "kind" = some (.str kind) := rfl
  have hid : Json.get [(lit "kind", .str kind), (lit "id", .str id), (lit "via", .arr via)]
      "id" = some (.str id) := rfl
  rw [hkind, hid]
  cases principalDocuments py via <;> rfl

mutual

/-- A principal's document is its own. -/
theorem principalDocument_toDocument (py : Interpreter) : ∀ p : Plane.EvidencePrincipal,
    principalDocument py p.toDocument = some p.toDocument
  | .mk kind id via => by
    simp only [Plane.EvidencePrincipal.toDocument]
    rw [principalDocument_obj, principalDocuments_toDocuments py via]
    rfl

theorem principalDocuments_toDocuments (py : Interpreter) : ∀ ps : List Plane.EvidencePrincipal,
    principalDocuments py (Plane.EvidencePrincipal.toDocument.toDocuments ps) =
      some (Plane.EvidencePrincipal.toDocument.toDocuments ps)
  | [] => rfl
  | p :: ps => by
    simp only [Plane.EvidencePrincipal.toDocument.toDocuments, principalDocuments]
    rw [principalDocument_toDocument py p, principalDocuments_toDocuments py ps]

end

/-! ## What the control plane admits -/

theorem hold_ok {ok : Bool} {message : String} :
    Plane.EvidenceBody.hold ok message = .ok () ↔ ok = true := by
  unfold Plane.EvidenceBody.hold require
  cases ok <;> simp

/-- What `__post_init__` leaves of an entry, as far as the contract asks. -/
structure Admitted (e : Plane.EntryFields) : Prop where
  scope : e.scope ≠ []
  kind : ∃ k ∈ Plane.entryKinds, e.kind = lit k
  connection : e.connectionId ≠ []
  required : ∀ k ∈ Plane.bodyRequired e.kind, has e.body k = true
  body : Plane.EvidenceBody.validateBody e.kind e.body = .ok ()
  sequence : 1 ≤ e.sequence
  genesis : (!(e.sequence = 1 && e.previousHash.isSome)) = true
  later : (!(1 < e.sequence && e.previousHash.isNone)) = true
  previous : ∀ h, e.previousHash = some h → hashPattern.fullmatch h = true
  hash : hashPattern.fullmatch e.entryHash = true

theorem Admitted.kind_ne {e : Plane.EntryFields} (h : Admitted e) : e.kind ≠ [] := by
  obtain ⟨k, hk, heq⟩ := h.kind
  rw [heq]
  simp only [Plane.entryKinds, List.mem_cons, List.not_mem_nil, or_false] at hk
  rcases hk with rfl | rfl | rfl | rfl | rfl <;> decide

theorem admitted (e : Plane.EvidenceEntry) : Admitted e.toEntryFields := by
  obtain ⟨_, hrecord, h⟩ := bind_ok.1 e.held
  obtain ⟨_, hseq, h⟩ := bind_ok.1 h
  obtain ⟨_, hgenesis, h⟩ := bind_ok.1 h
  obtain ⟨_, hlater, h⟩ := bind_ok.1 h
  obtain ⟨_, hprev, hhash⟩ := bind_ok.1 h
  obtain ⟨_, hscope, h⟩ := bind_ok.1 hrecord
  obtain ⟨_, hkind, h⟩ := bind_ok.1 h
  obtain ⟨_, hconn, h⟩ := bind_ok.1 h
  obtain ⟨_, -, h⟩ := bind_ok.1 h
  obtain ⟨_, -, h⟩ := bind_ok.1 h
  obtain ⟨_, hreq, hbody⟩ := bind_ok.1 h
  refine ⟨?_, ?_, ?_, ?_, hbody, ?_, hold_ok.1 hgenesis, hold_ok.1 hlater, ?_, hold_ok.1 hhash⟩
  · simpa using hold_ok.1 hscope
  · simpa using hold_ok.1 hkind
  · simpa using hold_ok.1 hconn
  · exact List.all_eq_true.1 (hold_ok.1 hreq)
  · simpa using hold_ok.1 hseq
  · intro hash heq
    have := hold_ok.1 hprev
    rw [heq] at this
    exact this

/-! ## Bodies -/

/-- A baseline marker: the control plane's own kind of recovery. -/
def Baseline (e : Plane.EntryFields) : Prop :=
  e.kind = lit "recovery" ∧ (Json.get e.body "event").any (·.eqText "baseline") = true

instance (e : Plane.EntryFields) : Decidable (Baseline e) := inferInstanceAs (Decidable (_ ∧ _))

variable {body : Members}

theorem item_ok {key : String} {value : Json} :
    Plane.EvidenceBody.item body key = .ok value ↔ Json.get body key = some value := by
  unfold Plane.EvidenceBody.item
  cases Json.get body key <;> simp

/-- The body checks of the contract, one by one. -/
theorem checkBody_iff {kind : Str} : checkBody kind body = .ok () ↔
    (∀ k ∈ Contract.bodyRequired kind, has body k = true) ∧
    (kind = lit "gap" → (Json.get body "reason").any (·.isOneOf gapReasons) = true) ∧
    (kind = lit "recovery" →
      (Json.get body "event").any (·.isOneOf Contract.recoveryEvents) = true ∧
      ∀ k ∈ ["from_sequence", "through_sequence"],
        (Json.get body k).any (·.plainInt?.isSome) = true) := by
  unfold checkBody
  cases hmissing : (Contract.bodyRequired kind).find? fun k => !has body k with
  | some missing =>
    have hlacks := List.find?_some hmissing
    have hmem := List.mem_of_find?_eq_some hmissing
    refine ⟨fun h => (by cases h), fun ⟨h, _⟩ => ?_⟩
    rw [h missing hmem] at hlacks
    cases hlacks
  | none =>
    have hall : ∀ k ∈ Contract.bodyRequired kind, has body k = true := by
      intro k hk
      simpa using List.find?_eq_none.1 hmissing k hk
    refine Iff.trans ?_ (and_iff_right hall).symm
    simp only
    by_cases hgap : kind = lit "gap"
    · subst hgap
      by_cases hreason : (Json.get body "reason").any (·.isOneOf gapReasons) = true
      · simp [hreason]
      · simp [hreason, invalid]
    · by_cases hrec : kind = lit "recovery"
      · subst hrec
        by_cases hevent : (Json.get body "event").any (·.isOneOf Contract.recoveryEvents) = true
        · cases hfind : ["from_sequence", "through_sequence"].find? fun k =>
              !(Json.get body k).any (·.plainInt?.isSome) with
          | some k =>
            have hno := List.find?_some hfind
            have hmem := List.mem_of_find?_eq_some hfind
            simp only [hgap, hevent, false_and, if_false, if_true, Bool.not_true,
              Bool.false_eq_true]
            refine ⟨fun h => (by cases h), fun h => ?_⟩
            rw [(h.2 trivial).2 k hmem] at hno
            cases hno
          | none =>
            have hints : ∀ k ∈ ["from_sequence", "through_sequence"],
                (Json.get body k).any (·.plainInt?.isSome) = true := by
              intro k hk
              simpa using List.find?_eq_none.1 hfind k hk
            simp only [hgap, hevent, false_and, if_false, if_true, Bool.not_true,
              Bool.false_eq_true, true_and]
            exact ⟨fun _ => ⟨fun h => absurd h (by decide), fun _ => hints⟩, fun _ => trivial⟩
        · simp [hevent, invalid]
      · simp [hgap, hrec]

/-- What an admitted recovery marker says. -/
theorem validateRecovery_ok (h : Plane.EvidenceBody.validateRecovery body = .ok ()) :
    ∃ event, Json.get body "event" = some event ∧ event.isOneOf Plane.recoveryEvents = true ∧
      (∀ k ∈ Plane.recoveryRequired event, has body k = true) ∧
      ∀ k ∈ ["from_sequence", "through_sequence"],
        (Json.get body k).all (·.plainInt?.any (1 ≤ ·)) = true := by
  obtain ⟨event, hevent, h⟩ := bind_ok.1 h
  obtain ⟨_, hknown, h⟩ := bind_ok.1 h
  obtain ⟨_, hreq, h⟩ := bind_ok.1 h
  obtain ⟨_, hseq, -⟩ := bind_ok.1 h
  refine ⟨event, item_ok.1 hevent, hold_ok.1 hknown, List.all_eq_true.1 (hold_ok.1 hreq), ?_⟩
  obtain ⟨_, hfrom, hseq⟩ := bind_ok.1 hseq
  obtain ⟨_, hthrough, -⟩ := bind_ok.1 hseq
  intro k hk
  simp only [List.mem_cons, List.not_mem_nil, or_false] at hk
  rcases hk with rfl | rfl
  · exact hold_ok.1 hfrom
  · exact hold_ok.1 hthrough

theorem eqText_iff {value : Json} {t : String} : value.eqText t = true ↔ value = .str (lit t) := by
  unfold Json.eqText
  cases value <;> simp [Json.str?]

/-- **The body rules of the two**: the contract has no baseline, and asks nothing else that the
control plane does not. -/
theorem checkBody_held {e : Plane.EntryFields} (h : Admitted e) :
    checkBody e.kind e.body = .ok () ↔ ¬ Baseline e := by
  rw [checkBody_iff]
  obtain ⟨k, hk, hkind⟩ := h.kind
  have hreq := h.required
  have hbody := h.body
  unfold Baseline
  rw [hkind] at hreq hbody ⊢
  obtain ⟨_, -, hbody⟩ := bind_ok.1 hbody
  simp only [Plane.entryKinds, List.mem_cons, List.not_mem_nil, or_false] at hk
  rcases hk with rfl | rfl | rfl | rfl | rfl
  · simpa [Contract.bodyRequired, Plane.bodyRequired] using hreq
  · simpa [Contract.bodyRequired, Plane.bodyRequired] using hreq
  · obtain ⟨reason, hreason, hgap⟩ := bind_ok.1 hbody
    obtain ⟨_, hknown, -⟩ := bind_ok.1 hgap
    have hone := hold_ok.1 hknown
    rw [item_ok.1 hreason]
    simpa [Contract.bodyRequired, Plane.bodyRequired, hone] using hreq
  · simpa [Contract.bodyRequired, Plane.bodyRequired] using hreq
  · obtain ⟨event, hevent, hknown, hmembers, hints⟩ := validateRecovery_ok hbody
    rw [hevent]
    simp only [Option.any_some, true_and, forall_const]
    constructor
    · rintro ⟨-, -, hone, -⟩ hbase
      rw [eqText_iff.1 hbase] at hone
      revert hone
      decide
    · intro hbase
      have hone : event.isOneOf Contract.recoveryEvents = true := by
        simpa [Json.isOneOf, Plane.recoveryEvents, Contract.recoveryEvents, hbase] using hknown
      have hthree : ∀ k ∈ ["epoch_id", "from_sequence", "through_sequence"],
          has e.body k = true := by
        intro k hk
        refine hmembers k ?_
        unfold Plane.recoveryRequired
        rw [if_neg hbase]
        split
        · exact hk
        · exact List.mem_append_left
            ["lost_event_count", "possibly_lost_kinds", "coverage"] hk
      refine ⟨?_, fun hgap => absurd hgap (by decide), hone, fun k hk => ?_⟩
      · have hgiven : has e.body "event" = true := by
          unfold has
          rw [hevent]
          rfl
        simpa [Contract.bodyRequired, hgiven] using hthree
      · obtain ⟨value, hvalue⟩ := Option.isSome_iff_exists.1
          (hthree k (List.mem_cons_of_mem _ hk))
        have hint := hints k hk
        rw [hvalue] at hint ⊢
        simp only [Option.all_some, Option.any_some] at hint ⊢
        cases hn : value.plainInt? with
        | some n => rfl
        | none => rw [hn] at hint; cases hint

/-! ## Documents -/

/-- The members of `principal_to_document`. -/
def principalMembers : Plane.EvidencePrincipal → Members
  | .mk kind id via => [(lit "kind", .str kind), (lit "id", .str id),
      (lit "via", .arr (Plane.EvidencePrincipal.toDocument.toDocuments via))]

theorem principalMembers_obj (p : Plane.EvidencePrincipal) :
    .obj (principalMembers p) = p.toDocument := by
  cases p; rfl

/-- What the contract reads of an entry's document. -/
def readOf (e : Plane.EntryFields) : Entry where
  scope := e.scope
  kind := e.kind
  recordedAt := (Plane.renderInstant e.recordedAt).getD []
  connectionId := e.connectionId
  principal := principalMembers e.principal
  body := e.body
  sequence := e.sequence
  previousHash := e.previousHash
  entryHash := e.entryHash
  preimageVersion := e.preimageVersion

theorem readOf_kind (e : Plane.EntryFields) : (readOf e).kind = e.kind := rfl

theorem textMember_str {document : Members} {key : String} {s : Str} (hs : s ≠ [])
    (h : Json.get document key = some (.str s)) : Contract.textMember document key = .ok s := by
  unfold Contract.textMember
  rw [h]
  cases s with
  | nil => exact absurd rfl hs
  | cons c cs => rfl

/-- Whether the contract reads the entry: its recipe has a name and its kind is known there. -/
def Readable (e : Plane.EntryFields) : Prop := ¬ Baseline e ∧ e.preimageVersion ≠ []

theorem renderInstant_ne {i : Instant} {text : Str} (h : Plane.renderInstant i = some text) :
    text ≠ [] := by
  obtain ⟨c, -, rfl⟩ := Option.map_eq_some_iff.1 h
  simp [Civil.text]

/-- **What is read of the document of an admitted entry, and when.** -/
theorem readEntry_document {e : Plane.EntryFields} {document : Members} {read : Entry}
    (h : Admitted e) (hdoc : Plane.entryToDocument e = some document) :
    readEntry (.obj document) = .ok read ↔ Readable e ∧ read = readOf e := by
  obtain ⟨text, htext, hdoc⟩ := Option.bind_eq_some_iff.1 hdoc
  cases hdoc
  generalize hdocument : ([(lit "scope", Json.str e.scope), (lit "kind", .str e.kind),
    (lit "recorded_at", .str text), (lit "connection_id", .str e.connectionId),
    (lit "principal", e.principal.toDocument), (lit "body", .obj e.body),
    (lit "sequence", .int e.sequence), (lit "previous_hash", .ofOption .str e.previousHash),
    (lit "entry_hash", .str e.entryHash), (lit "preimage_version", .str e.preimageVersion)] :
    Members) = document
  have hmembers : requireMembers document = .ok () := by subst hdocument; rfl
  have hsequence : readSequence document = .ok e.sequence := by
    have hget : Json.get document "sequence" = some (.int e.sequence) := by
      subst hdocument; rfl
    unfold readSequence
    rw [hget]
    exact if_pos h.sequence
  have hprevious : readPrevious document = .ok e.previousHash := by
    have hget : Json.get document "previous_hash" = some (.ofOption .str e.previousHash) := by
      subst hdocument; rfl
    unfold readPrevious
    rw [hget]
    cases hp : e.previousHash with
    | none => rfl
    | some hash => exact if_pos (h.previous hash hp)
  have hhash : readHash document = .ok e.entryHash := by
    have hget : Json.get document "entry_hash" = some (.str e.entryHash) := by
      subst hdocument; rfl
    unfold readHash
    rw [hget]
    exact if_pos h.hash
  have htextMember : ∀ key s, s ≠ [] → Json.get document key = some (.str s) →
      Contract.textMember document key = .ok s := fun key s hs hget => textMember_str hs hget
  have hscope := htextMember "scope" e.scope h.scope (by subst hdocument; rfl)
  have hkind := htextMember "kind" e.kind h.kind_ne (by subst hdocument; rfl)
  have hrecorded := htextMember "recorded_at" text (renderInstant_ne htext)
    (by subst hdocument; rfl)
  have hconnection := htextMember "connection_id" e.connectionId h.connection
    (by subst hdocument; rfl)
  have hobjects : readObjects document = .ok (principalMembers e.principal, e.body) := by
    have hprincipal : Json.get document "principal" = some (.obj (principalMembers e.principal)) := by
      subst hdocument
      rw [principalMembers_obj]
      rfl
    have hbody : Json.get document "body" = some (.obj e.body) := by subst hdocument; rfl
    unfold readObjects
    rw [hprincipal, hbody]
  have hprincipal : requirePrincipal (principalMembers e.principal) = .ok () := by
    cases e.principal; rfl
  have hversion : Json.get document "preimage_version" = some (.str e.preimageVersion) := by
    subst hdocument; rfl
  have hread : readEntry (.obj document) =
      (Contract.textMember document "preimage_version" >>= fun version =>
        checkBody e.kind e.body >>= fun _ => .ok { readOf e with preimageVersion := version }) := by
    have hgenesis := h.genesis
    have hlater := h.later
    unfold readEntry requireInvalid require
    simp only [readObject, hmembers, hsequence, hprevious, hgenesis, hlater, hhash, hscope, hkind,
      hrecorded, hconnection, hobjects, hprincipal, bind, Except.bind, if_true, pure, Except.pure,
      readOf, htext, Option.getD_some]
  rw [hread, Readable, ← checkBody_held h]
  unfold Contract.textMember
  rw [hversion]
  cases hv : e.preimageVersion with
  | nil =>
    simp only [ne_eq, not_true, and_false, false_and, iff_false]
    intro hraised
    cases hraised
  | cons c cs =>
    have hsame : { readOf e with preimageVersion := c :: cs } = readOf e := by
      rw [← hv]
      rfl
    change (checkBody e.kind e.body >>= fun _ => .ok { readOf e with preimageVersion := c :: cs }) =
      .ok read ↔ _
    rw [hsame, bind_ok]
    constructor
    · rintro ⟨_, hbody, hok⟩
      exact ⟨⟨hbody, List.cons_ne_nil c cs⟩, (Except.ok.inj hok).symm⟩
    · rintro ⟨⟨hbody, -⟩, rfl⟩
      exact ⟨(), hbody, rfl⟩

/-! ## One chain, two lists -/

variable {py : Interpreter}

/-- The two take one hash of an entry. -/
theorem entryHashOf_readOf {e : Plane.EntryFields} {document : Members}
    (hdoc : Plane.entryToDocument e = some document) (hlaw : ReadsBack py e.recordedAt) :
    Contract.entryHashOf py (readOf e) = Plane.entryHashOf py e := by
  obtain ⟨text, htext, -⟩ := Option.bind_eq_some_iff.1 hdoc
  unfold Contract.entryHashOf Plane.entryHashOf Contract.preimage Plane.preimage
  have hrecorded : Contract.renderInstant py (readOf e).recordedAt = some text := by
    rw [readOf, htext]
    exact renderInstant_text hlaw htext
  have hprincipal : principalDocument py (.obj (readOf e).principal) =
      some e.principal.toDocument := by
    rw [← principalDocument_toDocument py e.principal, ← principalMembers_obj]
    rfl
  rw [hrecorded, hprincipal, htext]
  rfl

/-- The two read one thing of an entry. -/
theorem sameReading {e : Plane.EvidenceEntry} {document : Members}
    (hdoc : Plane.entryToDocument e.toEntryFields = some document)
    (hlaw : ReadsBack py e.recordedAt) :
    Chain.SameReading (Plane.entryView py) (Contract.entryView py)
      (fun e : Plane.EvidenceEntry => readOf e.toEntryFields) e where
  sequence := rfl
  known := rfl
  recomputed := entryHashOf_readOf hdoc hlaw
  hash := rfl
  previous := rfl

/-! ## Verdicts -/

/-- A report that grades the images. -/
def reportMap {α β : Type} (f : α → β) (r : Report α) : Report β :=
  ⟨r.condition, r.sequence, r.expected, r.found, r.version, r.graded.map f⟩

theorem report_map {entries : List Plane.EvidenceEntry} (finding : Chain.Finding Plane.EvidenceEntry) :
    report (Contract.entryView py) Entry.preimageVersion
        (entries.map fun e => readOf e.toEntryFields) (finding.map fun e => readOf e.toEntryFields) =
      reportMap (fun e => readOf e.toEntryFields)
        (report (Plane.entryView py) (·.preimageVersion) entries finding) := by
  cases finding <;> simp only [report, reportMap, Chain.Finding.map, List.map_take, List.map_nil] <;> rfl

theorem toInt_int {value : Json} {n : ℤ} (h : value.int? = some n) : value.toInt py = .ok n := by
  cases value <;> first | (cases h; rfl) | cases h

theorem isOneOf_str {value : Json} {options : List String} (h : value.isOneOf options = true) :
    ∃ t ∈ options, value = .str (lit t) := by
  obtain ⟨t, ht, heq⟩ := List.any_eq_true.1 h
  exact ⟨t, ht, eqText_iff.1 heq⟩

/-- What an admitted gap says. -/
theorem validateGap_ok (h : Plane.EvidenceBody.validateGap body = .ok ()) :
    ∃ reason count n, Json.get body "reason" = some reason ∧ reason.isOneOf gapReasons = true ∧
      Json.get body "count" = some count ∧ count.int? = some n := by
  obtain ⟨reason, hreason, h⟩ := bind_ok.1 h
  obtain ⟨_, hknown, h⟩ := bind_ok.1 h
  obtain ⟨count, hcount, h⟩ := bind_ok.1 h
  obtain ⟨_, hpositive, -⟩ := bind_ok.1 h
  have hint := hold_ok.1 hpositive
  cases hn : count.int? with
  | none => rw [hn] at hint; cases hint
  | some n => exact ⟨reason, count, n, item_ok.1 hreason, hold_ok.1 hknown, item_ok.1 hcount, hn⟩

/-- What an admitted grade says. -/
theorem validateGrade_ok (h : Plane.EvidenceBody.validateGrade body = .ok ()) :
    ∃ grade, Json.get body "grade" = some grade ∧ grade.isOneOf Contract.grades = true := by
  obtain ⟨grade, hgrade, h⟩ := bind_ok.1 h
  obtain ⟨known, hknown, h⟩ := bind_ok.1 h
  obtain ⟨_, hheld, -⟩ := bind_ok.1 h
  refine ⟨grade, item_ok.1 hgrade, ?_⟩
  unfold Plane.EvidenceBody.inSet at hknown
  split at hknown
  · cases hknown
  · cases hknown
    exact hold_ok.1 hheld

/-- The branch of the body rules an admitted gap passed. -/
theorem Admitted.gap {e : Plane.EntryFields} (h : Admitted e) (hk : e.kind = lit "gap") :
    Plane.EvidenceBody.validateGap e.body = .ok () := by
  have hbody := h.body
  rw [hk] at hbody
  obtain ⟨_, -, hbody⟩ := bind_ok.1 hbody
  exact hbody

theorem Admitted.grade {e : Plane.EntryFields} (h : Admitted e) (hk : e.kind = lit "grade") :
    Plane.EvidenceBody.validateGrade e.body = .ok () := by
  have hbody := h.body
  rw [hk] at hbody
  obtain ⟨_, -, hbody⟩ := bind_ok.1 hbody
  exact hbody

/-- The two declare one list of gaps. -/
theorem declaredGaps_map : ∀ {entries : List Plane.EvidenceEntry},
    Contract.declaredGaps py (entries.map fun e => readOf e.toEntryFields) =
      .ok ((entries.filter fun e => e.kind = lit "gap").map fun e =>
        ⟨e.sequence, (Json.getStr e.body "reason").getD [],
          ((Json.get e.body "count").bind Json.int?).getD 0⟩) := by
  intro entries
  induction entries with
  | nil => rfl
  | cons e rest ih =>
    rw [List.map_cons, declaredGaps]
    by_cases hk : e.kind = lit "gap"
    · obtain ⟨reason, count, n, hreason, hknown, hcount, hn⟩ := validateGap_ok ((admitted e).gap hk)
      obtain ⟨t, -, rfl⟩ := isOneOf_str hknown
      have hgap : gapCount py (readOf e.toEntryFields) = .ok n := by
        unfold gapCount readOf
        rw [hcount]
        exact toInt_int hn
      rw [readOf_kind, if_pos hk, hgap, ih, List.filter_cons_of_pos (by simpa using hk), List.map_cons]
      unfold Json.getStr
      rw [hreason, hcount, Option.bind_some, hn]
      have hread : Json.get (readOf e.toEntryFields).body "reason" = some (.str (lit t)) := hreason
      rw [hread]
      rfl
    · rw [readOf_kind, if_neg hk, ih, List.filter_cons_of_neg (by simpa using hk)]

/-- The two hold one entry to one grade. -/
theorem declaredGrade_readOf {e : Plane.EvidenceEntry} :
    declaredGrade py (readOf e.toEntryFields) =
      if e.kind = lit "grade" then (Json.get e.body "grade").bind Json.str? else none := by
  unfold declaredGrade
  by_cases hk : e.kind = lit "grade"
  · obtain ⟨grade, hgrade, hknown⟩ := validateGrade_ok ((admitted e).grade hk)
    obtain ⟨t, ht, rfl⟩ := isOneOf_str hknown
    have hread : Json.get (readOf e.toEntryFields).body "grade" = some (.str (lit t)) := hgrade
    have hmem : grades.any (fun k => lit t == lit k) = true :=
      List.any_eq_true.2 ⟨t, ht, beq_self_eq_true _⟩
    rw [readOf_kind, if_pos hk, if_pos hk, hread, hgrade]
    simp only [Option.map_some, Option.bind_some, Json.text, hmem, if_true]
    rfl
  · rw [readOf_kind, if_neg hk, if_neg hk]

/-- The two grade the connections alike. -/
theorem gradesOf_map {entries : List Plane.EvidenceEntry} :
    Contract.gradesOf py (entries.map fun e => readOf e.toEntryFields) [] =
      Plane.gradesOf entries [] := by
  unfold Contract.gradesOf Plane.gradesOf
  simp only [List.foldl_map, declaredGrade_readOf]
  rfl

/-- **The two tell one verdict.** -/
theorem verdictOf_map {entries : List Plane.EvidenceEntry} {scope : Str} {lo : ℤ}
    {told : Report Plane.EvidenceEntry} :
    Contract.verdictOf py (entries.map fun e => readOf e.toEntryFields) scope lo []
        (reportMap (fun e => readOf e.toEntryFields) told) =
      .ok (Plane.verdictOf entries scope lo [] told) := by
  unfold Contract.verdictOf Plane.verdictOf
  have hlast : ((entries.map fun e => readOf e.toEntryFields).getLast?).map Entry.sequence =
      entries.getLast?.map (·.sequence) := by
    rw [List.getLast?_map, Option.map_map]
    rfl
  have hempty : (entries.map fun e => readOf e.toEntryFields).isEmpty = entries.isEmpty :=
    List.isEmpty_map
  rw [declaredGaps_map, hlast, hempty]
  simp only [reportMap, gradesOf_map]
  rfl

/-! ## The two verifiers -/

/-- The two verifiers answer, and answer alike. -/
def Agree (py : Interpreter) (entries : List Plane.EvidenceEntry) (documents : List Members)
    (scope : Str) (lo : ℤ) (hi : Option ℤ) : Prop :=
  ∃ v, Plane.verify py entries scope lo hi [] = .ok v ∧
    verifyChain py (documents.map Json.obj) scope lo hi [] = .ok v

/-- The documents of entries, and the law of the library about their instants. -/
structure Documents (py : Interpreter) (entries : List Plane.EvidenceEntry)
    (documents : List Members) : Prop where
  written : entries.mapM (fun e => Plane.entryToDocument e.toEntryFields) = some documents
  readsBack : ∀ e ∈ entries, ReadsBack py e.recordedAt

variable {entries : List Plane.EvidenceEntry} {documents : List Members} {scope : Str} {lo : ℤ}
  {hi : Option ℤ}

theorem mapM_some {α β : Type} {f : α → Option β} : ∀ {l : List α} {bs : List β},
    l.mapM f = some bs → List.Forall₂ (fun a b => f a = some b) l bs := by
  intro l
  induction l with
  | nil => intro bs h; cases h; exact .nil
  | cons a l ih =>
    intro bs h
    rw [List.mapM_cons] at h
    obtain ⟨b, hb, h⟩ := Option.bind_eq_some_iff.1 h
    obtain ⟨bs', hbs, h⟩ := Option.bind_eq_some_iff.1 h
    cases h
    exact .cons hb (ih hbs)

theorem forall₂_left {α β : Type} {R : α → β → Prop} {l : List α} {bs : List β}
    (h : List.Forall₂ R l bs) : ∀ a ∈ l, ∃ b, R a b := by
  induction h with
  | nil => intro a ha; cases ha
  | cons hab _ ih =>
    intro a ha
    rcases List.mem_cons.1 ha with rfl | ha
    · exact ⟨_, hab⟩
    · exact ih a ha

/-- The documents are read exactly when every entry can be. -/
theorem readEntry_documents {read : List Entry}
    (h : List.Forall₂ (fun (e : Plane.EvidenceEntry) d =>
      Plane.entryToDocument e.toEntryFields = some d) entries documents) :
    (documents.map Json.obj).mapM readEntry = .ok read ↔
      (∀ e ∈ entries, Readable e.toEntryFields) ∧
        read = entries.map fun e => readOf e.toEntryFields := by
  rw [mapM_ok]
  induction h generalizing read with
  | nil =>
    constructor
    · intro hr
      cases hr
      exact ⟨fun e he => (by cases he), rfl⟩
    · rintro ⟨-, rfl⟩
      exact .nil
  | @cons e d entries documents hd _ ih =>
    constructor
    · intro hr
      cases hr with
      | cons hfirst hrest =>
        obtain ⟨hreadable, rfl⟩ := (readEntry_document (admitted e) hd).1 hfirst
        obtain ⟨hall, rfl⟩ := ih.1 hrest
        refine ⟨fun e' he' => ?_, rfl⟩
        rcases List.mem_cons.1 he' with rfl | he'
        · exact hreadable
        · exact hall e' he'
    · rintro ⟨hall, rfl⟩
      refine .cons ((readEntry_document (admitted e) hd).2 ⟨hall e List.mem_cons_self, rfl⟩) ?_
      exact ih.2 ⟨fun e' he' => hall e' (List.mem_cons_of_mem _ he'), rfl⟩

/-- The control plane answers what the scan of its entries reports. -/
theorem verify_valid (hof : ∀ e ∈ entries, e.scope = scope)
    (hrise : entries.Pairwise fun a b => a.sequence < b.sequence)
    (hvalid : ValidRange scope lo hi) {grades : List (Str × Str)} :
    Plane.verify py entries scope lo hi grades =
      .ok (Plane.verdictOf entries scope lo grades (report (Plane.entryView py) (·.preimageVersion)
        entries (Chain.scan (Plane.entryView py) lo hi entries))) := by
  have hempty : scope.isEmpty = false := by
    cases scope with
    | nil => exact absurd hvalid.1 (by decide)
    | cons c cs => rfl
  have hrange := hvalid.range
  rw [not_or] at hrange
  have hother : entries.any (fun e => e.scope != scope) = false := by
    rw [List.any_eq_false]
    intro e he
    simpa using hof e he
  have horder : outOfOrder (fun e : Plane.EvidenceEntry => e.sequence) entries = false :=
    outOfOrder_false.2 hrise
  unfold Plane.verify
  rw [hempty, hother, horder, if_neg (by simp), if_neg hrange.1, if_neg hrange.2,
    if_neg (by simp), if_neg (by simp)]

/-- Of entries it can read, the contract tells what the control plane tells. -/
theorem verifyRead_readOf (hdocs : Documents py entries documents)
    (hof : ∀ e ∈ entries, e.scope = scope)
    (hrise : entries.Pairwise fun a b => a.sequence < b.sequence)
    (hvalid : ValidRange scope lo hi) :
    verifyRead py (entries.map fun e => readOf e.toEntryFields) scope lo hi [] =
      Plane.verify py entries scope lo hi [] := by
  have hsame : ∀ e ∈ entries, Chain.SameReading (Plane.entryView py) (Contract.entryView py)
      (fun e : Plane.EvidenceEntry => readOf e.toEntryFields) e := by
    intro e he
    obtain ⟨d, hd⟩ := forall₂_left (mapM_some hdocs.written) e he
    exact sameReading hd (hdocs.readsBack e he)
  have hother : (entries.map fun e => readOf e.toEntryFields).any (fun e => e.scope != scope) =
      false := by
    rw [List.any_map, List.any_eq_false]
    intro e he
    have hscope : (readOf e.toEntryFields).scope = scope := hof e he
    simp [hscope]
  have horder : outOfOrder Entry.sequence (entries.map fun e => readOf e.toEntryFields) = false := by
    rw [outOfOrder_false, List.pairwise_map]
    exact hrise
  rw [verifyRead_valid hvalid, verify_valid hof hrise hvalid, told, hother, horder,
    if_neg (by simp), Chain.scan_map hsame, report_map, verdictOf_map]

/-- **The two verifiers agree exactly on what the contract can read.** -/
theorem verifiers_agree (hdocs : Documents py entries documents)
    (hof : ∀ e ∈ entries, e.scope = scope)
    (hrise : entries.Pairwise fun a b => a.sequence < b.sequence)
    (hvalid : ValidRange scope lo hi) :
    Agree py entries documents scope lo hi ↔ ∀ e ∈ entries, Readable e.toEntryFields := by
  have hread : ∀ read, (documents.map Json.obj).mapM readEntry = .ok read ↔ _ :=
    fun read => readEntry_documents (mapM_some hdocs.written)
  have hverify := verifyRead_readOf hdocs hof hrise hvalid
  unfold Agree
  rw [verifyChain_valid hvalid]
  constructor
  · rintro ⟨v, -, hcontract⟩
    obtain ⟨read, hr, -⟩ := bind_ok.1 hcontract
    exact ((hread read).1 hr).1
  · intro hall
    have hplane := hverify.trans (verify_valid hof hrise hvalid)
    exact ⟨_, verify_valid hof hrise hvalid, bind_ok.2 ⟨_, (hread _).2 ⟨hall, rfl⟩, hplane⟩⟩

/-- The two agree on a list of components. -/
theorem verifiers_agree_composition : ∃ documents,
    Agree reference [Plane.sampleEntry] documents (lit "local") 1 (some 1) ↔
      ∀ e ∈ [Plane.sampleEntry], Readable e.toEntryFields := by
  have hreads : ∀ e ∈ [Plane.sampleEntry], ReadsBack reference e.recordedAt := by
    intro e he c hc
    rw [List.mem_singleton.1 he] at hc
    cases hc
    decide +kernel
  exact ⟨_, verifiers_agree ⟨rfl, hreads⟩ (by simp [Plane.sampleEntry]) (by simp)
    ⟨by decide +kernel, by decide, by simp⟩⟩

/-- The marker a scope's chain begins with, as the control plane records it. -/
def baselineEntry : Plane.EvidenceEntry where
  scope := lit "local"
  kind := lit "recovery"
  recordedAt := ⟨some ⟨2026, 1, 5, 10, 0, 0, Civil.sample.held⟩⟩
  connectionId := Plane.daemonConnection
  principal := .mk (lit "service") (lit "daemon") []
  body := [(lit "event", .str (lit "baseline")), (lit "recording_epoch", .str (lit "e1")),
    (lit "store_id", .str (lit "s1")), (lit "first_decision_position", .int 1),
    (lit "first_covered_sequence", .int 1), (lit "legacy_effects_without_authority", .int 0),
    (lit "established_at", .str (lit "2026-01-05T10:00:00Z"))]
  sequence := 1
  previousHash := none
  entryHash := lit "97b3583f42954504e1a37ba9f3a9ca09876fd00949bff78819ea38ca3382c1e8"
  preimageVersion := Evidence.preimageVersion
  held := by decide +kernel

/-- **The two disagree**: a chain's baseline is intact to the control plane and no entry to the
contract. -/
theorem verifiers_disagree :
    (∃ v, Plane.verify reference [baselineEntry] (lit "local") 1 (some 1) [] = .ok v ∧
      v.condition = .intact) ∧
    ∃ document, Plane.entryToDocument baselineEntry.toEntryFields = some document ∧
      verifyChain reference [.obj document] (lit "local") 1 (some 1) [] =
        .error (.invalidBundle (lit "a recovery body lacks epoch_id")) := by
  constructor
  · have hverdict : ((Plane.verify reference [baselineEntry] (lit "local") 1 (some 1)
        []).toOption.map ChainVerdict.condition) = some .intact := by decide +kernel
    obtain ⟨v, hv, hcondition⟩ := Option.map_eq_some_iff.1 hverdict
    exact ⟨v, ok_of_toOption hv, hcondition⟩
  · exact ⟨_, rfl, rfl⟩

end SayFirst
