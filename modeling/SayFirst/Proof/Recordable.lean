import SayFirst.Lib.Reference
import SayFirst.Proof.Grammar
import SayFirst.Proof.Redecide
import SayFirst.Spec.Effect

/-!
# What is committed and what can be recorded

The schema, the service and the evidence record each hold a decision to patterns
of their own.

* `validate_asked` — what `_validate` leaves of an ask.
* `references_recordable` — the references of a decision are sorted, unique and
  well formed.
* `committed_recordable` — the effect of a committed decision is accepted exactly
  when its digest has no newline behind it.
-/

namespace SayFirst.Plane

open Py JsonSchema PolicyFile

variable {host : Composition} {levels : ℕ}

/-! ## The ask -/

/-- What `_validate` leaves of an ask. -/
structure Asked (ask : DecisionAsk) : Prop where
  capability_ne : ask.capability ≠ []
  scope_ne : ask.scope ≠ []
  digest : ∀ digest, ask.argumentsDigest = some digest → search digestLine digest = true
  correlation : ∀ correlation, ask.correlation = some correlation → correlation.length ≤ 128

theorem meetsString_of_valid {s : Schema} {x : Str} (h : valid searched s (.str x) = true) :
    meetsString searched s x = true := by
  rw [valid, meets, Bool.and_eq_true] at h
  exact h.2

theorem ne_nil_of_meets {s : Schema} {x : Str} (hmin : s.minLength = some 1)
    (h : meetsString searched s x = true) : x ≠ [] := by
  rintro rfl
  simp only [meetsString, hmin, Bool.and_eq_true] at h
  exact absurd h.1.1.1 (by decide)

/-- An ask `_validate` has no complaint of is what the schema says, as `re.search` reads it. -/
theorem validate_asked {question : DecisionQuestion} (h : question.validate levels = .ok none) :
    Asked question.ask := by
  have hjudged := @refuse_judged levels question.ask.document decisionAskRequest []
  have hrefuse : refuse levels decisionAskRequest question.ask.document [] = .ok none := h
  rw [hrefuse] at hjudged
  have hvalid : valid searched decisionAskRequest question.ask.document = true := hjudged.2
  unfold DecisionAsk.document at hvalid
  rw [valid, Bool.and_eq_true] at hvalid
  have hmember : ∀ {name x s}, (name, Json.str x) ∈ _ →
      decisionAskRequest.properties.lookup name = some s → meetsString searched s x = true :=
    fun hmem hlookup => meetsString_of_valid (validMembers_iff.1 hvalid.2 _ hmem _ hlookup)
  refine ⟨?_, ?_, ?_, ?_⟩
  · exact ne_nil_of_meets rfl (@hmember (lit "capability") _ _ (by simp) rfl)
  · exact ne_nil_of_meets rfl (@hmember (lit "scope") _ _ (by simp) rfl)
  · intro digest hdigest
    have := @hmember (lit "arguments_digest") digest _ (by simp [hdigest]) rfl
    simp only [meetsString, Bool.and_eq_true, Option.all_some] at this
    exact this.1.2
  · intro correlation hcorrelation
    have := @hmember (lit "correlation") correlation _ (by simp [hcorrelation]) rfl
    simp only [meetsString, Bool.and_eq_true, Option.all_some, decide_eq_true_eq] at this
    exact this.1.1.2

/-! ## The policy -/

/-- Every rule of a policy was read by `_rule`. -/
theorem rulesFrom_rule {bound : ℤ} : ∀ {raws : List Toml} {index : ℕ} {rules : List Rule},
    rulesFrom bound index raws = .ok rules →
      ∀ r ∈ rules, ∃ raw index, PolicyFile.rule raw index bound = .ok r := by
  intro raws
  induction raws with
  | nil =>
    intro index rules h r hr
    cases h
    cases hr
  | cons raw raws ih =>
    intro index rules h r hr
    unfold rulesFrom at h
    cases hfirst : PolicyFile.rule raw index bound with
    | error e => rw [hfirst] at h; cases h
    | ok first =>
      cases hrest : rulesFrom bound (index + 1) raws with
      | error e => rw [hfirst, hrest] at h; cases h
      | ok rest =>
        rw [hfirst, hrest] at h
        cases h
        rcases List.mem_cons.1 hr with rfl | hr
        · exact ⟨raw, index, hfirst⟩
        · exact ih hrest r hr

theorem parsePolicy_rule {toml : TomlLib} {raw : List UInt8} {bound : ℤ} {policy : Policy}
    (h : parsePolicy toml raw bound = .ok policy) :
    ∀ r ∈ policy.rules, ∃ raw index, PolicyFile.rule raw index bound = .ok r := by
  unfold parsePolicy at h
  split at h
  · cases h
  split at h
  · cases h
  split at h
  · split at h
    · cases h
    rename_i reason rules hbody
    cases h
    unfold PolicyFile.parseBody at hbody
    simp only [bind, Except.bind, pure, Except.pure, throw, throwThe, MonadExceptOf.throw] at hbody
    split at hbody <;> [skip; cases hbody]
    split at hbody <;> [cases hbody; skip]
    split at hbody <;> [cases hbody; skip]
    split at hbody <;> [skip; cases hbody]
    split at hbody <;> [cases hbody; rename_i parsed hparsed]
    split at hbody <;> [cases hbody; skip]
    cases hbody
    exact rulesFrom_rule hparsed
  · cases h

/-- A principal of a rule has a name, without control characters. -/
theorem principal_named {raw : Toml} {member : Str} {p : PrincipalReference}
    (h : principal raw member = .ok p) : p.name ≠ [] ∧ hasControl p.name = false := by
  unfold principal at h
  cases raw with
  | str s =>
    simp only at h
    split at h
    · cases h
    split at h
    · cases h
    rename_i hname
    simp only [Bool.or_eq_true, decide_eq_true_eq, not_or, Bool.not_eq_true,
      List.isEmpty_eq_false_iff] at hname
    split at h
    · cases h
      exact ⟨hname.1.1, hname.2⟩
    split at h
    · cases h
      exact ⟨hname.1.1, hname.2⟩
    · cases h
  | _ => cases h

theorem mapM_principal {member : Str} : ∀ {raws : List Toml} {refs : List PrincipalReference},
    raws.mapM (fun value => principal value member) = .ok refs →
      ∀ p ∈ refs, p.name ≠ [] ∧ hasControl p.name = false := by
  intro raws
  induction raws with
  | nil =>
    intro refs h p hp
    cases h
    cases hp
  | cons raw raws ih =>
    intro refs h p hp
    rw [List.mapM_cons] at h
    cases hfirst : principal raw member with
    | error e => rw [hfirst] at h; cases h
    | ok first =>
      cases hrest : raws.mapM (fun value => principal value member) with
      | error e => rw [hfirst, hrest] at h; cases h
      | ok rest =>
        rw [hfirst, hrest] at h
        cases h
        rcases List.mem_cons.1 hp with rfl | hp
        · exact principal_named hfirst
        · exact ih hrest p hp

/-- A reference with a name of one line is one the record admits. -/
theorem reference_fullmatch {p : PrincipalReference} (hne : p.name ≠ [])
    (hline : hasControl p.name = false) : referencePattern.fullmatch p.text = true := by
  have hcls : ∀ c ∈ p.name, (c != 10) = true := by
    intro c hc
    rw [bne_iff_ne]
    rintro rfl
    rw [hasControl, List.any_eq_false] at hline
    exact absurd (hline 10 hc) (by decide)
  have hname : (Pattern.seq (.cls (· != 10)) (.star (.cls (· != 10)))).fullmatch p.name = true := by
    obtain ⟨c, cs, hcs⟩ := List.exists_cons_of_ne_nil hne
    rw [hcs] at hcls ⊢
    refine @Pattern.fullmatch_seq _ _ [c] cs ?_ (Pattern.fullmatch_star_cls fun d hd =>
      hcls d (List.mem_cons_of_mem _ hd))
    change (Pattern.deriv c (.cls (· != 10))).nullable = true
    rw [Pattern.deriv, if_pos (hcls c List.mem_cons_self)]
    rfl
  have htext : p.text = (p.kind.value ++ [58]) ++ p.name := by
    simp [PrincipalReference.text]
  rw [htext, referencePattern]
  refine Pattern.fullmatch_seq ?_ hname
  cases p.kind <;> decide

/-- **The references of a decision** are sorted, unique and well formed. -/
theorem references_recordable {raw : List UInt8} {policy : Policy}
    (h : parsePolicy host.toml raw host.maxLifetimeSeconds = .ok policy)
    (question : DecisionQuestion) :
    EvidenceBody.sortedReferences (.arr ((referencesRead policy question).map .str)) = true := by
  have htexts : EvidenceBody.texts ((referencesRead policy question).map .str) =
      some (referencesRead policy question) := by
    unfold EvidenceBody.texts
    induction referencesRead policy question with
    | nil => rfl
    | cons t ts ih => rw [List.map_cons, List.mapM_cons, ih]; rfl
  have hsorted : sortedSet (referencesRead policy question) = referencesRead policy question :=
    sortedSet_sortedSet _
  have hmatch : ∀ t ∈ referencesRead policy question, referencePattern.fullmatch t = true := by
    intro t ht
    unfold referencesRead at ht
    obtain ⟨-, hnamed⟩ := List.mem_filter.1 (mem_sortedSet.1 ht)
    obtain ⟨r, hr, ht⟩ := List.mem_flatMap.1 (List.contains_iff_mem.1 hnamed)
    obtain ⟨p, hp, rfl⟩ := List.mem_map.1 ht
    obtain ⟨raw, index, hrule⟩ := parsePolicy_rule h r (List.mem_filter.1 hr).1
    obtain ⟨_, _, -, -, -, -, -, -, -, -, -, -, hprincipals, -⟩ := rule_inv hrule
    obtain ⟨hne, hline⟩ := mapM_principal hprincipals p hp
    exact reference_fullmatch hne hline
  simp only [EvidenceBody.sortedReferences, htexts, Option.any_some, hsorted, beq_self_eq_true,
    Bool.and_true, List.all_eq_true]
  exact hmatch

theorem select_ruleId {applying : List Rule} {v : Verdict} :
    ∀ {order : List (Outcome × Reason)}, select applying order = some v →
      ∃ r ∈ applying, v.ruleId = some r.ruleId := by
  intro order
  induction order with
  | nil => intro h; cases h
  | cons o rest ih =>
    obtain ⟨outcome, reason⟩ := o
    intro h
    simp only [select] at h
    split at h
    · rename_i r hfind
      cases h
      exact ⟨r, List.mem_of_find?_eq_some hfind, rfl⟩
    · exact ih h

/-- A verdict names no rule, or one whose id is not empty. -/
theorem ruleId_recordable {raw : List UInt8} {policy : Policy} {question : DecisionQuestion}
    {v : Verdict} (h : parsePolicy host.toml raw host.maxLifetimeSeconds = .ok policy)
    (hv : evaluate policy question = .ok v) :
    EvidenceBody.nullOr Json.isText (.ofOption .str v.ruleId) = true := by
  unfold evaluate at hv
  simp only at hv
  split at hv
  · cases hv
    rfl
  · split at hv
    · rename_i hselect
      cases hv
      obtain ⟨r, hr, hid⟩ := select_ruleId hselect
      obtain ⟨raw, index, hrule⟩ := parsePolicy_rule h r (List.mem_filter.1 hr).1
      obtain ⟨_, _, -, -, -, -, hmatch, -⟩ := rule_inv hrule
      rw [hid]
      cases hname : r.ruleId with
      | nil => rw [hname] at hmatch; exact absurd hmatch (by decide)
      | cons c cs => rfl
    · cases hv

/-! ## The record -/

open EvidenceBody in
/-- The body of an effect is refused for its digest, or not at all. -/
theorem validateBody_effect {capability decisionId decidedAt version epoch store : Str}
    {outcome : Outcome} {reason : Reason} {ruleId digest correlation : Option Str}
    {references : List Json} {position : ℤ} (hcapability : capability ≠ [])
    (hdecision : decisionId ≠ []) (hdecided : decidedAt ≠ []) (hversion : version ≠ [])
    (hepoch : epoch ≠ []) (hstore : store ≠ []) (hposition : 1 ≤ position)
    (hrule : nullOr Json.isText (.ofOption .str ruleId) = true)
    (hcorrelation : ∀ c, correlation = some c → c.length ≤ 128)
    (hreferences : sortedReferences (.arr references) = true) :
    validateBody (lit "effect") [(lit "capability", .str capability),
      (lit "decision_id", .str decisionId), (lit "outcome", .str outcome.value),
      (lit "decided_at", .str decidedAt), (lit "policy_version", .str version),
      (lit "recording_epoch", .str epoch), (lit "reason", .str reason.value),
      (lit "rule_id", .ofOption .str ruleId), (lit "arguments_digest", .ofOption .str digest),
      (lit "correlation", .ofOption .str correlation),
      (lit "correlation_source", .str (if correlation.isNone then lit "absent"
        else lit "boundary_supplied")),
      (lit "principal_references", .arr references),
      (lit "evaluation_recipe", .str evaluationRecipe),
      (lit "decision_position",
        .obj [(lit "store_id", .str store), (lit "position", .int position)])] =
      hold (nullOr (·.str?.any digestPattern.fullmatch) (.ofOption .str digest))
        "effect arguments_digest must be a sha256 digest or null" := by
  have houtcome : inSet (.str outcome.value) ["allow", "deny", "suspend"] = .ok true := by
    cases outcome <;> decide
  have hreason : inSet (.str reason.value) publishedReasons = .ok true := by
    cases reason <;> decide
  have hlength : nullOr (·.str?.any (·.length ≤ 128)) (.ofOption .str correlation) = true := by
    cases correlation with
    | none => rfl
    | some c =>
      change decide (c.length ≤ 128) = true
      exact decide_eq_true (hcorrelation c rfl)
  have hplace : validatePosition
      (.obj [(lit "store_id", .str store), (lit "position", .int position)]) = .ok () := by
    obtain ⟨c, cs, rfl⟩ := List.exists_cons_of_ne_nil hstore
    have hpos : decide (1 ≤ position) = true := decide_eq_true hposition
    unfold validatePosition
    refine if_pos ?_
    change (true && true && decide (1 ≤ position)) = true
    rw [hpos]
    rfl
  have htext : ∀ {x : Str}, x ≠ [] → (Json.str x).isText = true := by
    intro x hx
    obtain ⟨c, cs, rfl⟩ := List.exists_cons_of_ne_nil hx
    rfl
  generalize hbody : [(lit "capability", Json.str capability), _, _, _, _, _, _, _, _, _, _, _, _,
    _] = body
  have hget : ∀ {key value}, Json.get body key = some value → item body key = .ok value := by
    intro key value h
    rw [item, h]
  have h1 : item body "capability" = .ok (.str capability) := hget (by subst hbody; rfl)
  have h2 : item body "decision_id" = .ok (.str decisionId) := hget (by subst hbody; rfl)
  have h3 : item body "outcome" = .ok (.str outcome.value) := hget (by subst hbody; rfl)
  have h4 : item body "decided_at" = .ok (.str decidedAt) := hget (by subst hbody; rfl)
  have h5 : item body "policy_version" = .ok (.str version) := hget (by subst hbody; rfl)
  have h7 : item body "reason" = .ok (.str reason.value) := hget (by subst hbody; rfl)
  have h8 : item body "rule_id" = .ok (.ofOption .str ruleId) := hget (by subst hbody; rfl)
  have h9 : item body "arguments_digest" = .ok (.ofOption .str digest) :=
    hget (by subst hbody; rfl)
  have h10 : item body "correlation" = .ok (.ofOption .str correlation) :=
    hget (by subst hbody; rfl)
  have h11 : item body "correlation_source" = .ok (.str (if correlation.isNone then lit "absent"
      else lit "boundary_supplied")) := hget (by subst hbody; rfl)
  have h12 : item body "principal_references" = .ok (.arr references) :=
    hget (by subst hbody; rfl)
  have h13 : item body "evaluation_recipe" = .ok (.str evaluationRecipe) :=
    hget (by subst hbody; rfl)
  have h14 : item body "decision_position" =
      .ok (.obj [(lit "store_id", .str store), (lit "position", .int position)]) :=
    hget (by subst hbody; rfl)
  have hepochs : (Json.get body "recording_epoch").all Json.isText = true := by
    subst hbody
    exact htext hepoch
  have hcapture : captureMember body = .ok () := by subst hbody; rfl
  have hpresent : present body effectDecisionMembers = effectDecisionMembers := by
    subst hbody
    rfl
  have hcopied : validateCopiedDecision body =
      hold (nullOr (·.str?.any digestPattern.fullmatch) (.ofOption .str digest))
        "effect arguments_digest must be a sha256 digest or null" := by
    unfold validateCopiedDecision
    rw [hpresent, if_neg (by decide)]
    simp only [h7, h8, h9, h10, h11, h12, h13, h14, hreason, hrule, hlength, hreferences,
      hplace, htext (show evaluationRecipe ≠ [] by decide), bind, Except.bind, hold, require,
      beq_self_eq_true, if_true]
    cases nullOr (·.str?.any digestPattern.fullmatch) (.ofOption .str digest) with
    | false => rfl
    | true =>
      -- who chose the correlation is told by whether there is one
      cases correlation <;> rfl
  have htexts : ["capability", "decision_id", "decided_at", "policy_version"].forM
      (textMember body "effect ") = .ok () := by
    simp only [List.forM, textMember, h1, h2, h4, h5, htext hcapability, htext hdecision,
      htext hdecided, htext hversion, bind, Except.bind, hold, require, if_true, pure, Except.pure]
  unfold validateBody validateEffect
  simp only [hepochs, htexts, h3, houtcome, hcapture, hcopied, bind, Except.bind, hold, require,
    if_true]

theorem recordedEffect_eq {py : Interpreter} {a : Asking} {consulted : Option Consulted}
    {grantId : Option Str} {epoch store : Str} {position : ℤ} {civil : Civil}
    (hclock : py.fromIso (host.instant a.now) = some (some ⟨some civil⟩)) :
    recordedEffect py epoch (recordedDecision host a consulted grantId) (some (store, position)) =
      some [(lit "capability", .str a.question.ask.capability),
        (lit "decision_id", .str a.decisionRef),
        (lit "outcome", .str ((consulted.map Consulted.outcome).getD a.verdict.outcome).value),
        (lit "decided_at", .str civil.text),
        (lit "policy_version", .str (policyVersion host a.content)),
        (lit "recording_epoch", .str epoch),
        (lit "reason", .str ((consulted.map Consulted.reason).getD a.verdict.reason).value),
        (lit "rule_id", .ofOption .str a.verdict.ruleId),
        (lit "arguments_digest", .ofOption .str a.question.ask.argumentsDigest),
        (lit "correlation", .ofOption .str a.question.ask.correlation),
        (lit "correlation_source", .str (if a.question.ask.correlation.isNone then lit "absent"
          else lit "boundary_supplied")),
        (lit "principal_references", .arr ((referencesRead a.policy a.question).map .str)),
        (lit "evaluation_recipe", .str evaluationRecipe),
        (lit "decision_position",
          .obj [(lit "store_id", .str store), (lit "position", .int position)])] := by
  have hstamp : py.fromIso (recordedDecision host a consulted grantId).decidedAt =
      some (some ⟨some civil⟩) := hclock
  unfold recordedEffect effectDecision
  rw [hstamp]
  rfl

theorem text_ne (civil : Civil) : civil.text ≠ [] := by
  unfold Civil.text
  exact List.append_ne_nil_of_right_ne_nil _ (List.cons_ne_nil _ _)

/-- What the schema admits of a digest and the record does not ends in a newline. -/
theorem digest_recordable {ask : DecisionAsk} (h : Asked ask) :
    EvidenceBody.nullOr (·.str?.any digestPattern.fullmatch) (.ofOption .str ask.argumentsDigest) =
        true ↔
      ∀ digest, ask.argumentsDigest = some digest → digest.getLast? ≠ some 10 := by
  cases hdigest : ask.argumentsDigest with
  | none => simp [Json.ofOption, EvidenceBody.nullOr]
  | some digest =>
    change digestPattern.fullmatch digest = true ↔ _
    rw [show digestPattern = digestLine.body from rfl, fullmatch_iff_search]
    simp only [h.digest digest hdigest, true_and, Option.some.injEq, forall_eq']

/-- The record of a decision is accepted exactly when its digest has no newline behind it. -/
theorem Recording.accepts_iff (r : Recording) {py : Interpreter} {a : Asking}
    {consulted : Option Consulted} {grantId : Option Str} {civil : Civil}
    (hdecided : a.Decided host) (hasked : Asked a.question.ask) (hid : a.decisionRef ≠ [])
    (hclock : py.fromIso (host.instant a.now) = some (some ⟨some civil⟩)) :
    r.Accepts py (recordedDecision host a consulted grantId) ↔
      ∀ digest, a.question.ask.argumentsDigest = some digest → digest.getLast? ≠ some 10 := by
  have hscope : (!a.question.ask.scope.isEmpty) = true := by
    rw [Bool.not_eq_true', List.isEmpty_eq_false_iff]
    exact hasked.scope_ne
  have hconnection : (!r.connectionId.isEmpty) = true := by
    rw [Bool.not_eq_true', List.isEmpty_eq_false_iff]
    exact r.connection_ne
  have hversion : policyVersion host a.content ≠ [] :=
    List.append_ne_nil_of_left_ne_nil (by decide) _
  rw [← digest_recordable hasked]
  unfold Recording.Accepts Recording.effect
  rw [recordedEffect_eq hclock]
  simp only [Option.map_some, Option.some.injEq, exists_eq_left', EvidenceFields.validate]
  rw [validateBody_effect hasked.capability_ne hid (text_ne civil) hversion r.epoch_ne r.store_ne
    r.position_pos (ruleId_recordable hdecided.1 hdecided.2) hasked.correlation
    (references_recordable hdecided.1 a.question)]
  have hscope' : (!(recordedDecision host a consulted grantId).scope.isEmpty) = true := hscope
  rw [hscope', hconnection, r.admitted]
  change EvidenceBody.hold _ _ = .ok () ↔ _
  unfold EvidenceBody.hold require
  split
  · rename_i h
    exact ⟨fun _ => h, fun _ => rfl⟩
  · rename_i h
    exact ⟨fun h' => (by cases h'), fun h' => absurd h' h⟩

/-- **Whatever is committed can be recorded, unless its digest has a newline behind it.** In
every run, the effect of a committed decision on an ask the service has no complaint of is
accepted exactly then. -/
theorem committed_recordable {now : ℤ} {w : World}
    (hreach : Reaches (step host) (World.initial now) w) {c : Committed} (hc : c ∈ w.ledger)
    (hvalid : c.asking.question.validate levels = .ok none) (hid : c.asking.decisionRef ≠ [])
    {py : Interpreter} {civil : Civil}
    (hclock : py.fromIso (host.instant c.asking.now) = some (some ⟨some civil⟩))
    (r : Recording) :
    r.Accepts py c.decision ↔
      ∀ digest, c.asking.question.ask.argumentsDigest = some digest →
        digest.getLast? ≠ some 10 := by
  obtain ⟨⟨hdecided, -⟩, grantId, hdecision⟩ := (reaches_decided hreach).ledger c hc
  rw [hdecision]
  exact r.accepts_iff hdecided (validate_asked hvalid) hid hclock

/-! ## A decision without a record -/

/-- An ask of a capability no rule names. -/
def digestQuestion (digest : Str) : DecisionQuestion :=
  ⟨⟨lit "pay.read", lit "local", some digest, none⟩, ⟨lit "user", 1000, lit "ana", [], [], none⟩⟩

def digestEvents (digest : Str) : List Event :=
  [.ask 0 (digestQuestion digest), .act 0, .act 0, .decide 0 [] (lit "d0") (lit "a0"),
    .append 0 none (.position (lit "s") 1)]

theorem epochOne_ne : lit "epoch:1" ≠ [] := by decide

def localRecording : Recording where
  recordingEpoch := lit "epoch:1"
  connectionId := lit "connection:1"
  principal := .mk (lit "user") (lit "1000") []
  recordedAt := ⟨some ⟨2026, 1, 5, 10, 0, 0, Civil.sample.held⟩⟩
  storeId := lit "store:1"
  position := 1
  epoch_ne := epochOne_ne
  connection_ne := by decide
  admitted := by decide
  store_ne := by decide
  position_pos := by decide

/-- `sha256:` and sixty-four zeros. -/
def zeroDigest : Str := lit "sha256:" ++ List.replicate 64 48

theorem committed_recordable_zero : ∃ w, ∃ c ∈ w.ledger,
    run (step clockedHost) (World.initial 0) (digestEvents zeroDigest) = some w ∧
      c.asking.question.ask.argumentsDigest = some zeroDigest ∧
      (localRecording.Accepts reference c.decision ↔
        ∀ digest, c.asking.question.ask.argumentsDigest = some digest →
          digest.getLast? ≠ some 10) := by
  have hrun : ((run (step clockedHost) (World.initial 0) (digestEvents zeroDigest)).map fun w =>
      w.ledger.any fun c => decide (c.asking.question.validate 400 = .ok none) &&
        (c.asking.decisionRef != [] &&
          c.asking.question.ask.argumentsDigest == some zeroDigest)) = some true := by
    decide +kernel
  obtain ⟨w, hw, hany⟩ := Option.map_eq_some_iff.1 hrun
  obtain ⟨c, hc, hall⟩ := List.any_eq_true.1 hany
  rw [Bool.and_eq_true, Bool.and_eq_true, decide_eq_true_eq, bne_iff_ne, beq_iff_eq] at hall
  obtain ⟨hvalid, hid, hdigest⟩ := hall
  have hclock : reference.fromIso (lit "2026-01-05T10:00:00Z") =
      some (some ⟨some ⟨2026, 1, 5, 10, 0, 0, Civil.sample.held⟩⟩) := by decide +kernel
  exact ⟨w, c, hc, hw, hdigest, committed_recordable ⟨_, hw⟩ hc hvalid hid hclock localRecording⟩

/-- **A decision without a record**: a digest with a newline behind it is admitted by the schema
and the service, its decision is committed, and the record of its effect is refused. -/
theorem committed_unrecordable : ∃ w, ∃ c ∈ w.ledger,
    run (step clockedHost) (World.initial 0) (digestEvents (zeroDigest ++ [10])) = some w ∧
      c.asking.question.validate 400 = .ok none ∧
      ¬ localRecording.Accepts reference c.decision := by
  have hrun : ((run (step clockedHost) (World.initial 0) (digestEvents (zeroDigest ++ [10]))).map
      fun w => w.ledger.any fun c => decide (c.asking.question.validate 400 = .ok none) &&
        (localRecording.effect reference c.decision).all fun fields =>
          !fields.validate.isOk) = some true := by decide +kernel
  obtain ⟨w, hw, hany⟩ := Option.map_eq_some_iff.1 hrun
  obtain ⟨c, hc, hall⟩ := List.any_eq_true.1 hany
  rw [Bool.and_eq_true, decide_eq_true_eq] at hall
  refine ⟨w, c, hc, hw, hall.1, ?_⟩
  rintro ⟨fields, heffect, hvalidate⟩
  have hrefused := hall.2
  rw [heffect, Option.all_some, hvalidate] at hrefused
  cases hrefused

end SayFirst.Plane
