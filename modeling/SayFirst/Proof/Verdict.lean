import SayFirst.Proof.FirstFault

/-!
# What an export verdict means

* `rederive_verdict` — what a re-derivation says of the recorded answer.
* `attach_content` — which bytes an attachment is taken for.
* `verifyExport_sound` — what a confirmed export establishes, and when one differs.
-/

namespace SayFirst.Contract

open Py Evidence
open SayFirst.Plane (TomlLib)

variable {py : Interpreter} {toml : TomlLib}

/-! ## Re-derivations -/

/-- The recorded inputs and the policy bytes yield the answer `t`. -/
def Yields (toml : TomlLib) (recorded : RecordedDecision) (policy : Bytes) (t : Triple) : Prop :=
  ∃ references, recorded.evaluationRecipe = some recipe ∧
    recorded.principalReferences = some references ∧ recorded.reason ∈ recipeReasons ∧
    evaluateRecordedInputs toml policy recorded.scope recorded.capability references
      recorded.argumentsDigest = .ok (.triple t)

def answerOf (recorded : RecordedDecision) : Triple :=
  (recorded.outcome, recorded.reason, recorded.ruleId)

/-- **What a re-derivation says**: confirmed when the inputs yield the recorded answer, differing
when they yield another one. -/
theorem rederive_verdict {recorded : RecordedDecision} {policy : Bytes} {result : Rederived}
    (h : rederiveRecordedDecision toml recorded policy = .ok result) :
    (result.verdict = .confirmed ↔ Yields toml recorded policy (answerOf recorded)) ∧
    (result.verdict = .differs ↔ ∃ t, Yields toml recorded policy t ∧ t ≠ answerOf recorded) := by
  unfold rederiveRecordedDecision at h
  -- an unverifiable record yields nothing
  have unverifiable : ∀ {cause : Option String}, (∀ t, ¬ Yields toml recorded policy t) →
      result = ⟨.unverifiable, cause, none⟩ →
      (result.verdict = .confirmed ↔ Yields toml recorded policy (answerOf recorded)) ∧
      (result.verdict = .differs ↔
        ∃ t, Yields toml recorded policy t ∧ t ≠ answerOf recorded) := by
    rintro cause hno rfl
    exact ⟨⟨fun h => (by cases h), fun h => absurd h (hno _)⟩,
      ⟨fun h => (by cases h), fun ⟨t, h, _⟩ => absurd h (hno t)⟩⟩
  split at h
  · rename_i named references hnamed hrefs
    split at h
    · rename_i hne
      cases h
      refine unverifiable (fun t ht => ?_) rfl
      obtain ⟨-, hrecipe, -⟩ := ht
      rw [hnamed] at hrecipe
      exact hne (Option.some.inj hrecipe)
    · rename_i hnamed'
      split at h
      · rename_i hreason
        cases h
        exact unverifiable (fun t ⟨_, _, _, hr, _⟩ => hreason hr) rfl
      · rename_i hreason
        split at h
        · cases h
        · rename_i message heval
          cases h
          refine unverifiable (fun t ⟨references', _, hr, _, hy⟩ => ?_) rfl
          rw [hrefs] at hr
          cases hr
          rw [heval] at hy
          cases hy
        · rename_i computed heval
          have yields : ∀ t, Yields toml recorded policy t ↔ t = computed := by
            intro t
            constructor
            · rintro ⟨references', -, hr, -, hy⟩
              rw [hrefs] at hr
              cases hr
              rw [heval] at hy
              cases hy
              rfl
            · rintro rfl
              exact ⟨references, by rw [hnamed, not_not.1 hnamed'], hrefs, not_not.1 hreason, heval⟩
          split at h
          · rename_i heq
            cases h
            refine ⟨⟨fun _ => (yields _).2 heq.symm, fun _ => rfl⟩, ⟨fun h => (by cases h), ?_⟩⟩
            rintro ⟨t, ht, hne⟩
            exact absurd ((yields t).1 ht ▸ heq) hne
          · rename_i hne
            cases h
            refine ⟨⟨fun h => (by cases h), fun h => absurd ((yields _).1 h).symm hne⟩, ?_⟩
            exact ⟨fun _ => ⟨computed, (yields _).2 rfl, hne⟩, fun _ => rfl⟩
  · rename_i hmissing
    cases h
    refine unverifiable (fun t ⟨references, hr, hrefs, _⟩ => ?_) rfl
    exact hmissing _ _ hr hrefs

/-! ## Attachments -/

/-- The attachments hold the bytes `raw` for a policy version: present, in base64, and what the
version is the digest of. -/
def Holds (py : Interpreter) (attachments : Option Members) (version : Str) (raw : Bytes) : Prop :=
  ∃ state content, attachments.bind (·.lookup version) = some (.obj state) ∧
    Json.getStr state "state" = some (lit "present") ∧
    Json.getStr state "content" = some content ∧ py.b64decode content = some raw ∧
    Plane.digestPattern.fullmatch version = true ∧ version = lit "sha256:" ++ py.sha256 raw

theorem eqText_getStr {state : Members} {t : String} :
    (orNull (Json.get state "state")).eqText t = true ↔ Json.getStr state "state" = some (lit t) := by
  unfold Json.getStr orNull Json.eqText Json.str?
  cases Json.get state "state" with
  | none => simp
  | some value => cases value <;> simp

theorem policyBytes_present {value : Json} {raw : Bytes} :
    policyBytes py value = .ok (.present, some raw) ↔ ∃ state content, value = .obj state ∧
      Json.getStr state "state" = some (lit "present") ∧
      Json.getStr state "content" = some content ∧ py.b64decode content = some raw := by
  constructor
  · intro h
    unfold policyBytes at h
    split at h
    · rename_i state
      simp only at h
      split at h
      · cases h
      split at h
      · cases h
      split at h
      · cases h
      split at h
      · cases h
      split at h
      · rename_i hpresent
        split at h
        · rename_i content hcontent
          split at h
          · rename_i decoded hdecoded
            cases h
            exact ⟨state, content, rfl, eqText_getStr.1 hpresent,
              by unfold Json.getStr; rw [hcontent], hdecoded⟩
          · cases h
        · cases h
      · cases h
    · cases h
  · rintro ⟨state, content, rfl, hstate, hcontent, hdecoded⟩
    unfold Json.getStr at hstate hcontent
    split at hstate <;> [rename_i s hs; cases hstate]
    split at hcontent <;> [rename_i c hc; cases hcontent]
    cases hstate
    cases hcontent
    unfold policyBytes
    simp only [hs, hc, orNull, Option.getD_some, hdecoded]
    rfl

/-- **An attachment is taken for the bytes it holds** under the version they hash to. -/
theorem attach_content {attachments : Option Members} {version : Str} {a : Attached}
    (h : attach py attachments version = .ok a) (raw : Bytes) :
    a.content = .ok raw ↔ Holds py attachments version raw := by
  unfold attach at h
  unfold Holds
  split at h
  · rename_i hl
    cases h
    rw [hl]
    exact ⟨fun h => (by cases h), fun ⟨_, _, h, _⟩ => (by cases h)⟩
  · rename_i hl
    cases h
    rw [hl]
    exact ⟨fun h => (by cases h), fun ⟨_, _, h, _⟩ => (by cases h)⟩
  · rename_i value _ hl
    obtain ⟨⟨state, bytes⟩, hread, hkeep⟩ := bind_ok.1 h
    rw [hl]
    -- what is not read as present bytes is not held
    have absent : ∀ {cause : String}, (∀ raw, (state, bytes) ≠ (.present, some raw)) →
        a.content = .error cause →
        (a.content = .ok raw ↔ ∃ state content, some value = some (.obj state) ∧
          Json.getStr state "state" = some (lit "present") ∧
          Json.getStr state "content" = some content ∧ py.b64decode content = some raw ∧
          Plane.digestPattern.fullmatch version = true ∧
          version = lit "sha256:" ++ py.sha256 raw) := by
      intro cause hno hcause
      rw [hcause]
      refine ⟨fun h => (by cases h), ?_⟩
      rintro ⟨state', content, hvalue, hstate, hcontent, hdecoded, -⟩
      have := policyBytes_present.2 ⟨state', content, Option.some.inj hvalue, hstate, hcontent,
        hdecoded⟩
      exact absurd (Except.ok.inj (hread.symm.trans this)) (hno raw)
    cases state with
    | present =>
      cases bytes with
      | none => cases hkeep
      | some decoded =>
        obtain ⟨state, content, rfl, hstate, hcontent, hdecoded⟩ := policyBytes_present.1 hread
        -- one content is read, and decodes to one text
        have same : ∀ {state' content'}, some (Json.obj state) = some (Json.obj state') →
            Json.getStr state' "content" = some content' → py.b64decode content' = some raw →
            raw = decoded := by
          intro state' content' hvalue hcontent' hdecoded'
          cases hvalue
          rw [hcontent] at hcontent'
          cases hcontent'
          exact Option.some.inj (hdecoded'.symm.trans hdecoded)
        simp only [keepAttachment] at hkeep
        split at hkeep
        · rename_i hbad
          cases hkeep
          refine ⟨fun h => (by cases h), ?_⟩
          rintro ⟨state', content', hvalue, -, hcontent', hdecoded', hmatch, hversion⟩
          cases same hvalue hcontent' hdecoded'
          rw [hmatch, ← hversion] at hbad
          simp at hbad
        · rename_i hgood
          simp only [Bool.or_eq_true, Bool.not_eq_true', bne_iff_ne, ne_eq, not_or, not_not,
            Bool.not_eq_false] at hgood
          cases hkeep
          constructor
          · intro h
            cases h
            exact ⟨state, content, rfl, hstate, hcontent, hdecoded, hgood.1, hgood.2.symm⟩
          · rintro ⟨state', content', hvalue, -, hcontent', hdecoded', -⟩
            rw [same hvalue hcontent' hdecoded']
    | absent => cases hkeep; exact absent (fun _ h => (by cases h)) rfl
    | damaged => cases hkeep; exact absent (fun _ h => (by cases h)) rfl
    | unknown => cases hkeep; exact absent (fun _ h => (by cases h)) rfl

theorem attach_version {attachments : Option Members} {version : Str} {a : Attached}
    (h : attach py attachments version = .ok a) : a.version = version := by
  rcases attach_cases py attachments version with ⟨-, -, a', ha, hv⟩ | ⟨-, -, reason, hr⟩ | ⟨-, hr⟩
  · rw [ha] at h
    cases h
    exact hv
  · rw [hr] at h
    cases h
  · rw [hr] at h
    cases h

/-- **What a trusted effect is answered**: what its record yields on the bytes held for it. -/
theorem rederiveEntry_trusted {scope : Str} {attachments : Option Members} {versions : List Str}
    {attached : List Attached} {last : ℤ} {e : Entry} {r : EntryRederivation}
    (hatt : versions.mapM (attach py attachments) = .ok attached) (hlast : ¬ last < e.sequence)
    (h : rederiveEntry py toml scope last attached e = .ok r) :
    (r.verdict = .confirmed ↔ ∃ raw, Holds py attachments (bodyText py e "policy_version") raw ∧
      Yields toml (recorded py e.body scope) raw (answerOf (recorded py e.body scope))) ∧
    (r.verdict = .differs ↔ ∃ raw, Holds py attachments (bodyText py e "policy_version") raw ∧
      ∃ t, Yields toml (recorded py e.body scope) raw t ∧
        t ≠ answerOf (recorded py e.body scope)) := by
  obtain ⟨-, -, ⟨hlt, -⟩ | ⟨-, held, hfind, hheld⟩⟩ := rederiveEntry_cases h
  · exact absurd hlt hlast
  obtain ⟨version, -, ha⟩ := mapM_mem hatt held (List.mem_of_find?_eq_some hfind)
  have hversion : held.version = bodyText py e "policy_version" := by
    simpa using List.find?_some hfind
  rw [← attach_version ha, hversion] at ha
  have hcontent := attach_content ha
  rcases hheld with ⟨cause, herror, hv⟩ | ⟨content, result, hok, hresult, hv⟩
  · -- without its policy nothing is held for the version
    have hno : ∀ raw, ¬ Holds py attachments (bodyText py e "policy_version") raw := by
      intro raw hholds
      have := (hcontent raw).2 hholds
      rw [herror] at this
      cases this
    rw [hv]
    exact ⟨⟨fun h => (by cases h), fun ⟨raw, h, _⟩ => absurd h (hno raw)⟩,
      ⟨fun h => (by cases h), fun ⟨raw, h, _⟩ => absurd h (hno raw)⟩⟩
  · have hholds : ∀ raw, Holds py attachments (bodyText py e "policy_version") raw ↔
        raw = content := by
      intro raw
      rw [← hcontent raw, hok]
      exact ⟨fun h => (Except.ok.inj h).symm, fun h => by rw [h]⟩
    obtain ⟨hconfirmed, hdiffers⟩ := rederive_verdict hresult
    rw [hv, hconfirmed, hdiffers]
    constructor
    · exact ⟨fun h => ⟨content, (hholds content).2 rfl, h⟩,
        fun ⟨raw, hr, h⟩ => by rw [(hholds raw).1 hr] at h; exact h⟩
    · exact ⟨fun h => ⟨content, (hholds content).2 rfl, h⟩,
        fun ⟨raw, hr, h⟩ => by rw [(hholds raw).1 hr] at h; exact h⟩

/-! ## The parts of a verdict -/

section Parts

variable {rederivations : List EntryRederivation} {issues : List Str} {coverage : String}

theorem overallOf_differs : overallOf rederivations issues coverage = .differs ↔
    ∃ r ∈ rederivations, r.verdict = .differs := by
  unfold overallOf
  split
  · rename_i h
    obtain ⟨r, hr, hd⟩ := List.any_eq_true.1 h
    exact ⟨fun _ => ⟨r, hr, by simpa using hd⟩, fun _ => rfl⟩
  · rename_i h
    constructor
    · intro hd
      split at hd <;> cases hd
    · rintro ⟨r, hr, hd⟩
      exact absurd (List.any_eq_true.2 ⟨r, hr, by simp [hd]⟩) h

theorem overallOf_confirmed (h : overallOf rederivations issues coverage = .confirmed) :
    issues = [] ∧ coverage = "complete" ∧ ∀ r ∈ rederivations, r.verdict = .confirmed := by
  unfold overallOf at h
  split at h
  · cases h
  · split at h
    · cases h
    · rename_i hno
      simp only [Bool.or_eq_true, Bool.not_eq_true', List.isEmpty_eq_false_iff, bne_iff_ne, ne_eq,
        List.isEmpty_iff, List.any_eq_true, not_or, not_not, not_exists, not_and] at hno
      exact ⟨hno.1.1.1, hno.1.1.2, hno.2⟩

theorem issuesOf_nil {provisional : ChainVerdict} {manifestIssues : List Str}
    {contextUnverified incomplete unknown noEffect : Bool} {attached : List Attached}
    (h : issuesOf provisional manifestIssues contextUnverified attached incomplete unknown noEffect =
      []) :
    provisional.condition = .intact ∧ manifestIssues = [] ∧ contextUnverified = false ∧
      incomplete = false ∧ unknown = false ∧ noEffect = false := by
  unfold issuesOf at h
  simp only [List.append_eq_nil_iff] at h
  obtain ⟨⟨⟨⟨⟨⟨hchain, hmanifest⟩, hcontext⟩, -⟩, hincomplete⟩, hunknown⟩, heffect⟩ := h
  refine ⟨?_, hmanifest, by simpa using hcontext, by simpa using hincomplete,
    by simpa using hunknown, by simpa using heffect⟩
  split at hchain
  · cases hchain
  · split at hchain
    · cases hchain
    · rename_i hc
      exact not_not.1 hc

/-- The manifest recomputes under the recipe the bundle names, or under one of the first two when
it names none. -/
def ManifestRecomputes (py : Interpreter) (members : Members) (b : Shape) : Prop :=
  ∃ version, (orNull (Json.get members "manifest_version") = .str version ∧
      version ∈ manifestVersions ∨
    orNull (Json.get members "manifest_version") = .null ∧
      (version = manifestV1 ∨ version = manifestV2)) ∧
    manifestHash py members b.verification b.entriesRaw version = b.manifest

theorem checkManifest_ok {members : Members} {b : Shape}
    (h : (checkManifest py members b).2.2 = []) : ManifestRecomputes py members b := by
  unfold checkManifest at h
  simp only at h
  split at h
  · rename_i hnull
    split at h
    · rename_i hv
      exact ⟨manifestV1, .inr ⟨hnull, .inl rfl⟩, by simpa using hv⟩
    · split at h
      · rename_i hv
        exact ⟨manifestV2, .inr ⟨hnull, .inr rfl⟩, by simpa using hv⟩
      · cases h
  · rename_i named hnamed
    split at h
    · rename_i hknown
      refine ⟨named, .inl ⟨hnamed, by simpa using hknown⟩, ?_⟩
      simp only [ite_eq_left_iff, Bool.not_eq_true] at h
      by_contra hne
      have := h (by simpa using hne)
      cases this
    · cases h
  · cases h

end Parts

/-! ## Intact chains -/

section Intact

variable {scope : Str}

/-- The sequences of the entries are the consecutive ones from `lo`. -/
def Consecutive (lo : ℤ) (entries : List Entry) : Prop :=
  entries.map Entry.sequence = (List.range entries.length).map fun k : ℕ => lo + k

theorem consecutive_of_chain : ∀ {rest : List Entry} {first : Entry},
    (first :: rest).IsChain (fun a b => b.sequence = a.sequence + 1) →
      Consecutive first.sequence (first :: rest) := by
  intro rest
  induction rest with
  | nil => intro first _; simp [Consecutive]
  | cons second rest ih =>
    intro first h
    obtain ⟨hnext, hrest⟩ := List.isChain_cons_cons.1 h
    have hind := ih hrest
    unfold Consecutive at hind ⊢
    rw [List.map_cons, hind, List.length_cons (a := first), List.range_succ_eq_map, List.map_cons,
      List.map_map, hnext]
    refine congrArg₂ List.cons (by simp) (List.map_congr_left fun k _ => ?_)
    simp only [Function.comp_apply, Nat.succ_eq_add_one]
    push_cast
    omega

/-- **What an intact verdict establishes**: entries of the scope, consecutive, whole. -/
theorem intact_ok {read : List Entry} {lo : ℤ} {hi : Option ℤ} {lowered : List Str}
    {c : ChainVerdict} (h : verifyRead py read scope lo hi lowered = .ok c)
    (hc : c.condition = .intact) :
    read ≠ [] ∧ (∀ e ∈ read, e.scope = scope) ∧ Consecutive lo read ∧ Whole py read := by
  obtain ⟨-, -, hcond, -⟩ := verifyRead_ok h
  rw [hc] at hcond
  obtain ⟨hscope, hrise, htold⟩ := told_scanned (.inl hcond.symm)
  rw [htold] at hcond
  obtain ⟨habsent, hsound, hlinked⟩ := Chain.scan_intact hrise (report_intact hcond.symm)
  obtain ⟨first, rest, rfl, hlo, hchain, -⟩ := Chain.firstAbsent_none habsent
  refine ⟨List.cons_ne_nil first rest, hscope, ?_, hsound, hlinked⟩
  rw [← hlo]
  exact consecutive_of_chain hchain

/-- **A context that was verified continues the entries**, and is whole itself. -/
theorem verifiedContext_whole {value : Option Json} {entries context : List Entry}
    (h : verifiedContext py value entries.getLast? scope = .ok (context, false))
    (hwhole : Whole py entries) : Whole py (entries ++ context) := by
  have nothing : context = [] → Whole py (entries ++ context) := by
    rintro rfl
    rwa [List.append_nil]
  unfold verifiedContext at h
  split at h
  · cases h; exact nothing rfl
  · cases h; exact nothing rfl
  · unfold verifiedItems at h
    split at h
    · cases h; exact nothing rfl
    split at h
    · cases h
    rename_i last hlast
    split at h
    · cases h
    · cases h
    · cases h
    · rename_i head read hread
      split at h
      · cases h
      · rename_i hcontinues
        obtain ⟨c, hc, h⟩ := bind_ok.1 h
        simp only [not_or, not_not] at hcontinues
        split at h
        · rename_i hintact
          cases h
          obtain ⟨-, -, -, hsound, hlinked⟩ := intact_ok hc hintact
          refine ⟨fun e he => ?_, List.isChain_append.2 ⟨hwhole.2, hlinked, ?_⟩⟩
          · rcases List.mem_append.1 he with he | he
            · exact hwhole.1 e he
            · exact hsound e he
          · intro a ha b hb
            rw [hlast] at ha
            cases ha
            cases hb
            exact hcontinues.2
        · cases h
  · cases h

end Intact

/-! ## Soundness -/

/-- The span of the marker `m` covers the entry `e`. -/
def Spans (m e : Entry) : Prop := (markerSpan m).1 ≤ e.sequence ∧ e.sequence ≤ (markerSpan m).2

theorem within_epochs {markers : List Entry} {e : Entry} :
    (within e.sequence (epochs markers).1 = true ↔
      ∃ m ∈ markers, isCleanStop m = true ∧ Spans m e) ∧
    (within e.sequence (epochs markers).2 = true ↔
      ∃ m ∈ markers, isCleanStop m = false ∧ Spans m e) := by
  unfold within epochs Spans
  constructor <;> simp [List.any_eq_true]

/-- **What a confirmed export establishes.** -/
structure Confirmed (py : Interpreter) (toml : TomlLib) (members : Members) (scope : Str)
    (b : Opened) (v : ExportVerdict) : Prop where
  nonempty : b.entries ≠ []
  oneScope : ∀ e ∈ b.entries, e.scope = scope
  consecutive : Consecutive b.fromSequence b.entries
  ends : b.toSequence = some (b.fromSequence + b.entries.length - 1)
  /-- The entries, and the context behind them, are sound and linked. -/
  whole : Whole py (b.entries ++ b.context)
  manifest : ManifestRecomputes py members b.toShape
  decides : ∃ e ∈ b.entries, isEffect e = true
  rederives : ∀ e ∈ b.entries, isEffect e = true →
    ∃ raw, Holds py b.attachments (bodyText py e "policy_version") raw ∧
      Yields toml (recorded py e.body scope) raw (answerOf (recorded py e.body scope))
  noGap : ∀ e ∈ b.entries, e.kind ≠ lit "gap"
  /-- An entry recorded asynchronously is inside a clean stop's span and in no unclean one's. -/
  covered : ∀ e ∈ b.entries, (asynchronousKinds.any fun k => e.kind == lit k) = true →
    (∃ m ∈ b.entries ++ b.context, m.kind = lit "recovery" ∧ isCleanStop m = true ∧ Spans m e) ∧
    ∀ m ∈ b.entries ++ b.context, m.kind = lit "recovery" → isCleanStop m = false → ¬ Spans m e
  contextVerified : b.contextUnverified = false
  /-- What was re-derived are the effects of the entries, none of the context. -/
  own : v.rederivations.map (fun r => (r.sequence, r.decisionId)) =
    (b.entries.filter isEffect).map fun e => (e.sequence, bodyText py e "decision_id")

theorem consecutive_last {lo : ℤ} {entries : List Entry} (h : Consecutive lo entries)
    (hne : entries ≠ []) :
    entries.getLast?.map Entry.sequence = some (lo + entries.length - 1) := by
  have hlen : 0 < entries.length := List.length_pos_iff.2 hne
  unfold Consecutive at h
  rw [← List.getLast?_map, h, List.getLast?_map, List.getLast?_range, if_neg (by omega)]
  simp only [Option.map_some, Option.some.injEq]
  push_cast [Nat.cast_sub hlen]
  omega

/-- Each effect of the entries is answered for, in their order. -/
theorem rederivations_own {scope : Str} {last : ℤ} {attached : List Attached}
    {effects : List Entry} {rederivations : List EntryRederivation}
    (h : effects.mapM (rederiveEntry py toml scope last attached) = .ok rederivations) :
    rederivations.map (fun r => (r.sequence, r.decisionId)) =
      effects.map fun e => (e.sequence, bodyText py e "decision_id") := by
  have hall := mapM_ok.1 h
  clear h
  induction hall with
  | nil => rfl
  | cons hr _ ih =>
    obtain ⟨hseq, hid, -⟩ := rederiveEntry_cases hr
    rw [List.map_cons, List.map_cons, ih, hseq, hid]

/-- The trusted effects are answered for what their records yield. -/
theorem judged_effect {members : Members} {scope : Str} {b : Opened} {v : ExportVerdict}
    (hopen : openBundle py members scope = .ok b) (h : judge py toml members scope b = .ok v) :
    ∀ e ∈ trustedPart py scope b.toShape, isEffect e = true → ∃ r ∈ v.rederivations,
      r.sequence = e.sequence ∧
      (r.verdict = .confirmed ↔
        ∃ raw, Holds py b.attachments (bodyText py e "policy_version") raw ∧
          Yields toml (recorded py e.body scope) raw (answerOf (recorded py e.body scope))) ∧
      (r.verdict = .differs ↔
        ∃ raw, Holds py b.attachments (bodyText py e "policy_version") raw ∧
          ∃ t, Yields toml (recorded py e.body scope) raw t ∧
            t ≠ answerOf (recorded py e.body scope)) := by
  obtain ⟨provisional, attached, hprov, htrusted, hatt, hred, -⟩ := judge_ok h
  have hpos := entries_positive (readBundle_ok (openBundle_ok hopen).1).2.1
  intro e he heff
  rw [htrusted] at he
  have hmem := List.mem_of_mem_take he
  obtain ⟨r, hr, hrun⟩ := mapM_mem_left hred e (List.mem_filter.2 ⟨hmem, heff⟩)
  have hlast := (mem_take_iff hpos (trusted_rising hprov) hmem).1 he
  rw [htrusted] at hrun hatt
  exact ⟨r, hr, (rederiveEntry_cases hrun).1, rederiveEntry_trusted hatt hlast hrun⟩

theorem judge_confirmed {members : Members} {scope : Str} {b : Opened} {v : ExportVerdict}
    (hopen : openBundle py members scope = .ok b) (h : judge py toml members scope b = .ok v)
    (hconfirmed : v.overall = .confirmed) : Confirmed py toml members scope b v := by
  obtain ⟨provisional, attached, hprov, htrusted, -, hred, -, -, -, hover⟩ := judge_ok h
  rw [hover] at hconfirmed
  obtain ⟨hissues, -, hall⟩ := overallOf_confirmed hconfirmed
  obtain ⟨hintact, hmanifest, hcontext, hgap, hunknown, heffect⟩ := issuesOf_nil hissues
  obtain ⟨hne, hscope, hconsecutive, hwhole⟩ := intact_ok hprov hintact
  -- an intact chain is trusted whole
  have hwhole_trusted : trustedPart py scope b.toShape = b.entries := by
    rw [htrusted, trustedCount, if_pos hintact, List.take_length]
  rw [hwhole_trusted] at hgap hunknown heffect
  obtain ⟨hread, hverified⟩ := openBundle_ok hopen
  rw [hcontext] at hverified
  unfold coverageUnknown at hunknown
  simp only [Bool.or_eq_false_iff, List.any_eq_false, List.mem_filter, Bool.not_eq_true',
    Bool.not_eq_false] at hunknown
  obtain ⟨⟨-, hunclean⟩, hclean⟩ := hunknown
  refine {
    nonempty := hne
    oneScope := hscope
    consecutive := hconsecutive
    ends := by rw [(readBundle_ok hread).2.2.1 hne, consecutive_last hconsecutive hne]
    whole := verifiedContext_whole hverified hwhole
    manifest := checkManifest_ok hmanifest
    decides := ?_
    rederives := fun e he heff => ?_
    noGap := fun e he hkind => ?_
    covered := fun e he hasync => ⟨?_, fun m hm hkind hstop hspans => ?_⟩
    contextVerified := hcontext
    own := rederivations_own hred }
  · obtain ⟨e, he⟩ := List.exists_mem_of_ne_nil _ (List.isEmpty_eq_false_iff.1 heffect)
    obtain ⟨he, heff⟩ := List.mem_filter.1 he
    exact ⟨e, he, heff⟩
  · obtain ⟨r, hr, -, hiff, -⟩ := judged_effect hopen h e (by rw [hwhole_trusted]; exact he) heff
    exact hiff.1 (hall r hr)
  · exact absurd (List.any_eq_false.1 hgap e he) (by simp [hkind])
  · obtain ⟨m, hm, hstop, hspans⟩ := within_epochs.1.1 (hclean e ⟨he, hasync⟩)
    obtain ⟨hm, hkind⟩ := List.mem_filter.1 hm
    exact ⟨m, hm, by simpa using hkind, hstop, hspans⟩
  · refine absurd (within_epochs.2.2 ⟨m, List.mem_filter.2 ⟨hm, by simpa using hkind⟩, hstop,
      hspans⟩) (hunclean e ⟨he, hasync⟩)

theorem judge_differs {members : Members} {scope : Str} {b : Opened} {v : ExportVerdict}
    (hopen : openBundle py members scope = .ok b) (h : judge py toml members scope b = .ok v) :
    v.overall = .differs ↔ ∃ e ∈ trustedPart py scope b.toShape, isEffect e = true ∧
      ∃ raw, Holds py b.attachments (bodyText py e "policy_version") raw ∧
        ∃ t, Yields toml (recorded py e.body scope) raw t ∧
          t ≠ answerOf (recorded py e.body scope) := by
  obtain ⟨provisional, attached, hprov, htrusted, hatt, hred, -, -, -, hover⟩ := judge_ok h
  rw [hover, overallOf_differs]
  constructor
  · rintro ⟨r, hr, hd⟩
    have hpos := entries_positive (readBundle_ok (openBundle_ok hopen).1).2.1
    obtain ⟨e, he, hrun⟩ := mapM_mem hred r hr
    obtain ⟨he, heff⟩ := List.mem_filter.1 he
    obtain ⟨-, -, ⟨-, hu⟩ | ⟨hlast, -⟩⟩ := rederiveEntry_cases hrun
    · rw [hu] at hd
      cases hd
    · have hdiffers := (rederiveEntry_trusted hatt hlast hrun).2.1 hd
      rw [htrusted] at hlast ⊢
      exact ⟨e, (mem_take_iff hpos (trusted_rising hprov) he).2 hlast, heff, hdiffers⟩
  · rintro ⟨e, he, heff, hdiffers⟩
    obtain ⟨r, hr, -, -, hiff⟩ := judged_effect hopen h e he heff
    exact ⟨r, hr, hiff.2 hdiffers⟩

/-- **Soundness of the export verdict.** A confirmed export establishes all of `Confirmed`; one
that is judged differs exactly when a trusted effect re-derives to another answer. -/
theorem verifyExport_sound {bundle : Json} {v : ExportVerdict}
    (h : verifyExport py toml bundle = .ok v) :
    (v.overall = .confirmed → ∃ members scope b, bundle = .obj members ∧
      Json.get members "scope" = some (.str scope) ∧ openBundle py members scope = .ok b ∧
      Confirmed py toml members scope b v) ∧
    (v.chain ≠ none → ∃ members scope b, bundle = .obj members ∧
      Json.get members "scope" = some (.str scope) ∧ openBundle py members scope = .ok b ∧
      (v.overall = .differs ↔ ∃ e ∈ trustedPart py scope b.toShape, isEffect e = true ∧
        ∃ raw, Holds py b.attachments (bodyText py e "policy_version") raw ∧
          ∃ t, Yields toml (recorded py e.body scope) raw t ∧
            t ≠ answerOf (recorded py e.body scope))) := by
  rcases verifyExport_ok h with ⟨named, reason, rfl⟩ | ⟨members, scope, b, hb, hscope, -, hopen, hj⟩
  · exact ⟨fun hc => (by cases hc), fun hc => absurd rfl hc⟩
  · exact ⟨fun hc => ⟨members, scope, b, hb, hscope, hopen, judge_confirmed hopen hj hc⟩,
      fun _ => ⟨members, scope, b, hb, hscope, hopen, judge_differs hopen hj⟩⟩

/-- The sample is confirmed, so it establishes all of it. -/
theorem verifyExport_sound_sample : ∃ v b,
    verifyExport reference Sample.tomllib (.obj (Sample.bundle Evidence.preimageVersion 2)) =
      .ok v ∧ v.overall = .confirmed ∧
    Confirmed reference Sample.tomllib (Sample.bundle Evidence.preimageVersion 2) (lit "local") b
      v := by
  have hverdict : ((verifyExport reference Sample.tomllib
      (.obj (Sample.bundle Evidence.preimageVersion 2))).toOption.map ExportVerdict.overall) =
      some .confirmed := by
    rw [reference_blocks]
    decide +kernel
  obtain ⟨v, hv, hoverall⟩ := Option.map_eq_some_iff.1 hverdict
  obtain ⟨members, scope, b, heq, hscope, -, hconfirmed⟩ :=
    (verifyExport_sound (ok_of_toOption hv)).1 hoverall
  cases heq
  cases hscope
  exact ⟨v, b, ok_of_toOption hv, hoverall, hconfirmed⟩

end SayFirst.Contract
