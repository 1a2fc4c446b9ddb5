import SayFirst.Spec.Retrospective

/-!
# Live and retrospective evaluation agree

* `parse_agree`: bytes the plane accepts are bytes the contract parses, rule for rule.
* `applies_agree`: the references recorded as read decide every rule of the asked
  scope and capability exactly as the caller's full identity does.
* `evaluate_agree`: the contract's evaluation over the recorded references is the
  triple the live evaluation answered.
-/

namespace SayFirst.Plane

open Py

variable {toml : TomlLib} {policy : Policy} {question : DecisionQuestion}

/-- What the contract keeps of a rule. -/
def Rule.recorded (r : Rule) : Contract.Rule :=
  ⟨r.ruleId, r.capability, r.scope, r.principals.map (·.text), r.outcome.value, r.argumentsDigest⟩

/-- The triple a verdict is recorded as. -/
def Verdict.triple (v : Verdict) : Contract.Triple := (v.outcome.value, v.reason.value, v.ruleId)

@[simp] theorem Outcome.value_inj {a b : Outcome} : a.value = b.value ↔ a = b := by
  cases a <;> cases b <;> simp [Outcome.value]

/-! ## Parsing -/

namespace PolicyFile

/-- What a rule the plane accepts looked like, check by check. -/
theorem rule_inv {raw : Toml} {index : ℕ} {bound : ℤ} {r : Rule}
    (h : rule raw index bound = .ok r) :
    ∃ members raws, raw = .table members ∧ raws ≠ [] ∧
      only members ruleMembers (lit "rule[" ++ decimal index ++ lit "]") = .ok () ∧
      Toml.get members "id" = some (.str r.ruleId) ∧
      identifierPattern.fullmatch r.ruleId = true ∧
      Toml.get members "capability" = some (.str r.capability) ∧
      capabilityPattern.fullmatch r.capability = true ∧
      (Toml.get members "scope").getD (.str (lit "local")) = .str r.scope ∧
      (!scopePattern.fullmatch r.scope || hasControl r.scope) = false ∧
      Toml.get members "principals" = some (.arr raws) ∧
      raws.mapM (fun value => principal value (lit "rule " ++ r.ruleId ++ lit ".principals")) =
        .ok r.principals ∧
      outcomeOf (Toml.get members "outcome") = some r.outcome ∧
      text (Toml.get members "reason") (lit "rule " ++ r.ruleId ++ lit ".reason") 512 =
        .ok r.reason ∧
      grantLifetime (Toml.get members "grant_lifetime_seconds") r.outcome bound
        (lit "rule " ++ r.ruleId) = .ok r.grantLifetimeSeconds ∧
      pinnedDigest (Toml.get members "arguments_digest") (lit "rule " ++ r.ruleId) =
        .ok r.argumentsDigest ∧
      reviewDeadline (Toml.get members "review_deadline_seconds") r.outcome
        (lit "rule " ++ r.ruleId) = .ok r.reviewDeadlineSeconds := by
  unfold rule at h
  simp only [bind, Except.bind, pure, Except.pure, throw, throwThe, MonadExceptOf.throw] at h
  cases raw with
  | table members =>
    simp only at h
    split at h
    · cases h
    rename_i _ _ honly
    split at h <;> [rename_i ruleId hid; cases h]
    split at h <;> [rename_i hidOk; cases h]
    split at h <;> [rename_i capability hcap; cases h]
    split at h <;> [rename_i hcapOk; cases h]
    split at h <;> [rename_i scope hscope; cases h]
    split at h <;> [cases h; rename_i hscopeOk]
    split at h <;> [rename_i raws hraws; cases h]
    split at h <;> [cases h; rename_i hempty]
    split at h <;> [cases h; rename_i principals hprincipals]
    split at h <;> [rename_i outcome houtcome; cases h]
    split at h <;> [cases h; rename_i reason hreason]
    split at h <;> [cases h; rename_i lifetime hlifetime]
    split at h <;> [cases h; rename_i digest hdigest]
    split at h <;> [cases h; rename_i deadline hdeadline]
    cases h
    exact ⟨members, raws, rfl, by simpa using hempty, honly, hid, hidOk, hcap, hcapOk, hscope,
      by simpa using hscopeOk, hraws, hprincipals, houtcome, hreason, hlifetime, hdigest,
      hdeadline⟩
  | _ => cases h

theorem splitColon_append {raw : Str} (h : 58 ∈ raw) :
    (splitColon raw).1 ++ 58 :: (splitColon raw).2 = raw := by
  unfold splitColon
  induction raw with
  | nil => simp at h
  | cons c cs ih =>
    by_cases hc : c = 58
    · subst hc; simp
    · have hcs : 58 ∈ cs := by
        rcases List.mem_cons.1 h with h | h
        · exact absurd h.symm hc
        · exact h
      simpa [hc] using ih hcs

/-- A reference the plane reads is the text the contract keeps. -/
theorem principal_agree {raw : Toml} {member : Str} {r : PrincipalReference}
    (h : principal raw member = .ok r) : Contract.Retrospective.reference raw member = .ok r.text := by
  unfold principal at h
  cases raw with
  | str s =>
    simp only at h
    split at h
    · cases h
    rename_i hcount
    have hmem : 58 ∈ s := by
      by_contra hno
      rw [List.count_eq_zero_of_not_mem hno] at hcount; simp at hcount
    have happ := splitColon_append hmem
    split at h
    · cases h
    rename_i hname
    unfold Contract.Retrospective.reference
    simp only [hcount, Bool.false_eq_true, if_false]
    split at h
    · rename_i hkind
      cases h
      rw [beq_iff_eq] at hkind
      simp only [hkind] at happ
      simpa [hkind, PrincipalReference.text, ReferenceKind.value, happ] using hname
    split at h
    · rename_i hkind
      cases h
      rw [beq_iff_eq] at hkind
      simp only [hkind] at happ
      simpa [hkind, PrincipalReference.text, ReferenceKind.value, happ] using hname
    · cases h
  | _ => cases h

theorem principals_agree {member : Str} : ∀ {raws : List Toml} {refs : List PrincipalReference},
    raws.mapM (fun value => principal value member) = .ok refs →
      raws.mapM (fun value => Contract.Retrospective.reference value member) =
        .ok (refs.map (·.text)) := by
  intro raws
  induction raws with
  | nil => intro refs h; cases h; rfl
  | cons raw raws ih =>
    intro refs h
    rw [List.mapM_cons] at h ⊢
    cases hraw : principal raw member with
    | error e => rw [hraw] at h; cases h
    | ok r =>
      cases hrest : raws.mapM (fun value => principal value member) with
      | error e => rw [hraw, hrest] at h; cases h
      | ok rs =>
        rw [hraw, hrest] at h; cases h
        rw [principal_agree hraw, ih hrest]; rfl

theorem outcomeOf_value {raw : Option Toml} {o : Outcome} (h : outcomeOf raw = some o) :
    raw = some (.str o.value) := by
  unfold outcomeOf at h
  split at h
  · rename_i s
    split at h
    · rename_i hs; cases h; rw [beq_iff_eq] at hs; rw [hs]; rfl
    split at h
    · rename_i hs; cases h; rw [beq_iff_eq] at hs; rw [hs]; rfl
    split at h
    · rename_i hs; cases h; rw [beq_iff_eq] at hs; rw [hs]; rfl
    · cases h
  · cases h

/-- The plane's bound on a lifetime is the stricter one. -/
theorem lifetime_agree {raw : Option Toml} {o : Outcome} {bound : ℤ} {pre : Str} {n : Option ℤ}
    (h : grantLifetime raw o bound pre = .ok n) :
    Contract.Retrospective.lifetime raw o.value pre = .ok () := by
  unfold grantLifetime at h
  unfold Contract.Retrospective.lifetime
  split at h
  · rfl
  · split at h
    · rename_i hn
      obtain ⟨h1, -, rfl⟩ := hn
      exact if_neg (by simp [Outcome.value]; omega)
    · cases h
  · cases h

theorem deadline_agree {raw : Option Toml} {o : Outcome} {pre : Str} {n : Option ℤ}
    (h : reviewDeadline raw o pre = .ok n) :
    Contract.Retrospective.deadline raw o.value pre = .ok () := by
  unfold reviewDeadline at h
  unfold Contract.Retrospective.deadline
  split at h
  · rfl
  · split at h
    · rename_i hn
      unfold maxReviewDeadlineSeconds at hn
      exact if_neg (by simp [Outcome.value]; omega)
    · cases h
  · cases h
  · rfl
  · cases h

/-- **Rule by rule, the contract parses what the plane parses.** -/
theorem rule_agree {raw : Toml} {index : ℕ} {bound : ℤ} {r : Rule}
    (h : rule raw index bound = .ok r) :
    Contract.Retrospective.rule raw index = .ok r.recorded := by
  obtain ⟨members, raws, rfl, hne, honly, hid, hidOk, hcap, hcapOk, hscope, hscopeOk, hraws,
    hprincipals, houtcome, hreason, hlifetime, hdigest, hdeadline⟩ := rule_inv h
  have hempty : raws.isEmpty = false := by simpa using hne
  have hout : Contract.outcomes.contains r.outcome.value = true := by
    cases r.outcome <;> decide
  unfold Contract.Retrospective.rule
  simp only [honly, hid, hidOk, hcap, hcapOk, hscope, hscopeOk, hraws, hempty,
    principals_agree hprincipals, outcomeOf_value houtcome, hout, hreason,
    lifetime_agree hlifetime, deadline_agree hdeadline, hdigest,
    bind, Except.bind, pure, Except.pure, if_true, Bool.false_eq_true, if_false]
  rfl

theorem rulesFrom_agree {bound : ℤ} : ∀ {raws : List Toml} {index : ℕ} {rules : List Rule},
    rulesFrom bound index raws = .ok rules →
      Contract.Retrospective.rulesFrom index raws = .ok (rules.map (·.recorded)) := by
  intro raws
  induction raws with
  | nil => intro index rules h; cases h; rfl
  | cons raw raws ih =>
    intro index rules h
    unfold rulesFrom at h
    unfold Contract.Retrospective.rulesFrom
    cases hraw : rule raw index bound with
    | error e => rw [hraw] at h; cases h
    | ok r =>
      cases hrest : rulesFrom bound (index + 1) raws with
      | error e => rw [hraw, hrest] at h; cases h
      | ok rs =>
        rw [hraw, hrest] at h; cases h
        rw [rule_agree hraw, ih hrest]; rfl

end PolicyFile

/-- **Bytes the plane accepts are bytes the contract parses**, rule for rule. -/
theorem parse_agree {raw : List UInt8} {bound : ℤ} (h : parsePolicy toml raw bound = .ok policy) :
    Contract.Retrospective.parse toml raw = .ok (policy.rules.map (·.recorded)) := by
  unfold parsePolicy at h
  split at h
  · cases h
  rename_i document hloads
  split at h
  · cases h
  rename_i hroot
  split at h
  · rename_i hformat
    split at h
    · cases h
    rename_i reason rules hbody
    cases h
    unfold PolicyFile.parseBody at hbody
    simp only [bind, Except.bind, pure, Except.pure, throw, throwThe, MonadExceptOf.throw] at hbody
    split at hbody <;> [rename_i revision hrevision; cases hbody]
    split at hbody <;> [cases hbody; rename_i honly]
    split at hbody <;> [cases hbody; rename_i text htext]
    split at hbody <;> [rename_i raws hraws; cases hbody]
    split at hbody <;> [cases hbody; rename_i parsed hparsed]
    split at hbody <;> [cases hbody; rename_i hdup]
    cases hbody
    have hdup' : PolicyFile.duplicate []
        ((rules.map (·.recorded)).map Contract.Rule.ruleId) = none := by
      rw [List.map_map]; exact hdup
    unfold Contract.Retrospective.parse
    simp only [hloads, hroot, hformat, hrevision, honly, htext, hraws,
      PolicyFile.rulesFrom_agree hparsed, hdup', bind, Except.bind, pure, Except.pure,
      Option.isSome_none, Bool.false_eq_true, if_false]
  · cases h

/-! ## Evaluation -/

theorem text_mem_held {q : DecisionQuestion} {r : PrincipalReference} :
    r.text ∈ (lit "user:" ++ q.principal.userName) :: q.principal.groupNames.map (lit "group:" ++ ·) ↔
      r.isHeldBy q.principal = true := by
  have huser : ∀ n : Str, PrincipalReference.text ⟨.user, n⟩ = lit "user:" ++ n := fun _ => rfl
  have hgroup : ∀ n : Str, PrincipalReference.text ⟨.group, n⟩ = lit "group:" ++ n := fun _ => rfl
  have hne : ∀ m n : Str, lit "user:" ++ m ≠ lit "group:" ++ n := by
    intro m n h
    have := congrArg (List.take 1) h
    rw [List.take_append_of_le_length (by decide), List.take_append_of_le_length (by decide)] at this
    exact absurd this (by decide)
  obtain ⟨kind, name⟩ := r
  cases kind with
  | user =>
    rw [huser]
    simp only [List.mem_cons, List.append_cancel_left_eq, List.mem_map,
      PrincipalReference.isHeldBy, beq_iff_eq]
    constructor
    · rintro (h | ⟨g, -, h⟩)
      · exact h
      · exact absurd h.symm (hne _ _)
    · exact fun h => .inl h
  | group =>
    rw [hgroup]
    simp only [List.mem_cons, List.mem_map, List.append_cancel_left_eq,
      PrincipalReference.isHeldBy, List.contains_iff_mem]
    constructor
    · rintro (h | ⟨g, hg, rfl⟩)
      · exact absurd h.symm (hne _ _)
      · exact hg
    · exact fun h => .inr ⟨name, h, rfl⟩

/-- A reference a rule of the asked scope and capability names is recorded exactly
when the caller holds it. -/
theorem text_mem_referencesRead {r : Rule} (hr : r ∈ policy.rules)
    (hcap : r.capability = question.ask.capability) (hscope : r.scope = question.ask.scope)
    {p : PrincipalReference} (hp : p ∈ r.principals) :
    p.text ∈ referencesRead policy question ↔ p.isHeldBy question.principal = true := by
  unfold referencesRead
  simp only [mem_sortedSet, List.mem_filter, text_mem_held, List.contains_iff_mem]
  refine ⟨fun h => h.1, fun h => ⟨h, ?_⟩⟩
  rw [List.mem_flatMap]
  exact ⟨r, List.mem_filter.2 ⟨hr, by simp [hcap, hscope]⟩, List.mem_map.2 ⟨p, hp, rfl⟩⟩

/-- **The recorded references decide a rule as the full identity does.** -/
theorem applies_agree {r : Rule} (hr : r ∈ policy.rules) :
    r.recorded.applies question.ask.scope question.ask.capability
      (referencesRead policy question) question.ask.argumentsDigest = r.applies question := by
  unfold Contract.Rule.applies Rule.applies Rule.recorded
  simp only
  by_cases hcap : r.capability = question.ask.capability
  · by_cases hscope : r.scope = question.ask.scope
    · have hany : (r.principals.map (·.text)).any (referencesRead policy question).contains =
          r.principals.any (·.isHeldBy question.principal) := by
        rw [List.any_map, Bool.eq_iff_iff]
        simp only [List.any_eq_true, Function.comp_apply, List.contains_iff_mem]
        constructor
        · rintro ⟨p, hp, h⟩; exact ⟨p, hp, (text_mem_referencesRead hr hcap hscope hp).1 h⟩
        · rintro ⟨p, hp, h⟩; exact ⟨p, hp, (text_mem_referencesRead hr hcap hscope hp).2 h⟩
      rw [hany]
      cases question.ask.argumentsDigest <;> cases r.argumentsDigest <;> simp
    · have : (r.scope == question.ask.scope) = false := by simpa using hscope
      rw [this]; simp
  · have : (r.capability == question.ask.capability) = false := by simpa using hcap
    rw [this]; simp

theorem select_agree (applying : List Rule) : ∀ order : List (Outcome × Reason),
    Contract.select (applying.map (·.recorded)) (order.map fun o => (o.1.value, o.2.value)) =
      (select applying order).map (·.triple) := by
  intro order
  induction order with
  | nil => rfl
  | cons o rest ih =>
    obtain ⟨outcome, reason⟩ := o
    have hfind : (applying.map (·.recorded)).find? (·.outcome == outcome.value) =
        (applying.find? (·.outcome == outcome)).map (·.recorded) := by
      have hpred : (fun r : Contract.Rule => r.outcome == outcome.value) ∘ (·.recorded) =
          (fun r : Rule => r.outcome == outcome) := by
        funext r
        rw [Bool.eq_iff_iff]
        simp [Rule.recorded]
      rw [List.find?_map, hpred]
    simp only [List.map_cons, Contract.select, select, hfind]
    cases applying.find? (·.outcome == outcome) with
    | none => exact ih
    | some r => rfl

/-- Every outcome is in the order, so `evaluate` always answers. -/
theorem select_isSome {applying : List Rule} (h : applying ≠ []) :
    (select applying strictestFirst).isSome = true := by
  obtain ⟨r, hr⟩ := List.exists_mem_of_ne_nil _ h
  unfold strictestFirst
  simp only [select]
  cases hd : applying.find? (·.outcome == .deny) with
  | some _ => rfl
  | none =>
    cases hs : applying.find? (·.outcome == .suspend) with
    | some _ => rfl
    | none =>
      cases ha : applying.find? (·.outcome == .allow) with
      | some _ => rfl
      | none =>
        have h1 := List.find?_eq_none.1 hd r hr
        have h2 := List.find?_eq_none.1 hs r hr
        have h3 := List.find?_eq_none.1 ha r hr
        cases ho : r.outcome <;> simp [ho] at h1 h2 h3

theorem evaluate_ok (policy : Policy) (question : DecisionQuestion) :
    ∃ verdict, evaluate policy question = .ok verdict := by
  unfold evaluate
  simp only
  split
  · exact ⟨_, rfl⟩
  · rename_i hne
    rw [List.isEmpty_iff] at hne
    obtain ⟨v, hv⟩ := Option.isSome_iff_exists.1 (select_isSome hne)
    exact ⟨v, by rw [hv]⟩

theorem select_mem {applying : List Rule} {v : Verdict} : ∀ {order : List (Outcome × Reason)},
    select applying order = some v → (v.outcome, v.reason) ∈ order := by
  intro order
  induction order with
  | nil => intro h; cases h
  | cons o rest ih =>
    obtain ⟨outcome, reason⟩ := o
    intro h
    simp only [select] at h
    split at h
    · cases h; exact List.mem_cons_self
    · exact List.mem_cons_of_mem _ (ih h)

/-- A live verdict is one of the recipe's four. -/
theorem evaluate_reason {v : Verdict} (h : evaluate policy question = .ok v) :
    (v.outcome, v.reason) ∈ (.deny, .policyAbsent) :: strictestFirst := by
  unfold evaluate at h
  simp only at h
  split at h
  · cases h; exact List.mem_cons_self
  · split at h
    · rename_i hselect
      cases h
      exact List.mem_cons_of_mem _ (select_mem hselect)
    · cases h

/-- **Live and retrospective evaluation agree**: over bytes the plane accepts, the
contract's evaluation of the recorded references answers the live triple. -/
theorem evaluate_agree {raw : List UInt8} {bound : ℤ} {verdict : Verdict}
    (h : parsePolicy toml raw bound = .ok policy) (hv : evaluate policy question = .ok verdict) :
    Contract.evaluateRecordedInputs toml raw question.ask.scope question.ask.capability
      (referencesRead policy question) question.ask.argumentsDigest = .ok (.triple verdict.triple) := by
  have hfilter : (policy.rules.map (·.recorded)).filter (·.applies question.ask.scope
      question.ask.capability (referencesRead policy question) question.ask.argumentsDigest) =
      (policy.rules.filter (·.applies question)).map (·.recorded) := by
    rw [List.filter_map]
    congr 1
    exact List.filter_congr fun r hr => applies_agree hr
  unfold Contract.evaluateRecordedInputs
  rw [parse_agree h]
  simp only [hfilter, List.isEmpty_map]
  unfold evaluate at hv
  simp only at hv
  split at hv
  · rename_i hempty
    cases hv
    rw [if_pos hempty]; rfl
  · rename_i hne
    rw [if_neg hne]
    have hsel := select_agree (policy.rules.filter (·.applies question)) strictestFirst
    rw [show strictestFirst.map (fun o => (o.1.value, o.2.value)) = Contract.strictestFirst from rfl]
      at hsel
    rw [hsel]
    split at hv
    · rename_i v hselect
      cases hv
      rw [hselect]; rfl
    · cases hv

end SayFirst.Plane

/-! ## The contract's evaluation always answers -/

namespace SayFirst.Contract

open Py
open SayFirst.Plane (Toml TomlLib)

variable {toml : TomlLib}

theorem rule_outcome {raw : Toml} {index : ℕ} {r : Rule}
    (h : Retrospective.rule raw index = .ok r) : r.outcome ∈ outcomes := by
  unfold Retrospective.rule at h
  simp only [bind, Except.bind, pure, Except.pure, throw, throwThe, MonadExceptOf.throw] at h
  cases raw with
  | table members =>
    simp only at h
    split at h
    · cases h
    split at h <;> [skip; cases h]
    split at h <;> [skip; cases h]
    split at h <;> [skip; cases h]
    split at h <;> [skip; cases h]
    split at h <;> [skip; cases h]
    split at h <;> [cases h; skip]
    split at h <;> [skip; cases h]
    split at h <;> [cases h; skip]
    split at h <;> [cases h; skip]
    split at h <;> [skip; cases h]
    split at h <;> [rename_i hout; cases h]
    split at h <;> [cases h; skip]
    split at h <;> [cases h; skip]
    split at h <;> [cases h; skip]
    split at h <;> [cases h; skip]
    cases h
    simpa using hout
  | _ => cases h

theorem rulesFrom_outcome : ∀ {raws : List Toml} {index : ℕ} {rules : List Rule},
    Retrospective.rulesFrom index raws = .ok rules → ∀ r ∈ rules, r.outcome ∈ outcomes := by
  intro raws
  induction raws with
  | nil => intro index rules h r hr; cases h; cases hr
  | cons raw raws ih =>
    intro index rules h r hr
    unfold Retrospective.rulesFrom at h
    cases hfirst : Retrospective.rule raw index with
    | error e => rw [hfirst] at h; cases h
    | ok first =>
      cases hrest : Retrospective.rulesFrom (index + 1) raws with
      | error e => rw [hfirst, hrest] at h; cases h
      | ok rest =>
        rw [hfirst, hrest] at h
        cases h
        rcases List.mem_cons.1 hr with rfl | hr
        · exact rule_outcome hfirst
        · exact ih hrest r hr

theorem parse_outcome {policy : List UInt8} {rules : List Rule}
    (h : Retrospective.parse toml policy = .ok rules) : ∀ r ∈ rules, r.outcome ∈ outcomes := by
  unfold Retrospective.parse at h
  simp only [bind, Except.bind, pure, Except.pure, throw, throwThe, MonadExceptOf.throw] at h
  split at h <;> [cases h; skip]
  split at h <;> [cases h; skip]
  split at h <;> [skip; cases h]
  split at h <;> [skip; cases h]
  split at h <;> [cases h; skip]
  split at h <;> [cases h; skip]
  split at h <;> [skip; cases h]
  split at h <;> [cases h; skip]
  rename_i rules' hrules
  split at h <;> [cases h; skip]
  cases h
  exact rulesFrom_outcome hrules

/-- Every outcome is in the order, so a rule that applies is always found. -/
theorem select_outcome {applying : List Rule} (hne : applying ≠ [])
    (hout : ∀ r ∈ applying, r.outcome ∈ outcomes) :
    ∃ t, select applying strictestFirst = some t := by
  obtain ⟨r, hr⟩ := List.exists_mem_of_ne_nil _ hne
  unfold strictestFirst
  simp only [select]
  cases hd : applying.find? (·.outcome == lit "deny") with
  | some _ => exact ⟨_, rfl⟩
  | none =>
    cases hs : applying.find? (·.outcome == lit "suspend") with
    | some _ => exact ⟨_, rfl⟩
    | none =>
      cases ha : applying.find? (·.outcome == lit "allow") with
      | some _ => exact ⟨_, rfl⟩
      | none =>
        have h1 := List.find?_eq_none.1 hd r hr
        have h2 := List.find?_eq_none.1 hs r hr
        have h3 := List.find?_eq_none.1 ha r hr
        have := hout r hr
        simp [outcomes] at this h1 h2 h3
        rcases this with h | h | h
        · exact absurd h h3
        · exact absurd h h1
        · exact absurd h h2

theorem evaluateRecordedInputs_ok (policy : List UInt8) (scope capability : Str)
    (references : List Str) (digest : Option Str) :
    ∃ e, evaluateRecordedInputs toml policy scope capability references digest = .ok e := by
  unfold evaluateRecordedInputs
  cases hp : Retrospective.parse toml policy with
  | error message => exact ⟨_, rfl⟩
  | ok rules =>
    simp only
    split
    · exact ⟨_, rfl⟩
    · rename_i hne
      rw [List.isEmpty_iff] at hne
      obtain ⟨t, ht⟩ := select_outcome hne fun r hr => parse_outcome hp r (List.mem_of_mem_filter hr)
      rw [ht]
      exact ⟨_, rfl⟩

/-- **Re-derivation always answers.** -/
theorem rederive_ok (recorded : RecordedDecision) (policy : List UInt8) :
    ∃ r, rederiveRecordedDecision toml recorded policy = .ok r := by
  unfold rederiveRecordedDecision
  split
  · rename_i references _ _
    split
    · exact ⟨_, rfl⟩
    split
    · exact ⟨_, rfl⟩
    have heval : ∃ e, evaluateRecordedInputs toml policy recorded.scope recorded.capability
        references recorded.argumentsDigest = .ok e := evaluateRecordedInputs_ok _ _ _ _ _
    obtain ⟨e, he⟩ := heval
    rw [he]
    cases e with
    | unparseable message => exact ⟨_, rfl⟩
    | triple t =>
      simp only
      split <;> exact ⟨_, rfl⟩
  · exact ⟨_, rfl⟩

end SayFirst.Contract
