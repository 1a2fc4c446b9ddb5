import SayFirst.Lib.Run
import SayFirst.Proof.ApprovalStore

/-!
# At most one live wait per question

A wait is opened only where its question has no live approval, and nothing comes
to life later, except an approval given at an instant read before the deadline
and applied after it.

* `Indexed` — the two indexes of the store name the same records.
* `Turns` — what an operation leaves of the records: none comes to life, and an
  approval nobody spent stands.
* `one_live_wait` — the law, over every run.
-/

namespace SayFirst.Plane

open Py

/-- Still answering its question, by the rule of `_newest_live`. -/
def Approval.Live (a : Approval) (t : ℤ) : Prop :=
  a.consumed = false ∧ a.stateAt t ≠ .expired ∧ ¬ (a.state = .rejected ∧ a.deadline ≤ t)

/-- A person's yes that nobody spent. -/
def Approval.Standing (a : Approval) : Prop := a.state = .approved ∧ a.consumed = false

theorem Approval.Standing.live {a : Approval} (h : a.Standing) (t : ℤ) : a.Live t := by
  refine ⟨h.2, ?_, fun hr => ?_⟩
  · unfold Approval.stateAt
    rw [h.1, if_neg fun hp => by cases hp.1]
    decide
  · rw [h.1] at hr
    cases hr.1

/-- What is over stays over. -/
theorem Approval.Live.earlier {a : Approval} {t t' : ℤ} (hle : t ≤ t') (h : a.Live t') :
    a.Live t := by
  refine ⟨h.1, fun hexpired => h.2.1 ?_, fun hr => h.2.2 ⟨hr.1, hr.2.trans hle⟩⟩
  unfold Approval.stateAt at hexpired ⊢
  split at hexpired
  · rename_i hover
    rw [if_pos ⟨hover.1, hover.2.trans hle⟩]
  · split
    · rfl
    · exact hexpired

namespace ApprovalStore

variable {s s' s'' : ApprovalStore} {key : ApprovalKey} {now : ℤ} {spent : Option ApprovalKey}

/-- Every record is indexed under its key and its question, and nothing else is. -/
structure Indexed (s : ApprovalStore) : Prop where
  record : ∀ k a, s.byReference k = some a → a.key = k ∧ k ∈ s.byQuestion a.question
  index : ∀ q k, k ∈ s.byQuestion q → ∃ a, s.byReference k = some a ∧ a.question = q
  once : ∀ q, (s.byQuestion q).Nodup
  /-- An act is itself a publication. -/
  published : ∀ k a, s.byReference k = some a → a.state = .approved → a.published = true

theorem empty_indexed : Indexed .empty where
  record _ _ h := by cases h
  index _ _ h := by cases h
  once _ := List.nodup_nil
  published _ _ h := by cases h

theorem Indexed.of_eq (h : Indexed s) (hr : s'.byReference = s.byReference)
    (hq : s'.byQuestion = s.byQuestion) : Indexed s' where
  record k a ha := by rw [hq]; exact h.record k a (hr ▸ ha)
  index q k hk := by rw [hr]; exact h.index q k (hq ▸ hk)
  once q := by rw [hq]; exact h.once q
  published k a ha := h.published k a (hr ▸ ha)

/-- No record comes to life, and a person's yes stands unless it is the one spent. -/
structure Turns (spent : Option ApprovalKey) (s s' : ApprovalStore) : Prop where
  fades : ∀ k y, s'.byReference k = some y →
    ∃ x, s.byReference k = some x ∧ y.question = x.question ∧ ∀ t, y.Live t → x.Live t
  stands : ∀ k x, s.byReference k = some x → x.Standing →
    ∃ y, s'.byReference k = some y ∧ y.question = x.question ∧ y.state = .approved ∧
      (y.consumed = false ∨ spent = some k)

theorem Turns.of_eq (hr : s'.byReference = s.byReference) : Turns spent s s' where
  fades k y hy := ⟨y, hr ▸ hy, rfl, fun _ h => h⟩
  stands k x hx hs := ⟨x, by rw [hr]; exact hx, rfl, hs.1, .inl hs.2⟩

theorem Turns.refl (s : ApprovalStore) : Turns spent s s := .of_eq rfl

theorem Turns.trans (h : Turns none s s') (h' : Turns none s' s'') : Turns none s s'' where
  fades k z hz := by
    obtain ⟨y, hy, hq', hlive'⟩ := h'.fades k z hz
    obtain ⟨x, hx, hq, hlive⟩ := h.fades k y hy
    exact ⟨x, hx, hq'.trans hq, fun t ht => hlive t (hlive' t ht)⟩
  stands k x hx hs := by
    obtain ⟨y, hy, hq, hstate, hunspent⟩ := h.stands k x hx hs
    obtain ⟨z, hz, hq', hrest⟩ := h'.stands k y hy ⟨hstate, hunspent.resolve_right nofun⟩
    exact ⟨z, hz, hq'.trans hq, hrest⟩

theorem put_cases {k : ApprovalKey} {y a : Approval} (hy : (s.put key a).byReference k = some y) :
    (k = key ∧ y = a) ∨ s.byReference k = some y := by
  rw [put_byReference] at hy
  split at hy
  · rename_i hkey
    cases hy
    exact .inl ⟨hkey, rfl⟩
  · exact .inr hy

/-- A record replaced by one of the same key and question. -/
theorem put_indexed (hi : Indexed s) {kept a : Approval} (hk : s.byReference key = some kept)
    (href : a.approvalRef = kept.approvalRef) (hq : a.question = kept.question)
    (hpublished : a.state = .approved → a.published = true) : Indexed (s.put key a) := by
  refine ⟨fun k y hy => ?_, fun q k hmem => ?_, hi.once, fun k y hy => ?_⟩
  · rcases put_cases hy with ⟨rfl, rfl⟩ | hy
    · obtain ⟨hkey, hmem⟩ := hi.record k kept hk
      refine ⟨?_, by rw [hq]; exact hmem⟩
      rw [← hkey]
      unfold Approval.key Approval.scope
      rw [href, hq]
    · exact hi.record k y hy
  · obtain ⟨x, hx, hxq⟩ := hi.index q k hmem
    rw [put_byReference]
    split
    · rename_i hkey
      subst hkey
      rw [hk] at hx
      cases hx
      exact ⟨a, rfl, hq.trans hxq⟩
    · exact ⟨x, hx, hxq⟩
  · rcases put_cases hy with ⟨rfl, rfl⟩ | hy
    · exact hpublished
    · exact hi.published k y hy

theorem put_turns (hi : Indexed s) {kept a : Approval} (hk : s.byReference key = some kept)
    (href : a.approvalRef = kept.approvalRef) (hq : a.question = kept.question)
    (hpublished : a.state = .approved → a.published = true)
    (hlive : ∀ t, a.Live t → kept.Live t)
    (hstands : kept.Standing → a.state = .approved ∧ (a.consumed = false ∨ spent = some key)) :
    Indexed (s.put key a) ∧ Turns spent s (s.put key a) := by
  refine ⟨put_indexed hi hk href hq hpublished, fun k y hy => ?_, fun k x hx hs => ?_⟩
  · rcases put_cases hy with ⟨rfl, rfl⟩ | hy
    · exact ⟨kept, hk, hq, hlive⟩
    · exact ⟨y, hy, rfl, fun _ h => h⟩
  · rw [put_byReference]
    split
    · rename_i hkey
      subst hkey
      rw [hk] at hx
      cases hx
      exact ⟨a, rfl, hq, hstands hs⟩
    · exact ⟨x, hx, rfl, hs.1, .inl hs.2⟩

theorem indexLapse_turns (h : Indexed s ∧ Turns spent s'' s) (a : Approval) :
    Indexed (s.indexLapse key a) ∧ Turns spent s'' (s.indexLapse key a) := by
  obtain ⟨hi, ht⟩ := h
  refine ⟨hi.of_eq (indexLapse_byReference a) (indexLapse_byQuestion a), fun k y hy => ?_,
    fun k x hx hs => ?_⟩
  · rw [indexLapse_byReference] at hy
    exact ht.fades k y hy
  · rw [indexLapse_byReference]
    exact ht.stands k x hx hs

/-- A record that is dropped leaves both indexes; a person's yes is not dropped. -/
theorem drop_turns (hi : Indexed s) {kept : Approval} (hk : s.byReference key = some kept)
    (hno : ¬ kept.Standing) :
    Indexed (s.drop key kept).2 ∧ Turns spent s (s.drop key kept).2 := by
  obtain ⟨hkey, hmem⟩ := hi.record key kept hk
  have hquestion : (s.drop key kept).2.byQuestion = fun q =>
      if q = kept.question then (s.byQuestion kept.question).erase key else s.byQuestion q := by
    unfold drop
    have hne : (s.byQuestion kept.question).isEmpty = false := by
      rw [List.isEmpty_eq_false_iff]
      exact List.ne_nil_of_mem hmem
    simp only [hne, Bool.false_eq_true, if_false, hmem, not_true]
  have hrecord := @drop_byReference s key kept
  refine ⟨⟨fun k y hy => ?_, fun q k hmem' => ?_, fun q => ?_, fun k y hy => ?_⟩, fun k y hy => ?_,
    fun k x hx hs => ?_⟩
  · rw [hrecord] at hy
    split at hy
    · cases hy
    · rename_i hne
      obtain ⟨hykey, hymem⟩ := hi.record k y hy
      refine ⟨hykey, ?_⟩
      rw [hquestion]
      simp only
      split
      · rename_i hq
        rw [hq] at hymem
        exact (List.mem_erase_of_ne hne).2 hymem
      · exact hymem
  · rw [hquestion] at hmem'
    simp only at hmem'
    have hk' : k ≠ key ∧ k ∈ s.byQuestion q := by
      split at hmem'
      · rename_i hq
        subst hq
        exact (List.Nodup.mem_erase_iff (hi.once _)).1 hmem'
      · rename_i hq
        refine ⟨?_, hmem'⟩
        rintro rfl
        obtain ⟨x, hx, hxq⟩ := hi.index q k hmem'
        rw [hk] at hx
        cases hx
        exact hq hxq.symm
    obtain ⟨x, hx, hxq⟩ := hi.index q k hk'.2
    exact ⟨x, by rw [hrecord, if_neg hk'.1]; exact hx, hxq⟩
  · rw [hquestion]
    simp only
    split
    · exact (hi.once _).erase _
    · exact hi.once q
  · rw [hrecord] at hy
    split at hy
    · cases hy
    · exact hi.published k y hy
  · rw [hrecord] at hy
    split at hy
    · cases hy
    · exact ⟨y, hy, rfl, fun _ h => h⟩
  · rw [hrecord]
    split
    · rename_i hkk
      subst hkk
      rw [hk] at hx
      cases hx
      exact absurd hs hno
    · exact ⟨x, hx, rfl, hs.1, .inl hs.2⟩

/-! ## The operations -/

theorem publish_turns (hi : Indexed s) :
    Indexed (s.publish key).2 ∧ Turns none s (s.publish key).2 := by
  rcases publish_cases s key with ⟨h, -⟩ | ⟨kept, published, h, hk, hf⟩
  · rw [h]
    exact ⟨hi, .refl s⟩
  · rw [h]
    refine put_turns hi hk (by rw [hf]) (by rw [hf]) (fun _ => by rw [hf]) (fun t hlive => ?_)
      fun hs => ?_
    · unfold Approval.Live Approval.stateAt at hlive
      rw [hf] at hlive
      exact hlive
    · rw [hf]
      exact ⟨hs.1, .inl hs.2⟩

theorem abandon_turns (hi : Indexed s) :
    Indexed (s.abandon key).2 ∧ Turns none s (s.abandon key).2 := by
  rcases abandon_cases s key with h | ⟨kept, h, hk, hpending, -⟩
  · rw [h]
    exact ⟨hi, .refl s⟩
  · rw [h]
    refine drop_turns hi hk fun hs => ?_
    rw [hs.1] at hpending
    cases hpending

theorem claim_turns (hi : Indexed s) :
    Indexed (s.claim key).2 ∧ Turns none s (s.claim key).2 := by
  rcases claim_cases s key with ⟨raised, h⟩ | ⟨kept, claimed, h, hk, happroved, -, hf⟩
  · rw [h]
    exact ⟨hi, .refl s⟩
  · rw [h]
    refine put_turns hi hk (by rw [hf]) (by rw [hf]) (fun _ => ?_) (fun t hlive => ?_) fun hs => ?_
    · rw [hf]
      exact hi.published key kept hk happroved
    · unfold Approval.Live Approval.stateAt at hlive
      rw [hf] at hlive
      exact hlive
    · rw [hf]
      exact ⟨hs.1, .inl hs.2⟩

theorem releaseClaim_turns (hi : Indexed s) :
    Indexed (s.releaseClaim key).2 ∧ Turns none s (s.releaseClaim key).2 := by
  rcases releaseClaim_cases s key with h | ⟨kept, released, h, hk, -, hf⟩
  · rw [h]
    exact ⟨hi, .refl s⟩
  · rw [h]
    refine put_turns hi hk (by rw [hf]) (by rw [hf]) (fun happroved => ?_) (fun t hlive => ?_)
      fun hs => ?_
    · rw [hf] at happroved ⊢
      exact hi.published key kept hk happroved
    · unfold Approval.Live Approval.stateAt at hlive
      rw [hf] at hlive
      exact hlive
    · rw [hf]
      exact ⟨hs.1, .inl hs.2⟩

/-- A yes that is consumed is spent, and kept. -/
theorem consume_turns (hi : Indexed s) :
    Indexed (s.consume key now).2 ∧ Turns (some key) s (s.consume key now).2 := by
  unfold consume
  split
  · exact ⟨hi, .refl s⟩
  · rename_i kept hread
    have hk := read_ok hread
    split
    · exact ⟨hi, .refl s⟩
    rename_i happroved
    split
    · exact ⟨hi, .refl s⟩
    split
    · exact ⟨hi, .refl s⟩
    split
    · exact ⟨hi, .refl s⟩
    · rename_i consumed hb
      have hf := ApprovalFields.build_ok hb
      refine indexLapse_turns (put_turns hi hk (by rw [hf]) (by rw [hf]) (fun _ => ?_)
        (fun t hlive => ?_) fun hs => ?_) consumed
      · rw [hf]
        exact hi.published key kept hk (by simpa using happroved)
      · have hunspent := hlive.1
        rw [hf] at hunspent
        cases hunspent
      · rw [hf]
        exact ⟨hs.1, .inr rfl⟩

/-- A wait that ran out is over, and nobody's yes. -/
theorem end_turns (hi : Indexed s) {kept expired : Approval} (hk : s.byReference key = some kept)
    (hpending : kept.state = .pending)
    (hb : ({ kept.toApprovalFields with
      state := .expired, resolvedAt := some kept.deadline } : ApprovalFields).build = .ok expired) :
    Indexed ((s.put key expired).indexLapse key expired) ∧
      Turns none s ((s.put key expired).indexLapse key expired) := by
  have hf := ApprovalFields.build_ok hb
  refine indexLapse_turns (put_turns hi hk (by rw [hf]) (by rw [hf]) (fun happroved => ?_)
    (fun t hlive => ?_) fun hs => ?_) expired
  · rw [hf] at happroved
    cases happroved
  · refine absurd ?_ hlive.2.1
    unfold Approval.stateAt
    rw [hf]
    rfl
  · rw [hs.1] at hpending
    cases hpending

theorem expirePast_turns (hi : Indexed s) :
    Indexed (s.expirePast now).2 ∧ Turns none s (s.expirePast now).2 := by
  refine @expireLoop_rule now (fun t => Indexed t ∧ Turns none s t) (fun t due h => ?_)
    (fun t key kept expired h hk hp _ hb => ?_) _ s [] ⟨hi, .refl s⟩
  · exact ⟨h.1.of_eq rfl rfl, h.2.trans (.of_eq rfl)⟩
  · obtain ⟨hi', ht'⟩ := end_turns h.1 hk hp hb
    exact ⟨hi', h.2.trans ht'⟩

theorem forgetLapsed_turns (hi : Indexed s) :
    Indexed (s.forgetLapsed now).2 ∧ Turns none s (s.forgetLapsed now).2 := by
  refine @forgetLoop_rule now (fun t => Indexed t ∧ Turns none s t) (fun t lapsing h => ?_)
    (fun t key kept h hk huse => ?_) _ s [] ⟨hi, .refl s⟩
  · exact ⟨h.1.of_eq rfl rfl, h.2.trans (.of_eq rfl)⟩
  · have hno : ¬ kept.Standing := by
      intro hs
      -- nothing can say when a yes nobody spent lapses
      simp [isOfNoFurtherUse, lapseInstant, hs.1, hs.2] at huse
    obtain ⟨hi', ht'⟩ := drop_turns h.1 hk hno
    exact ⟨hi', h.2.trans ht'⟩

/-! ## A person's act -/

/-- The act is one `resolve` takes: on an open wait, at an instant in it, by somebody. -/
def Takes (kept : Approval) (person : Str) (at_ : ℤ) : Prop :=
  kept.state = .pending ∧ kept.requestedAt ≤ at_ ∧ at_ < kept.deadline ∧ person ≠ []

theorem resolved_complaint {kept : Approval} {person : Str} {resolution : ApprovalResolution}
    {reason : Option Str} {at_ : ℤ} (hpending : kept.state = .pending) (hat : at_ < kept.deadline) :
    ({ kept.toApprovalFields with
        state := resolution.state, resolvedAt := some at_, person := some person,
        resolutionReason := reason, published := true } : ApprovalFields).complaint = none ↔
      kept.requestedAt ≤ at_ ∧ person ≠ [] := by
  obtain ⟨-, -, hclaimed, hconsumed⟩ := kept.complaint_parts
  have hunspent : kept.consumed = false := by
    by_contra hc
    exact hconsumed ⟨by simpa using hc, by rw [hpending]; decide⟩
  have hunclaimed : kept.claimed = false := by
    by_contra hc
    exact hclaimed ⟨by simpa using hc, by rw [hpending]; decide⟩
  obtain ⟨hwait, hspend⟩ := kept.spend_none
  have hat' : kept.consumedAt = none := by
    unfold ApprovalFields.theSpend at hspend
    rw [hunspent] at hspend
    cases hc : kept.consumedAt with
    | none => rfl
    | some _ => rw [hc] at hspend; cases hspend
  have hopen : ¬ kept.deadline < at_ := by omega
  have hlong : ¬ kept.deadline ≤ kept.requestedAt := by omega
  rcases lt_or_ge at_ kept.requestedAt with hearly | hlate
  · cases resolution <;>
      simp [ApprovalFields.complaint, ApprovalFields.endOfTheWait, ApprovalResolution.state,
        hlong, hearly]
  · have hearly : ¬ at_ < kept.requestedAt := by omega
    cases person with
    | nil =>
      cases resolution <;>
        simp [ApprovalFields.complaint, ApprovalFields.endOfTheWait, ApprovalResolution.state,
          ApprovalFields.theOnePerson, ApprovalState.acted, hlong, hearly, hopen]
    | cons p ps =>
      cases resolution <;>
        simp [ApprovalFields.complaint, ApprovalFields.endOfTheWait, ApprovalResolution.state,
          ApprovalFields.theOnePerson, ApprovalState.acted, ApprovalFields.theSpend, hlong, hearly,
          hopen, hunspent, hunclaimed, hat', hlate]

/-- **A yes that is taken**: the wait becomes a person's yes, whatever the clock reads. -/
theorem resolve_takes (hi : Indexed s) {kept : Approval} {person : Str} {reason : Option Str}
    {at_ : ℤ} (hk : s.byReference key = some kept) (htakes : Takes kept person at_) :
    ∃ resolved, resolved.question = kept.question ∧ resolved.Standing ∧
      Indexed (s.resolve key person .approve reason at_).2 ∧
      ∀ k, (s.resolve key person .approve reason at_).2.byReference k =
        if k = key then some resolved else s.byReference k := by
  obtain ⟨hpending, hafter, hbefore, hperson⟩ := htakes
  have hcomplaint := (@resolved_complaint kept person .approve reason at_ hpending hbefore).2
    ⟨hafter, hperson⟩
  have hunspent : kept.consumed = false := by
    by_contra hc
    have := kept.consumed_approved (by simpa using hc)
    rw [hpending] at this
    cases this
  refine ⟨⟨_, hcomplaint⟩, rfl, ⟨rfl, hunspent⟩, ?_⟩
  have hresolve : (s.resolve key person .approve reason at_).2 =
      (s.put key ⟨_, hcomplaint⟩).indexLapse key ⟨_, hcomplaint⟩ := by
    unfold resolve read
    simp only [hk, hpending]
    rw [if_neg (by simp), if_neg (by omega)]
    unfold ApprovalFields.build
    split
    · rename_i heq
      split at heq
      · cases heq
      · rename_i hsome
        rw [hcomplaint] at hsome
        cases hsome
    · rename_i heq
      split at heq
      · cases heq
        rfl
      · cases heq
  rw [hresolve]
  refine ⟨?_, fun k => by rw [indexLapse_byReference, put_byReference]⟩
  have hindexed : Indexed (s.put key ⟨_, hcomplaint⟩) := put_indexed hi hk rfl rfl fun _ => rfl
  exact hindexed.of_eq (indexLapse_byReference _) (indexLapse_byQuestion _)

/-- An act that is no yes taken: nothing comes to life by it. -/
theorem resolve_turns (hi : Indexed s) (person : Str) (resolution : ApprovalResolution)
    (reason : Option Str) (at_ : ℤ) (hno : ∀ kept, s.byReference key = some kept →
      resolution = .approve → ¬ Takes kept person at_) :
    Indexed (s.resolve key person resolution reason at_).2 ∧
      Turns none s (s.resolve key person resolution reason at_).2 := by
  unfold resolve
  split
  · exact ⟨hi, .refl s⟩
  · rename_i kept hread
    have hk := read_ok hread
    split
    · exact ⟨hi, .refl s⟩
    rename_i hpending
    rw [not_not] at hpending
    split
    · split
      · exact ⟨hi, .refl s⟩
      · rename_i expired hb
        exact end_turns hi hk hpending hb
    rename_i hbefore
    split
    · exact ⟨hi, .refl s⟩
    · rename_i resolved hb
      have hf := ApprovalFields.build_ok hb
      have hheld := resolved.held
      rw [hf, resolved_complaint hpending (by omega)] at hheld
      have hreject : resolution = .reject := by
        cases resolution with
        | approve => exact absurd ⟨hpending, hheld.1, by omega, hheld.2⟩ (hno kept hk rfl)
        | reject => rfl
      refine indexLapse_turns (put_turns hi hk (by rw [hf]) (by rw [hf]) (fun _ => by rw [hf])
        (fun t hlive => ?_) fun hs => ?_) resolved
      · -- a no stands for the wait it ended, and the wait for as long
        have hover := hlive.2.2
        rw [hf, hreject] at hover
        refine ⟨?_, ?_, fun hr => ?_⟩
        · have hunspent := hlive.1
          rw [hf] at hunspent
          exact hunspent
        · unfold Approval.stateAt
          rw [hpending, if_neg fun h => hover ⟨rfl, h.2⟩]
          decide
        · rw [hpending] at hr
          cases hr.1
      · rw [hs.1] at hpending
        cases hpending

/-! ## Looking and opening -/

/-- A look that answers nothing found nothing live. -/
theorem newestLiveIn_none : ∀ {references : List ApprovalKey},
    s.newestLiveIn now true references = .ok none →
      ∀ k ∈ references, ∀ a, s.byReference k = some a → ¬ a.Live now := by
  intro references
  induction references with
  | nil => intro _ k hk; cases hk
  | cons key older ih =>
    intro h k hk a ha hlive
    unfold newestLiveIn at h
    cases hkept : s.byReference key with
    | none => rw [hkept] at h; cases h
    | some kept =>
      simp only [hkept, Bool.not_true, Bool.and_false, Bool.false_eq_true, if_false] at h
      rcases List.mem_cons.1 hk with rfl | hk
      · rw [ha] at hkept
        cases hkept
        rw [if_neg (by rw [hlive.1]; decide), if_neg hlive.2.1, if_neg hlive.2.2] at h
        cases h
      · split at h
        · exact ih h k hk a ha hlive
        split at h
        · exact ih h k hk a ha hlive
        split at h
        · exact ih h k hk a ha hlive
        · cases h

/-- The one live approval of a question is the one a look finds. -/
theorem newestLiveIn_one {inFlight : Bool} {key : ApprovalKey} {a : Approval}
    (ha : s.byReference key = some a) (hlive : a.Live now)
    (hfree : inFlight = true ∨ (a.claimed = false ∧ a.published = true)) :
    ∀ {references : List ApprovalKey}, key ∈ references →
      (∀ k ∈ references, ∃ b, s.byReference k = some b ∧ (b.Live now → k = key)) →
      s.newestLiveIn now inFlight references = .ok (some a) := by
  intro references
  induction references with
  | nil => intro hmem; cases hmem
  | cons k older ih =>
    intro hmem hone
    obtain ⟨kept, hkept, honly⟩ := hone k List.mem_cons_self
    unfold newestLiveIn
    rw [hkept]
    simp only
    by_cases hkey : k = key
    · subst hkey
      rw [ha] at hkept
      cases hkept
      have hseen : ((a.claimed || !a.published) && !inFlight) = false := by
        rcases hfree with hfree | ⟨hc, hp⟩
        · simp [hfree]
        · simp [hc, hp]
      rw [if_neg (by rw [hlive.1]; decide), if_neg (by rw [hseen]; decide), if_neg hlive.2.1,
        if_neg hlive.2.2]
    · have hnext := ih ((List.mem_cons.1 hmem).resolve_left fun h => hkey h.symm)
        fun k' hk' => hone k' (List.mem_cons_of_mem _ hk')
      have hdead : ¬ kept.Live now := fun h => hkey (honly h)
      split
      · exact hnext
      split
      · exact hnext
      split
      · exact hnext
      split
      · exact hnext
      · rename_i hunspent _ hover hlapsed
        exact absurd ⟨by simpa using hunspent, hover, hlapsed⟩ hdead

theorem openWait_indexed (hi : Indexed s) {a : Approval} (h : (s.openWait a).1 = .ok a) :
    Indexed (s.openWait a).2 := by
  obtain ⟨-, -, hpending, hnone, hrec, hidx⟩ := openWait_ok h
  have hfresh : ∀ q, a.key ∉ s.byQuestion q := by
    intro q hmem
    obtain ⟨x, hx, -⟩ := hi.index q a.key hmem
    rw [hnone] at hx
    cases hx
  refine ⟨fun k y hy => ?_, fun q k hmem => ?_, fun q => ?_, fun k y hy happroved => ?_⟩
  · rw [hrec] at hy
    rw [hidx]
    split at hy
    · rename_i hkey
      cases hy
      refine ⟨hkey.symm, ?_⟩
      rw [if_pos rfl, hkey]
      exact List.mem_append_right _ (List.mem_singleton_self _)
    · obtain ⟨hkey, hmem⟩ := hi.record k y hy
      refine ⟨hkey, ?_⟩
      split
      · exact List.mem_append_left _ hmem
      · exact hmem
  · rw [hidx] at hmem
    rw [hrec]
    have hold : k ∈ s.byQuestion q → ∃ x,
        (if k = a.key then some a else s.byReference k) = some x ∧ x.question = q := by
      intro hk
      obtain ⟨x, hx, hxq⟩ := hi.index q k hk
      rw [if_neg fun hkey : k = a.key => hfresh q (hkey ▸ hk)]
      exact ⟨x, hx, hxq⟩
    split at hmem
    · rename_i hq
      rcases List.mem_append.1 hmem with hk | hk
      · exact hold hk
      · rw [List.mem_singleton.1 hk, if_pos rfl]
        exact ⟨a, rfl, hq.symm⟩
    · exact hold hmem
  · rw [hidx]
    split
    · refine List.nodup_append.2 ⟨hi.once q, List.nodup_singleton _, fun k hk k' hk' heq => ?_⟩
      rw [List.mem_singleton.1 hk'] at heq
      exact hfresh q (heq ▸ hk)
    · exact hi.once q
  · rw [hrec] at hy
    split at hy
    · cases hy
      rw [hpending] at happroved
      cases happroved
    · exact hi.published k y hy happroved

end ApprovalStore

/-! ## One live approval -/

namespace ClockedStore

variable {s s' : ClockedStore}

/-- At most one approval of a question is live. -/
def OneLive (s : ClockedStore) (t : ℤ) : Prop :=
  ∀ k k' a a', s.store.byReference k = some a → s.store.byReference k' = some a' →
    a.question = a'.question → a.Live t → a'.Live t → k = k'

/-- A yes that is taken past its deadline finds no other approval of its question live. -/
def Timely (s : ClockedStore) : StoreCall → Prop
  | .resolve key person .approve _ at_ => ∀ kept, s.store.byReference key = some kept →
      ApprovalStore.Takes kept person at_ → kept.deadline ≤ s.now →
      ∀ k a, k ≠ key → s.store.byReference k = some a → a.question = kept.question →
        ¬ a.Live s.now
  | _ => True

/-- What an operation that is no yes taken and no wait opened does to the live approvals. -/
theorem OneLive.turns {spent : Option ApprovalKey} {store : ApprovalStore} {t t' : ℤ} (hle : t ≤ t')
    (h : s.OneLive t) (ht : ApprovalStore.Turns spent s.store store) :
    OneLive { s with store } t' := by
  intro k k' y y' hy hy' hq hlive hlive'
  obtain ⟨x, hx, hxq, hxlive⟩ := ht.fades k y hy
  obtain ⟨x', hx', hxq', hxlive'⟩ := ht.fades k' y' hy'
  refine h k k' x x' hx hx' (by rw [← hxq, ← hxq', hq]) ?_ ?_
  · exact (hxlive t' hlive).earlier hle
  · exact (hxlive' t' hlive').earlier hle

/-- The operations, by what they do to the records. -/
theorem step_cases (hi : s.store.Indexed) {c : StoreCall} (h : s.step c = some s') :
    s'.store.Indexed ∧
    ((∃ spent, s.now ≤ s'.now ∧ ApprovalStore.Turns spent s.store s'.store ∧ s.Timely c ∧
        ∀ k, spent = some k → c = .consume k) ∨
      (∃ a, c = .openIfAbsent a ∧ s'.now = s.now ∧
        s.store.newestLive a.question s.now true = .ok none ∧ (s.store.openWait a).1 = .ok a ∧
        s'.store = (s.store.openWait a).2) ∨
      ∃ key person reason at_ kept resolved, c = .resolve key person .approve reason at_ ∧
        at_ ≤ s.now ∧ s'.now = s.now ∧ s.store.byReference key = some kept ∧
        ApprovalStore.Takes kept person at_ ∧ resolved.question = kept.question ∧
        resolved.Standing ∧ ∀ k, s'.store.byReference k =
          if k = key then some resolved else s.store.byReference k) := by
  cases c with
  | tick now =>
    simp only [step] at h
    split at h
    · cases h
      exact ⟨hi, .inl ⟨none, by assumption, .refl _, trivial, nofun⟩⟩
    · cases h
  | openIfAbsent a =>
    cases h
    unfold ApprovalStore.openIfAbsent
    split
    · exact ⟨hi, .inl ⟨none, le_refl _, .refl _, trivial, nofun⟩⟩
    · exact ⟨hi, .inl ⟨none, le_refl _, .refl _, trivial, nofun⟩⟩
    · rename_i hnone
      cases hopen : (s.store.openWait a).1 with
      | error raised =>
        rw [ApprovalStore.openWait_error hopen]
        exact ⟨hi, .inl ⟨none, le_refl _, .refl _, trivial, nofun⟩⟩
      | ok found =>
        obtain ⟨rfl, -⟩ := ApprovalStore.openWait_ok hopen
        exact ⟨ApprovalStore.openWait_indexed hi hopen,
          .inr (.inl ⟨found, rfl, rfl, hnone, hopen, rfl⟩)⟩
  | publish key =>
    cases h
    obtain ⟨hi', ht⟩ := @ApprovalStore.publish_turns s.store key hi
    exact ⟨hi', .inl ⟨none, le_refl _, ht, trivial, nofun⟩⟩
  | abandon key =>
    cases h
    obtain ⟨hi', ht⟩ := @ApprovalStore.abandon_turns s.store key hi
    exact ⟨hi', .inl ⟨none, le_refl _, ht, trivial, nofun⟩⟩
  | resolve key person resolution reason at_ =>
    simp only [step] at h
    split at h
    · rename_i hat
      cases h
      by_cases htakes : ∃ kept, s.store.byReference key = some kept ∧ resolution = .approve ∧
          ApprovalStore.Takes kept person at_
      · obtain ⟨kept, hk, rfl, htakes⟩ := htakes
        obtain ⟨resolved, hq, hs, hi', hrec⟩ :=
          @ApprovalStore.resolve_takes s.store key hi kept person reason at_ hk htakes
        exact ⟨hi', .inr (.inr ⟨key, person, reason, at_, kept, resolved, rfl, hat, rfl, hk, htakes,
          hq, hs, hrec⟩)⟩
      · have hno : ∀ kept, s.store.byReference key = some kept → resolution = .approve →
            ¬ ApprovalStore.Takes kept person at_ := by
          intro kept hk heq ht
          exact htakes ⟨kept, hk, heq, ht⟩
        obtain ⟨hi', ht⟩ := @ApprovalStore.resolve_turns s.store key hi person resolution reason
          at_ hno
        refine ⟨hi', .inl ⟨none, le_refl _, ht, ?_, nofun⟩⟩
        cases resolution with
        | approve => exact fun kept hk ht => absurd ht (hno kept hk rfl)
        | reject => trivial
    · cases h
  | claim key =>
    cases h
    obtain ⟨hi', ht⟩ := @ApprovalStore.claim_turns s.store key hi
    exact ⟨hi', .inl ⟨none, le_refl _, ht, trivial, nofun⟩⟩
  | releaseClaim key =>
    cases h
    obtain ⟨hi', ht⟩ := @ApprovalStore.releaseClaim_turns s.store key hi
    exact ⟨hi', .inl ⟨none, le_refl _, ht, trivial, nofun⟩⟩
  | consume key =>
    cases h
    obtain ⟨hi', ht⟩ := @ApprovalStore.consume_turns s.store key s.now hi
    exact ⟨hi', .inl ⟨some key, le_refl _, ht, trivial, fun k hk => by cases hk; rfl⟩⟩
  | expirePast at_ =>
    simp only [step] at h
    split at h
    · cases h
      obtain ⟨hi', ht⟩ := @ApprovalStore.expirePast_turns s.store at_ hi
      exact ⟨hi', .inl ⟨none, le_refl _, ht, trivial, nofun⟩⟩
    · cases h
  | forgetLapsed at_ =>
    simp only [step] at h
    split at h
    · cases h
      obtain ⟨hi', ht⟩ := @ApprovalStore.forgetLapsed_turns s.store at_ hi
      exact ⟨hi', .inl ⟨none, le_refl _, ht, trivial, nofun⟩⟩
    · cases h

/-- **One step**: at most one approval stays live just where the act is timely. -/
theorem step_oneLive (hi : s.store.Indexed) (hone : s.OneLive s.now) {c : StoreCall}
    (h : s.step c = some s') : s'.OneLive s'.now ↔ s.Timely c := by
  obtain ⟨-, ⟨spent, hle, ht, htimely, -⟩ | ⟨a, rfl, hnow, hnone, hopen, hstore⟩ |
    ⟨key, person, reason, at_, kept, resolved, rfl, -, hnow, hk, htakes, hq, hs, hrec⟩⟩ :=
    step_cases hi h
  · have hturned : OneLive { s with store := s'.store } s'.now := hone.turns hle ht
    exact iff_of_true hturned htimely
  · obtain ⟨-, -, -, -, hrec, -⟩ := ApprovalStore.openWait_ok hopen
    refine iff_of_true ?_ trivial
    have hother : ∀ k b, s.store.byReference k = some b → b.question = a.question →
        ¬ b.Live s.now := by
      intro k b hb hbq
      refine ApprovalStore.newestLiveIn_none hnone k ?_ b hb
      rw [List.mem_reverse, ← hbq]
      exact (hi.record k b hb).2
    intro k k' y y' hy hy' hq hlive hlive'
    rw [hstore, hrec] at hy hy'
    rw [hnow] at hlive hlive'
    split at hy <;> split at hy'
    · rename_i hkey hkey'
      rw [hkey, hkey']
    · cases hy
      exact absurd hlive' (hother k' y' hy' hq.symm)
    · cases hy'
      exact absurd hlive (hother k y hy hq)
    · exact hone k k' y y' hy hy' hq hlive hlive'
  · constructor
    · intro hone' kept' hk' _ _ k b hne hb hbq hlive
      rw [hk] at hk'
      cases hk'
      refine hne (hone' k key b resolved ?_ ?_ (hbq.trans hq.symm) ?_ (hs.live _))
      · rw [hrec, if_neg hne]
        exact hb
      · rw [hrec, if_pos rfl]
      · rw [hnow]
        exact hlive
    · intro htimely
      -- the wait the yes was given on was the live one, or nothing else is live
      have hother : ∀ k b, k ≠ key → s.store.byReference k = some b →
          b.question = kept.question → ¬ b.Live s.now := by
        intro k b hne hb hbq hlive
        rcases lt_or_ge s.now kept.deadline with hopen | hover
        · refine hne (hone k key b kept hb hk hbq hlive ⟨?_, ?_, fun hr => ?_⟩)
          · by_contra hc
            have happroved := kept.consumed_approved (by simpa using hc)
            rw [htakes.1] at happroved
            cases happroved
          · unfold Approval.stateAt
            rw [htakes.1, if_neg fun h => by omega]
            decide
          · rw [htakes.1] at hr
            cases hr.1
        · exact htimely kept hk htakes hover k b hne hb hbq hlive
      intro k k' y y' hy hy' hq' hlive hlive'
      rw [hrec] at hy hy'
      rw [hnow] at hlive hlive'
      split at hy <;> split at hy'
      · rename_i hkey hkey'
        rw [hkey, hkey']
      · rename_i hne
        cases hy
        exact absurd hlive' (hother k' y' hne hy' (hq'.symm.trans hq))
      · rename_i hne _
        cases hy'
        exact absurd hlive (hother k y hne hy (hq'.trans hq))
      · exact hone k k' y y' hy hy' hq' hlive hlive'

/-- Nobody's yes is dropped before it is spent. -/
theorem step_stands (hi : s.store.Indexed) {c : StoreCall} (h : s.step c = some s')
    {k : ApprovalKey} {a : Approval} (ha : s.store.byReference k = some a) (hs : a.Standing) :
    ∃ a', s'.store.byReference k = some a' ∧ a'.question = a.question ∧ a'.state = .approved ∧
      (a'.consumed = false ∨ c = .consume k) := by
  obtain ⟨-, ⟨spent, -, ht, -, hspent⟩ | ⟨o, rfl, -, -, hopen, hstore⟩ |
    ⟨key, person, reason, at_, kept, resolved, rfl, -, -, hk, htakes, -, -, hrec⟩⟩ :=
    step_cases hi h
  · obtain ⟨y, hy, hq, hstate, hunspent⟩ := ht.stands k a ha hs
    exact ⟨y, hy, hq, hstate, hunspent.imp_right (hspent k)⟩
  · obtain ⟨-, -, -, hnone, hrec, -⟩ := ApprovalStore.openWait_ok hopen
    refine ⟨a, ?_, rfl, hs.1, .inl hs.2⟩
    rw [hstore, hrec, if_neg fun hkey => ?_]
    · exact ha
    · rw [hkey, hnone] at ha
      cases ha
  · refine ⟨a, ?_, rfl, hs.1, .inl hs.2⟩
    rw [hrec, if_neg fun hkey => ?_]
    · exact ha
    · rw [hkey, hk] at ha
      cases ha
      have hstate := hs.1
      rw [htakes.1] at hstate
      cases hstate

/-- The one live approval of a question is the one its asks are answered with. -/
theorem OneLive.found (hone : s.OneLive s.now) (hi : s.store.Indexed) {k : ApprovalKey}
    {a : Approval} (ha : s.store.byReference k = some a) (hlive : a.Live s.now) {inFlight : Bool}
    (hfree : inFlight = true ∨ (a.claimed = false ∧ a.published = true)) :
    s.store.newestLive a.question s.now inFlight = .ok (some a) := by
  refine ApprovalStore.newestLiveIn_one ha hlive hfree
    (List.mem_reverse.2 (hi.record k a ha).2) fun k' hk' => ?_
  obtain ⟨b, hb, hbq⟩ := hi.index _ k' (List.mem_reverse.1 hk')
  exact ⟨b, hb, fun hblive => hone k' k b a hb ha hbq hblive hlive⟩

theorem run_indexed {now : ℤ} {calls : List StoreCall}
    (h : run step ⟨now, .empty⟩ calls = some s) : s.store.Indexed := by
  have hrun := @run_preserves _ _ step (fun s => s.store.Indexed)
  exact hrun (fun _ _ _ hi h => (step_cases hi h).1) ApprovalStore.empty_indexed h

/-- **At most one live wait per question.** Throughout a run, from the clock's now on, at most one
approval of a question is live just where every yes taken past its deadline finds no other live.
In such a run a person's yes that nobody spent is the approval its question's asks are answered
with; and in no run is it dropped. -/
theorem one_live_wait {now : ℤ} {calls : List StoreCall}
    (h : run step ⟨now, .empty⟩ calls = some s) :
    (Throughout step (fun s => ∀ t, s.now ≤ t → s.OneLive t) ⟨now, .empty⟩ calls ↔
      Meets step Timely ⟨now, .empty⟩ calls) ∧
    (Meets step Timely ⟨now, .empty⟩ calls →
      ∀ k a, s.store.byReference k = some a → a.Standing →
        (∀ offered : Approval, offered.question = a.question →
          s.store.openIfAbsent offered s.now = (.ok a, s.store)) ∧
        (a.claimed = false → s.store.findForQuestion a.question s.now = .ok (some a))) ∧
    ∀ c s', s.step c = some s' → ∀ k a, s.store.byReference k = some a → a.Standing →
      ∃ a', s'.store.byReference k = some a' ∧ a'.question = a.question ∧ a'.state = .approved ∧
        (a'.consumed = false ∨ c = .consume k) := by
  have hi := run_indexed h
  have hlater : ∀ s : ClockedStore, (∀ t, s.now ≤ t → s.OneLive t) ↔ s.OneLive s.now := by
    refine fun s => ⟨fun h => h _ (le_refl _), fun h t hle => ?_⟩
    have hstill : ApprovalStore.Turns none s.store s.store := .refl s.store
    exact OneLive.turns hle h hstill
  have hinitial : (⟨now, .empty⟩ : ClockedStore).OneLive now := fun _ _ _ _ hk => by cases hk
  have hindexed : ∀ s c s', s.store.Indexed → step s c = some s' → s'.store.Indexed :=
    fun _ _ _ hi h => (step_cases hi h).1
  refine ⟨throughout_iff hindexed (fun s c s' hi hone h => ?_) ApprovalStore.empty_indexed
    ((hlater _).2 hinitial) h, fun hmeets k a ha hs => ?_, fun c s' hstep k a ha hs =>
      step_stands hi hstep ha hs⟩
  · rw [hlater] at hone ⊢
    exact step_oneLive hi hone h
  · have hrun := @Meets.preserves _ _ step (fun s => s.store.Indexed ∧ s.OneLive s.now) Timely
    obtain ⟨-, hone⟩ := hrun (fun s c s' hP hok h =>
      ⟨hindexed s c s' hP.1 h, (step_oneLive hP.1 hP.2 h).2 hok⟩) hmeets
      ⟨ApprovalStore.empty_indexed, hinitial⟩ h
    refine ⟨fun offered hq => ?_, fun hunclaimed => ?_⟩
    · unfold ApprovalStore.openIfAbsent
      rw [hq, hone.found hi ha (hs.live _) (.inl rfl)]
    · exact hone.found hi ha (hs.live _) (.inr ⟨hunclaimed, hi.published k a ha hs.1⟩)

/-! ### A yes read before the deadline and applied after it -/

/-- One person's question, asked twice. -/
def paid : Question where
  scope := lit "local"
  principalReference := lit "ada"
  capability := lit "pay"
  argumentsDigest := lit "sha256:00"

/-- A wait of ten instants. -/
def wait (ref : Str) (at_ : ℤ) : ApprovalFields where
  approvalRef := ref
  decisionRef := lit "d" ++ ref
  question := paid
  requestedAt := at_
  deadline := at_ + 10

def firstWait : Approval := ⟨wait (lit "a0") 0, by decide⟩

def secondWait : Approval := ⟨wait (lit "a1") 11, by decide⟩

/-- The act is read at nine and applied at eleven, after the wait was asked for again. -/
def lateYes : List StoreCall :=
  [.openIfAbsent firstWait, .publish firstWait.key, .tick 11, .openIfAbsent secondWait,
    .resolve firstWait.key (lit "grace") .approve none 9]

/-- Two approvals of one question are live, and the ask is answered with the newer. -/
theorem live_twice : ∃ s, run step ⟨0, .empty⟩ lateYes = some s ∧ ¬ s.OneLive s.now ∧
    ∃ a, s.store.byReference firstWait.key = some a ∧ a.Standing ∧ ∃ newer,
      s.store.newestLive paid s.now true = .ok (some newer) ∧ newer.approvalRef = lit "a1" := by
  have hrun : (run step ⟨0, .empty⟩ lateYes).map (fun s => (s.now,
      (s.store.byReference firstWait.key).map (·.toApprovalFields),
      (s.store.byReference secondWait.key).map (·.toApprovalFields),
      (s.store.newestLive paid s.now true).map (·.map (·.toApprovalFields)))) =
      some (11, some { firstWait.toApprovalFields with
          state := .approved, resolvedAt := some 9, person := some (lit "grace"),
          published := true },
        some secondWait.toApprovalFields, .ok (some secondWait.toApprovalFields)) := by rfl
  obtain ⟨s, hs, hread⟩ := Option.map_eq_some_iff.1 hrun
  obtain ⟨hnow, hread⟩ := Prod.mk.inj hread
  obtain ⟨hfirst, hread⟩ := Prod.mk.inj hread
  obtain ⟨hsecond, hnewest⟩ := Prod.mk.inj hread
  obtain ⟨a, ha, hfa⟩ := Option.map_eq_some_iff.1 hfirst
  obtain ⟨b, hb, hfb⟩ := Option.map_eq_some_iff.1 hsecond
  have hstanding : a.Standing := by
    unfold Approval.Standing
    rw [hfa]
    exact ⟨rfl, rfl⟩
  refine ⟨s, hs, fun hone => ?_, a, ha, hstanding, ?_⟩
  · have hlive : b.Live s.now := by
      unfold Approval.Live Approval.stateAt
      rw [hfb, hnow]
      decide
    have hquestion : a.question = b.question := by
      rw [hfa, hfb]
      rfl
    have hkeys := hone _ _ a b ha hb hquestion (hstanding.live _) hlive
    exact absurd hkeys (by decide)
  · cases hfound : s.store.newestLive paid s.now true with
    | error raised =>
      rw [hfound] at hnewest
      cases hnewest
    | ok found =>
      rw [hfound] at hnewest
      obtain ⟨newer, rfl, hfn⟩ := Option.map_eq_some_iff.1 (Except.ok.inj hnewest)
      exact ⟨newer, rfl, by rw [hfn]; rfl⟩

/-- The act is applied in time. -/
def timelyYes : List StoreCall :=
  [.openIfAbsent firstWait, .publish firstWait.key, .tick 9,
    .resolve firstWait.key (lit "grace") .approve none 9, .tick 11]

theorem one_live_wait_in_time : ∃ s, run step ⟨0, .empty⟩ timelyYes = some s ∧
    Throughout step (fun s => ∀ t, s.now ≤ t → s.OneLive t) ⟨0, .empty⟩ timelyYes ∧
    ∃ a, s.store.byReference firstWait.key = some a ∧
      s.store.findForQuestion paid s.now = .ok (some a) := by
  have hrun : (run step ⟨0, .empty⟩ timelyYes).map (fun s =>
      (s.store.byReference firstWait.key).map (·.toApprovalFields)) =
      some (some { firstWait.toApprovalFields with
          state := .approved, resolvedAt := some 9, person := some (lit "grace"),
          published := true }) := by rfl
  obtain ⟨s, hs, hfirst⟩ := Option.map_eq_some_iff.1 hrun
  obtain ⟨a, ha, hfa⟩ := Option.map_eq_some_iff.1 hfirst
  have hmeets : Meets step Timely ⟨0, .empty⟩ timelyYes := by
    refine ⟨trivial, fun _ h => ?_⟩
    cases h
    refine ⟨trivial, fun _ h => ?_⟩
    cases h
    refine ⟨trivial, fun _ h => ?_⟩
    cases h
    refine ⟨fun kept hk _ hover => ?_, fun _ _ => ⟨trivial, fun _ _ => trivial⟩⟩
    have hdeadline : (some kept).map (·.deadline) = some 10 := by
      rw [← hk]
      rfl
    have hten : kept.deadline = 10 := Option.some.inj hdeadline
    rw [hten] at hover
    exact absurd hover (by decide)
  obtain ⟨hthroughout, hfound, -⟩ := one_live_wait hs
  have hstanding : a.Standing := by
    unfold Approval.Standing
    rw [hfa]
    exact ⟨rfl, rfl⟩
  have hanswer := (hfound hmeets _ a ha hstanding).2 (by rw [hfa]; rfl)
  rw [hfa] at hanswer
  exact ⟨s, hs, hthroughout.2 hmeets, a, ha, hanswer⟩

end ClockedStore

end SayFirst.Plane
