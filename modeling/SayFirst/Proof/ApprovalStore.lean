import SayFirst.Spec.ApprovalStore

/-!
# What the store's operations do to its records

* `Keeps` — a store that opened nothing, approved nothing and moved no claim.
* `publish_keeps` … `forgetLapsed_keeps` — the operations that are of this kind.
* `openWait_ok`, `resolve_ok`, `claim_ok`, `releaseClaim_ok` — the four that are
  not, each with the one record it changes.
-/

namespace SayFirst.Plane

open Py

/-! ## Records -/

theorem ApprovalFields.build_ok {f : ApprovalFields} {a : Approval} (h : f.build = .ok a) :
    a.toApprovalFields = f := by
  unfold ApprovalFields.build at h
  split at h
  · cases h; rfl
  · cases h

namespace Approval

variable (a : Approval)

/-- What `__post_init__` accepted, one check after the other. -/
theorem complaint_parts : a.endOfTheWait = none ∧ a.theOnePerson = none ∧
    ¬(a.claimed ∧ a.state ≠ .approved) ∧ ¬(a.consumed ∧ a.state ≠ .approved) := by
  have h := a.held
  unfold ApprovalFields.complaint at h
  split at h
  · cases h
  · cases hend : a.endOfTheWait with
    | some _ => rw [hend] at h; cases h
    | none =>
      cases hone : a.theOnePerson with
      | some _ => rw [hend, hone] at h; cases h
      | none =>
        rw [hend, hone] at h
        simp only [Option.orElse_none] at h
        split at h
        · cases h
        split at h
        · cases h
        split at h
        · cases h
        split at h
        · cases h
        exact ⟨rfl, rfl, by assumption, by assumption⟩

theorem spend_none : a.requestedAt < a.deadline ∧ a.theSpend = none := by
  have h := a.held
  unfold ApprovalFields.complaint at h
  split at h
  · cases h
  rename_i hwait
  rw [a.complaint_parts.1, a.complaint_parts.2.1] at h
  simp only [Option.orElse_none] at h
  repeat' split at h
  all_goals first | cases h | exact ⟨by omega, h⟩

theorem claimed_approved (h : a.claimed = true) : a.state = .approved := by
  by_contra hs
  exact a.complaint_parts.2.2.1 ⟨h, hs⟩

theorem consumed_approved (h : a.consumed = true) : a.state = .approved := by
  by_contra hs
  exact a.complaint_parts.2.2.2 ⟨h, hs⟩

/-- A pending record carries nothing of an end, an act or a spend. -/
structure Bare (a : Approval) : Prop where
  wait : a.requestedAt < a.deadline
  person : a.person = none
  reason : a.resolutionReason = none
  claimed : a.claimed = false
  consumed : a.consumed = false
  consumedAt : a.consumedAt = none

theorem pending_bare {a : Approval} (h : a.state = .pending) : a.Bare := by
  obtain ⟨-, hperson, hclaimed, hconsumed⟩ := a.complaint_parts
  obtain ⟨hwait, hspend⟩ := a.spend_none
  have hunspent : a.consumed = false := by
    by_contra hc
    exact hconsumed ⟨by simpa using hc, by rw [h]; decide⟩
  have hunclaimed : a.claimed = false := by
    by_contra hc
    exact hclaimed ⟨by simpa using hc, by rw [h]; decide⟩
  refine ⟨hwait, ?_, ?_, hunclaimed, hunspent, ?_⟩
  · unfold ApprovalFields.theOnePerson at hperson
    rw [h] at hperson
    cases hp : a.person with
    | none => rfl
    | some p =>
      rw [hp] at hperson
      cases hperson
  · have hheld := a.held
    unfold ApprovalFields.complaint at hheld
    by_contra hreason
    obtain ⟨hend, hone, -, -⟩ := a.complaint_parts
    rw [if_neg (not_le.2 hwait), hend, hone,
      if_pos ⟨h, Option.isSome_iff_ne_none.2 hreason⟩] at hheld
    cases hheld
  · unfold ApprovalFields.theSpend at hspend
    rw [hunspent] at hspend
    cases hc : a.consumedAt with
    | none => rfl
    | some _ =>
      rw [hc] at hspend
      cases hspend

/-- **A record a person acted on names that person.** -/
theorem acted_person (h : a.state.acted = true) : ∃ c cs, a.person = some (c :: cs) := by
  have hone := a.complaint_parts.2.1
  unfold ApprovalFields.theOnePerson at hone
  rw [if_pos h] at hone
  split at hone
  · rename_i c cs hp
    exact ⟨c, cs, hp⟩
  · cases hone

end Approval

namespace ApprovalStore

variable {s s' s'' : ApprovalStore} {key : ApprovalKey} {now : ℤ}

@[simp] theorem put_byReference (a : Approval) (k : ApprovalKey) :
    (s.put key a).byReference k = if k = key then some a else s.byReference k := rfl

@[simp] theorem put_byQuestion (a : Approval) : (s.put key a).byQuestion = s.byQuestion := rfl

@[simp] theorem indexLapse_byReference (a : Approval) :
    (s.indexLapse key a).byReference = s.byReference := by
  unfold indexLapse; split <;> rfl

@[simp] theorem indexLapse_byQuestion (a : Approval) :
    (s.indexLapse key a).byQuestion = s.byQuestion := by
  unfold indexLapse; split <;> rfl

theorem read_ok {kept : Approval} (h : s.read key = .ok kept) : s.byReference key = some kept := by
  unfold read at h
  split at h
  · rename_i hk; cases h; exact hk
  · cases h

/-! ## Stores that keep what they were asked to keep -/

/-- `after` is the record `before`, as far as identity, question, deadline and claim go. -/
structure SameRecord (before after : Approval) : Prop where
  ref : after.approvalRef = before.approvalRef
  question : after.question = before.question
  deadline : after.deadline = before.deadline
  approved : after.state = .approved → before.state = .approved
  claimed : after.claimed = before.claimed

theorem SameRecord.refl (a : Approval) : SameRecord a a := ⟨rfl, rfl, rfl, id, rfl⟩

theorem SameRecord.trans {a b c : Approval} (h : SameRecord a b) (h' : SameRecord b c) :
    SameRecord a c :=
  ⟨h'.ref.trans h.ref, h'.question.trans h.question, h'.deadline.trans h.deadline, h.approved ∘ h'.approved,
    h'.claimed.trans h.claimed⟩

/-- The store `s'` holds no record and no reference that `s` did not. -/
structure Keeps (s s' : ApprovalStore) : Prop where
  record : ∀ k y, s'.byReference k = some y → ∃ x, s.byReference k = some x ∧ SameRecord x y
  index : ∀ q k, k ∈ s'.byQuestion q → k ∈ s.byQuestion q

theorem Keeps.refl (s : ApprovalStore) : Keeps s s :=
  ⟨fun _ y h => ⟨y, h, .refl y⟩, fun _ _ h => h⟩

theorem Keeps.trans (h : Keeps s s') (h' : Keeps s' s'') : Keeps s s'' := by
  refine ⟨fun k z hz => ?_, fun q k hk => h.index q k (h'.index q k hk)⟩
  obtain ⟨y, hy, hyz⟩ := h'.record k z hz
  obtain ⟨x, hx, hxy⟩ := h.record k y hy
  exact ⟨x, hx, hxy.trans hyz⟩

/-- Two stores with the same records and the same index. -/
theorem Keeps.of_eq (hr : s'.byReference = s.byReference) (hq : s'.byQuestion = s.byQuestion) :
    Keeps s s' :=
  ⟨fun k y h => ⟨y, by rw [← hr]; exact h, .refl y⟩, fun q k h => by rw [← hq]; exact h⟩

theorem indexLapse_keeps (a : Approval) : Keeps s (s.indexLapse key a) :=
  .of_eq (indexLapse_byReference a) (indexLapse_byQuestion a)

/-- A record replaced by one that is the same in what counts. -/
theorem put_keeps {kept a : Approval} (hk : s.byReference key = some kept)
    (h : SameRecord kept a) : Keeps s (s.put key a) := by
  refine ⟨fun k y hy => ?_, fun _ _ h => h⟩
  rw [put_byReference] at hy
  by_cases hkey : k = key
  · rw [if_pos hkey] at hy
    cases hy
    exact ⟨kept, by rw [hkey]; exact hk, h⟩
  · rw [if_neg hkey] at hy
    exact ⟨y, hy, .refl y⟩

theorem drop_byReference (kept : Approval) (k : ApprovalKey) :
    (s.drop key kept).2.byReference k = if k = key then none else s.byReference k := by
  unfold drop
  simp only
  split
  · rfl
  · split <;> rfl

theorem drop_keeps (kept : Approval) : Keeps s (s.drop key kept).2 := by
  have hrec : ∀ k y, (if k = key then none else s.byReference k) = some y →
      ∃ x, s.byReference k = some x ∧ SameRecord x y := by
    intro k y hy
    split at hy
    · cases hy
    · exact ⟨y, hy, .refl y⟩
  unfold drop
  simp only
  split
  · exact ⟨hrec, fun _ _ h => h⟩
  · split
    · exact ⟨hrec, fun _ _ h => h⟩
    · refine ⟨hrec, fun q k hk => ?_⟩
      simp only at hk
      split at hk
      · rename_i hq
        rw [hq]
        exact List.mem_of_mem_erase hk
      · exact hk

theorem publish_keeps : Keeps s (s.publish key).2 := by
  unfold publish
  split
  · exact .refl s
  · rename_i kept hread
    split
    · exact .refl s
    · split
      · exact .refl s
      · unfold putReplaced
        split
        · exact .refl s
        · rename_i a ha
          have hf := ApprovalFields.build_ok ha
          exact put_keeps (read_ok hread)
            ⟨by rw [hf], by rw [hf], by rw [hf], by rw [hf]; exact id, by rw [hf]⟩

theorem abandon_keeps : Keeps s (s.abandon key).2 := by
  unfold abandon
  split
  · exact .refl s
  · rename_i kept _
    split
    · exact .refl s
    · exact drop_keeps kept

theorem consume_keeps : Keeps s (s.consume key now).2 := by
  unfold consume
  split
  · exact .refl s
  · rename_i kept hread
    split
    · exact .refl s
    split
    · exact .refl s
    split
    · exact .refl s
    split
    · exact .refl s
    · rename_i a ha
      have hf := ApprovalFields.build_ok ha
      have hput : Keeps s (s.put key a) :=
        put_keeps (read_ok hread)
            ⟨by rw [hf], by rw [hf], by rw [hf], by rw [hf]; exact id, by rw [hf]⟩
      exact hput.trans (indexLapse_keeps a)

/-- Ending a pending wait at its deadline. -/
theorem expire_keeps {kept expired : Approval} (hk : s.byReference key = some kept)
    (hb : ({ kept.toApprovalFields with
      state := .expired, resolvedAt := some kept.deadline } : ApprovalFields).build = .ok expired) :
    Keeps s ((s.put key expired).indexLapse key expired) := by
  have hf := ApprovalFields.build_ok hb
  have hput : Keeps s (s.put key expired) := by
    refine put_keeps hk ⟨by rw [hf], by rw [hf], by rw [hf], fun h => ?_, by rw [hf]⟩
    rw [hf] at h
    cases h
  exact hput.trans (indexLapse_keeps expired)

/-- **The rule of `expire_past`**: what an entry taken off the index and a wait ended at its
deadline preserve, the sweep preserves. -/
theorem expireLoop_rule {P : ApprovalStore → Prop} (hdue : ∀ s due, P s → P { s with due })
    (hend : ∀ s key kept expired, P s → s.byReference key = some kept → kept.state = .pending →
      kept.deadline ≤ now → ({ kept.toApprovalFields with
        state := .expired, resolvedAt := some kept.deadline } : ApprovalFields).build = .ok expired →
      P ((s.put key expired).indexLapse key expired)) :
    ∀ (turns : ℕ) (s : ApprovalStore) (ended : List Approval), P s →
      P (expireLoop now turns s ended).2 := by
  intro turns
  induction turns with
  | zero => intro s ended h; exact h
  | succ turns ih =>
    intro s ended h
    unfold expireLoop
    split
    · exact h
    · rename_i at_ key rest _
      split
      · exact h
      · have hpop : P { s with due := rest } := hdue s rest h
        simp only
        split
        · exact ih _ _ hpop
        · rename_i kept hk
          split
          · exact ih _ _ hpop
          rename_i hpending
          split
          · exact ih _ _ (hdue { s with due := rest } _ hpop)
          rename_i hover
          split
          · exact hpop
          · rename_i expired hb
            exact ih _ _ (hend _ key kept expired hpop hk (by simpa using hpending) (by omega) hb)

theorem expireLoop_keeps (turns : ℕ) (s : ApprovalStore) (ended : List Approval) :
    Keeps s (expireLoop now turns s ended).2 :=
  expireLoop_rule (fun _ _ h => h.trans (.of_eq rfl rfl))
    (fun _ _ _ _ h hk _ _ hb => h.trans (expire_keeps hk hb)) turns s ended (.refl s)

theorem expirePast_keeps : Keeps s (s.expirePast now).2 := expireLoop_keeps _ s []

/-- **The rule of `forget_lapsed`**: what an entry taken off the index or put back and a record
of no further use dropped preserve, the sweep preserves. -/
theorem forgetLoop_rule {P : ApprovalStore → Prop}
    (hlapsing : ∀ s lapsing, P s → P { s with lapsing })
    (hdrop : ∀ s key kept, P s → s.byReference key = some kept → isOfNoFurtherUse kept now = true →
      P (s.drop key kept).2) :
    ∀ (turns : ℕ) (s : ApprovalStore) (forgotten : List Approval), P s →
      P (forgetLoop now turns s forgotten).2 := by
  intro turns
  induction turns with
  | zero => intro s forgotten h; exact h
  | succ turns ih =>
    intro s forgotten h
    unfold forgetLoop
    split
    · exact h
    · rename_i at_ key rest _
      split
      · exact h
      · have hpop : P { s with lapsing := rest } := hlapsing s rest h
        simp only
        split
        · exact ih _ _ hpop
        · rename_i kept hk
          split
          · rename_i huse
            have hdropped := hdrop _ key kept hpop hk huse
            split
            · rename_i s' hd
              rw [hd] at hdropped
              exact hdropped
            · rename_i s' hd
              rw [hd] at hdropped
              exact ih _ _ hdropped
          · refine ih _ _ ?_
            unfold indexLapse
            split
            · exact hpop
            · exact hlapsing _ _ hpop

theorem forgetLoop_keeps (turns : ℕ) (s : ApprovalStore) (forgotten : List Approval) :
    Keeps s (forgetLoop now turns s forgotten).2 :=
  forgetLoop_rule (fun _ _ h => h.trans (.of_eq rfl rfl))
    (fun _ _ kept h _ _ => h.trans (drop_keeps kept)) turns s forgotten (.refl s)

theorem forgetLapsed_keeps : Keeps s (s.forgetLapsed now).2 := forgetLoop_keeps _ s []

/-! ## What the other operations did -/

/-- **What `publish` did**: it left a record that is no open wait, or a published one. -/
theorem publish_cases (s : ApprovalStore) (key : ApprovalKey) :
    ((s.publish key).2 = s ∧
      ∀ kept, s.byReference key = some kept → kept.published = true ∨ kept.state ≠ .pending) ∨
    (∃ kept published, (s.publish key).2 = s.put key published ∧
      s.byReference key = some kept ∧
      published.toApprovalFields = { kept.toApprovalFields with published := true }) := by
  unfold publish
  split
  · rename_i raised hread
    refine .inl ⟨rfl, fun kept hk => ?_⟩
    unfold read at hread
    rw [hk] at hread
    cases hread
  · rename_i kept hread
    have hk := read_ok hread
    split
    · rename_i hstate
      refine .inl ⟨rfl, fun kept' hk' => ?_⟩
      rw [hk] at hk'
      cases hk'
      exact .inr hstate
    split
    · rename_i hpublished
      refine .inl ⟨rfl, fun kept' hk' => ?_⟩
      rw [hk] at hk'
      cases hk'
      exact .inl hpublished
    · unfold putReplaced
      split
      · rename_i message hb
        -- the record was built with every check that looks at it
        have hheld : ({ kept.toApprovalFields with published := true } : ApprovalFields).complaint =
            none := kept.held
        unfold ApprovalFields.build at hb
        split at hb
        · cases hb
        · rename_i hcomplaint
          rw [hheld] at hcomplaint
          cases hcomplaint
      · rename_i published hb
        exact .inr ⟨kept, published, rfl, hk, ApprovalFields.build_ok hb⟩

/-- **What `abandon` did**: it left the store, or dropped an open wait nobody was told about. -/
theorem abandon_cases (s : ApprovalStore) (key : ApprovalKey) :
    (s.abandon key).2 = s ∨
    (∃ kept, (s.abandon key).2 = (s.drop key kept).2 ∧ s.byReference key = some kept ∧
      kept.state = .pending ∧ kept.published = false) := by
  unfold abandon
  split
  · exact .inl rfl
  · rename_i kept hread
    split
    · exact .inl rfl
    · rename_i hfree
      simp only [not_or, not_not, Bool.not_eq_true] at hfree
      exact .inr ⟨kept, rfl, read_ok hread, hfree.1, hfree.2.2⟩

/-! ## The four operations that do more -/

theorem openWait_ok {a found : Approval} (h : (s.openWait a).1 = .ok found) :
    found = a ∧ a.published = false ∧ a.state = .pending ∧ s.byReference a.key = none ∧
      (∀ k, (s.openWait a).2.byReference k = if k = a.key then some a else s.byReference k) ∧
      (∀ q, (s.openWait a).2.byQuestion q =
        if q = a.question then s.byQuestion q ++ [a.key] else s.byQuestion q) := by
  unfold openWait at h ⊢
  split at h
  · cases h
  rename_i hp
  split at h
  · cases h
  rename_i hs
  split at h
  · cases h
  rename_i hr
  cases h
  rw [if_neg hp, if_neg hs, if_neg hr]
  refine ⟨rfl, by simpa using hp, by simpa using hs, by simpa using hr, fun _ => rfl, fun _ => rfl⟩

theorem openWait_error {a : Approval} {raised : ApprovalError}
    (h : (s.openWait a).1 = .error raised) : (s.openWait a).2 = s := by
  unfold openWait at h ⊢
  split at h
  · rename_i hp; rw [if_pos hp]
  rename_i hp
  split at h
  · rename_i hs; rw [if_neg hp, if_pos hs]
  rename_i hs
  split at h
  · rename_i hr; rw [if_neg hp, if_neg hs, if_pos hr]
  · cases h

/-- A look answers a record of the question it was made for. -/
theorem newestLiveIn_ok {inFlight : Bool} {found : Approval} : ∀ {references : List ApprovalKey},
    s.newestLiveIn now inFlight references = .ok (some found) →
      ∃ k ∈ references, s.byReference k = some found ∧ found.stateAt now ≠ .expired := by
  intro references
  induction references with
  | nil => intro h; cases h
  | cons k older ih =>
    intro h
    unfold newestLiveIn at h
    have next : s.newestLiveIn now inFlight older = .ok (some found) →
        ∃ k' ∈ k :: older, s.byReference k' = some found ∧ found.stateAt now ≠ .expired := by
      intro h
      obtain ⟨k', hk', hfound⟩ := ih h
      exact ⟨k', List.mem_cons_of_mem _ hk', hfound⟩
    split at h
    · cases h
    · rename_i kept hk
      split at h
      · exact next h
      split at h
      · exact next h
      split at h
      · exact next h
      rename_i hlive
      split at h
      · exact next h
      cases h
      exact ⟨k, List.mem_cons_self, hk, hlive⟩

/-- **What `open_if_absent` did**: it raised and left the store, answered a record the
question has and left the store, or opened the wait it was given. -/
theorem openIfAbsent_cases (s : ApprovalStore) (a : Approval) (now : ℤ) :
    (∃ raised, s.openIfAbsent a now = (.error raised, s)) ∨
    (∃ found, s.openIfAbsent a now = (.ok found, s) ∧
      ∃ k ∈ s.byQuestion a.question, s.byReference k = some found) ∨
    (∃ s', s.openIfAbsent a now = (.ok a, s') ∧ (s.openWait a).1 = .ok a ∧
      s' = (s.openWait a).2) := by
  unfold openIfAbsent
  split
  · rename_i raised _
    exact .inl ⟨raised, rfl⟩
  · rename_i found hfound
    obtain ⟨k, hk, hrec, -⟩ := newestLiveIn_ok hfound
    exact .inr (.inl ⟨found, rfl, k, by simpa using hk, hrec⟩)
  · cases hopen : (s.openWait a).1 with
    | error raised =>
      exact .inl ⟨raised, Prod.ext hopen (openWait_error hopen)⟩
    | ok found =>
      obtain ⟨rfl, -⟩ := openWait_ok hopen
      exact .inr (.inr ⟨_, Prod.ext hopen rfl, rfl, rfl⟩)

/-- The three ways `resolve` goes: it raises, it raises and expires the wait, or it ends it. -/
theorem resolve_ways (s : ApprovalStore) (key : ApprovalKey) (person : Str)
    (resolution : ApprovalResolution) (reason : Option Str) (now : ℤ) :
    (∃ e, s.resolve key person resolution reason now = (.error e, s)) ∨
    (∃ kept expired, s.resolve key person resolution reason now =
        (.error .approvalAlreadyResolved, (s.put key expired).indexLapse key expired) ∧
      s.byReference key = some kept ∧ kept.state = .pending ∧ kept.deadline ≤ now ∧
      expired.toApprovalFields = { kept.toApprovalFields with
        state := .expired, resolvedAt := some kept.deadline }) ∨
    (∃ kept ended, s.resolve key person resolution reason now =
        (.ok ended, (s.put key ended).indexLapse key ended) ∧
      s.byReference key = some kept ∧ kept.state = .pending ∧ now < kept.deadline ∧
      ended.toApprovalFields = { kept.toApprovalFields with
        state := resolution.state, resolvedAt := some now, person := some person,
        resolutionReason := reason, published := true }) := by
  unfold resolve
  split
  next raised hread => exact .inl ⟨_, rfl⟩
  next kept hread =>
    have hkept := read_ok hread
    split
    next hstate => exact .inl ⟨_, rfl⟩
    next hstate =>
      split
      next hlapsed =>
        split
        next message hbuild => exact .inl ⟨_, rfl⟩
        next expired hbuild =>
          exact .inr (.inl ⟨kept, expired, rfl, hkept, by simpa using hstate, hlapsed,
            ApprovalFields.build_ok hbuild⟩)
      next hopen =>
        split
        next message hbuild => exact .inl ⟨_, rfl⟩
        next ended hbuild =>
          exact .inr (.inr ⟨kept, ended, rfl, hkept, by simpa using hstate, by omega,
            ApprovalFields.build_ok hbuild⟩)

/-- **What `resolve` did**: it answered nothing and kept what it had, or put a person's act
in the place of a pending wait that had not run out. -/
theorem resolve_cases (s : ApprovalStore) (key : ApprovalKey) (person : Str)
    (resolution : ApprovalResolution) (reason : Option Str) (now : ℤ) :
    (∃ raised, (s.resolve key person resolution reason now).1 = .error raised ∧
      Keeps s (s.resolve key person resolution reason now).2) ∨
    (∃ kept resolved, s.resolve key person resolution reason now =
        (.ok resolved, (s.put key resolved).indexLapse key resolved) ∧
      s.byReference key = some kept ∧ kept.state = .pending ∧ now < kept.deadline ∧
      resolved.toApprovalFields = { kept.toApprovalFields with
        state := resolution.state, resolvedAt := some now, person := some person,
        resolutionReason := reason, published := true }) := by
  obtain ⟨e, h⟩ | ⟨kept, expired, h, hk, -, -, hf⟩ | ⟨kept, ended, h, hk, hs, hd, hf⟩ :=
    s.resolve_ways key person resolution reason now
  · rw [h]
    exact .inl ⟨e, rfl, .refl s⟩
  · rw [h]
    have hput : Keeps s (s.put key expired) := by
      refine put_keeps hk ⟨by rw [hf], by rw [hf], by rw [hf], fun happroved => ?_, by rw [hf]⟩
      rw [hf] at happroved
      cases happroved
    exact .inl ⟨_, rfl, hput.trans (indexLapse_keeps expired)⟩
  · exact .inr ⟨kept, ended, h, hk, hs, hd, hf⟩

/-- The two ways `consume` goes: it raises, or it spends an approved record. -/
theorem consume_ways (s : ApprovalStore) (key : ApprovalKey) (now : ℤ) :
    (∃ e, s.consume key now = (.error e, s)) ∨
    (∃ kept consumed, s.consume key now =
        (.ok consumed, (s.put key consumed).indexLapse key consumed) ∧
      s.byReference key = some kept ∧ kept.state = .approved ∧
      consumed.toApprovalFields = { kept.toApprovalFields with
        consumed := true, consumedAt := some now }) := by
  unfold consume
  split
  next raised hread => exact .inl ⟨_, rfl⟩
  next kept hread =>
    split
    next hstate => exact .inl ⟨_, rfl⟩
    next hstate =>
      split
      next hspent => exact .inl ⟨_, rfl⟩
      next hspent =>
        split
        next hclaimed => exact .inl ⟨_, rfl⟩
        next hclaimed =>
          split
          next message hbuild => exact .inl ⟨_, rfl⟩
          next consumed hbuild =>
            exact .inr ⟨kept, consumed, rfl, read_ok hread, by simpa using hstate,
              ApprovalFields.build_ok hbuild⟩

/-- **What `claim` did**: it raised and left the store, or took an approved record nobody
had taken. -/
theorem claim_cases (s : ApprovalStore) (key : ApprovalKey) :
    (∃ raised, s.claim key = (.error raised, s)) ∨
    (∃ kept claimed, s.claim key = (.ok claimed, s.put key claimed) ∧
      s.byReference key = some kept ∧ kept.state = .approved ∧ kept.claimed = false ∧
      claimed.toApprovalFields = { kept.toApprovalFields with claimed := true }) := by
  unfold claim
  split
  · rename_i raised _
    exact .inl ⟨raised, rfl⟩
  · rename_i kept hread
    split
    · exact .inl ⟨_, rfl⟩
    rename_i hs
    split
    · exact .inl ⟨_, rfl⟩
    rename_i hc
    unfold putReplaced
    split
    · exact .inl ⟨_, rfl⟩
    · rename_i claimed hb
      simp only [Bool.or_eq_true, not_or, Bool.not_eq_true] at hc
      exact .inr ⟨kept, claimed, rfl, read_ok hread, by simpa using hs, hc.2,
        ApprovalFields.build_ok hb⟩

/-- **What `release_claim` did**: it raised and left the store, or gave back a claim. -/
theorem releaseClaim_cases (s : ApprovalStore) (key : ApprovalKey) :
    (s.releaseClaim key).2 = s ∨
    (∃ kept released, (s.releaseClaim key).2 = s.put key released ∧
      s.byReference key = some kept ∧ kept.claimed = true ∧
      released.toApprovalFields = { kept.toApprovalFields with claimed := false }) := by
  unfold releaseClaim
  split
  · exact .inl rfl
  · rename_i kept hread
    split
    · exact .inl rfl
    split
    · exact .inl rfl
    rename_i hc
    unfold putReplaced
    split
    · exact .inl rfl
    · rename_i released hb
      exact .inr ⟨kept, released, rfl, read_ok hread, by simpa using hc,
        ApprovalFields.build_ok hb⟩

end ApprovalStore

end SayFirst.Plane
