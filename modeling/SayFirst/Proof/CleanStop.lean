import SayFirst.Proof.Emitter

/-!
# What a flush and a close answer for

`close` is a flush, a flag and a join: what is lost after the worker's last
attempt in a scope is pending when it answers.

* `step_quiet` — which acts touch flushes, closes and the worker's life.
* `run_declared` — a gap is left pending just where a loss came too late.
* `clean_stop` — a flush answers True only over what is delivered; a close that
  answers True answers for everything just where no loss came too late.
-/

namespace SayFirst.Plane.Emission

open Py

variable {capacity : ℕ} {s s' : Emitter} {scope : Str}

/-- The record is on the chain, or counted in a gap of its scope that is. -/
def Delivered (s : Emitter) (r : Record) : Prop :=
  .record r ∈ s.chain ∨ ∃ gap, .gap r.scope gap ∈ s.chain ∧ r ∈ gap.losses

theorem Delivered.mono {r : Record} (h : Delivered s r) (hchain : s.chain ⊆ s'.chain) :
    Delivered s' r := by
  rcases h with h | ⟨gap, h, hr⟩
  · exact .inl (hchain h)
  · exact .inr ⟨gap, hchain h, hr⟩

theorem delivered_iff {r : Record} :
    Delivered s r ↔ 0 < s.onChain r.scope (· == r) + s.writtenIn r.scope (· == r) := by
  constructor
  · rintro (h | ⟨gap, h, hloss⟩)
    · have hle : (Written.record r).appended r.scope (· == r) ≤ s.onChain r.scope (· == r) :=
        List.le_sum_of_mem (List.mem_map_of_mem h)
      have hone : (Written.record r).appended r.scope (· == r) = 1 := by simp [Written.appended]
      omega
    · have hle : (Written.gap r.scope gap).counted r.scope (· == r) ≤
          s.writtenIn r.scope (· == r) := List.le_sum_of_mem (List.mem_map_of_mem h)
      have hpos : 0 < (Written.gap r.scope gap).counted r.scope (· == r) := by
        rw [Written.counted, if_pos rfl, List.countP_pos_iff]
        exact ⟨r, hloss, beq_self_eq_true r⟩
      omega
  · intro h
    by_contra hnot
    have hchain : s.onChain r.scope (· == r) = 0 := by
      refine List.sum_eq_zero_iff.2 fun n hn => ?_
      obtain ⟨w, hw, rfl⟩ := List.mem_map.1 hn
      cases w with
      | record r' =>
        have hne : r' ≠ r := fun heq => hnot (.inl (heq ▸ hw))
        simp [Written.appended, hne]
      | _ => rfl
    have hwritten : s.writtenIn r.scope (· == r) = 0 := by
      refine List.sum_eq_zero_iff.2 fun n hn => ?_
      obtain ⟨w, hw, rfl⟩ := List.mem_map.1 hn
      cases w with
      | gap scope gap =>
        simp only [Written.counted]
        split
        · rename_i hscope
          rw [List.countP_eq_zero]
          intro r' hr' heq
          rw [beq_iff_eq] at heq
          exact hnot (.inr ⟨gap, hscope ▸ hw, heq ▸ hr'⟩)
        · rfl
      | _ => rfl
    omega

/-- What was submitted is delivered, or waits, or is counted in a gap that is not written. -/
theorem Conserved.delivered_iff (hc : Conserved capacity s) {r : Record} (hr : r ∈ s.submitted) :
    Delivered s r ↔ s.waiting r.scope (· == r) + s.pendingIn r.scope (· == r) +
      s.carried r.scope (· == r) = 0 := by
  rw [Emission.delivered_iff]
  have htotal := hc.total r.scope (· == r)
  unfold Emitter.lost at htotal
  have hpos : 0 < s.submittedIn r.scope (· == r) :=
    List.countP_pos_iff.2 ⟨r, hr, by simp⟩
  have hone : s.submittedIn r.scope (· == r) ≤ 1 :=
    calc s.submittedIn r.scope (· == r) ≤ s.submitted.count r :=
          List.countP_mono_left fun x _ hx => (Bool.and_eq_true_iff.1 hx).2
      _ ≤ 1 := List.nodup_iff_count_le_one.1 hc.nodup r
  omega

/-- Where nothing is queued or in flight, what is delivered is what no pending gap counts. -/
theorem Conserved.delivered_iff_pending (hc : Conserved capacity s) (hqueue : s.queue = [])
    (hidle : s.inflight = none) {r : Record} (hr : r ∈ s.submitted) :
    Delivered s r ↔ s.pendingIn r.scope (· == r) = 0 := by
  rw [hc.delivered_iff hr]
  simp [Emitter.waiting, Emitter.carried, hqueue, hidle]

/-- A gap counts records of its own scope that were submitted. -/
theorem Conserved.pending_submitted (hc : Conserved capacity s) {gap : PendingGap}
    (hlookup : s.pending.lookup scope = some gap) :
    ∃ r ∈ s.submitted, r.scope = scope ∧ 0 < s.pendingIn scope (· == r) := by
  have hpos := gap.count_pos
  rw [gap.count_eq] at hpos
  obtain ⟨r, hloss⟩ := List.exists_mem_of_length_pos hpos
  have hpending : 0 < s.pendingIn scope (· == r) := by
    unfold Emitter.pendingIn
    rw [hlookup]
    exact List.countP_pos_iff.2 ⟨r, hloss, beq_self_eq_true r⟩
  have htotal := hc.total scope (· == r)
  unfold Emitter.lost at htotal
  have hsubmitted : 0 < s.submittedIn scope (· == r) := by omega
  obtain ⟨r', hr', hp⟩ := List.countP_pos_iff.1 hsubmitted
  rw [Bool.and_eq_true, beq_iff_eq, beq_iff_eq] at hp
  obtain ⟨hscope, rfl⟩ := hp
  exact ⟨r', hr', hscope, hpending⟩

/-- Once the worker has returned, everything is delivered just where no gap is pending. -/
theorem Conserved.all_delivered_iff (hc : Conserved capacity s) (hqueue : s.queue = [])
    (hidle : s.inflight = none) :
    (∀ r ∈ s.submitted, Delivered s r) ↔ ∀ scope, s.pending.lookup scope = none := by
  constructor
  · intro h scope
    cases hlookup : s.pending.lookup scope with
    | none => rfl
    | some gap =>
      obtain ⟨r, hr, rfl, hpos⟩ := hc.pending_submitted hlookup
      rw [(hc.delivered_iff_pending hqueue hidle hr).1 (h r hr)] at hpos
      cases hpos
  · intro h r hr
    rw [hc.delivered_iff_pending hqueue hidle hr]
    unfold Emitter.pendingIn
    rw [h]
    rfl

/-! ## What the sections touch -/

namespace Emitter

theorem countLoss_eq (s : Emitter) (scope : Str) (losses : List Record) :
    ∃ pending, s.countLoss scope losses = { s with pending } := by
  cases losses <;> exact ⟨_, rfl⟩

theorem submit_eq (s : Emitter) (capacity : ℕ) (scope : Str) (handed : List Handed) :
    ∃ queue queuedRecords pending, (s.submit capacity scope handed).2 =
        { s with
          submitted := s.submitted ++ numbered scope s.submitted.length handed
          queue, queuedRecords, pending } ∧
      (s.closing = true → queue = s.queue) := by
  unfold submit
  simp only
  split
  · exact ⟨s.queue, s.queuedRecords, s.pending, rfl, fun _ => rfl⟩
  split
  · obtain ⟨pending, hp⟩ := countLoss_eq
      { s with submitted := s.submitted ++ numbered scope s.submitted.length handed } scope
      (numbered scope s.submitted.length handed)
    exact ⟨s.queue, s.queuedRecords, pending, hp, fun _ => rfl⟩
  rename_i hopen
  split
  · obtain ⟨pending, hp⟩ := countLoss_eq
      { s with submitted := s.submitted ++ numbered scope s.submitted.length handed } scope
      (numbered scope s.submitted.length handed)
    exact ⟨s.queue, s.queuedRecords, pending, hp, fun _ => rfl⟩
  · exact ⟨_, _, _, rfl, fun h => absurd h hopen⟩

theorem finish_eq (s : Emitter) (d : Inflight) (failed : Bool) :
    ∃ pending delivering, s.finish d failed = { s with pending, delivering, inflight := none } := by
  unfold finish
  split
  · cases d.unit.gapBefore with
    | none =>
      obtain ⟨pending, hp⟩ := countLoss_eq { s with delivering := false } d.unit.scope
        (d.unit.records.drop d.completed)
      exact ⟨pending, false, by simp only [hp]⟩
    | some gap =>
      cases d.gapWritten with
      | true =>
        obtain ⟨pending, hp⟩ := countLoss_eq { s with delivering := false } d.unit.scope
          (d.unit.records.drop d.completed)
        exact ⟨pending, false, by simp only [if_true, hp]⟩
      | false =>
        obtain ⟨pending, hp⟩ := countLoss_eq
          (({ s with delivering := false } : Emitter).restoreGap d.unit.scope gap) d.unit.scope
          (d.unit.records.drop d.completed)
        refine ⟨pending, false, ?_⟩
        simp only [Bool.false_eq_true, if_false, hp]
        rfl
  · exact ⟨s.pending, true, rfl⟩

theorem recordGrade_eq {connectionId : Str} {evaluated due : Option Grade}
    (h : s.recordGrade connectionId scope evaluated = some (due, s')) :
    ∃ grades, s' = { s with grades } := by
  unfold recordGrade at h
  cases evaluated with
  | none =>
    simp only at h
    split at h
    · cases h
      exact ⟨s.grades, rfl⟩
    · cases h
  | some grade =>
    cases h
    exact ⟨_, rfl⟩

theorem gapGrade_eq {evaluated : Option (Option Grade)} (h : s.gapGrade evaluated = some s') :
    s.inflight ≠ none ∧ ∃ grades d, s' = { s with grades, inflight := some d } := by
  unfold gapGrade at h
  cases hd : s.inflight with
  | none => rw [hd] at h; cases h
  | some d =>
    refine ⟨by simp, ?_⟩
    simp only [hd] at h
    split at h
    · cases evaluated with
      | none =>
        cases h
        exact ⟨s.grades, _, rfl⟩
      | some evaluated =>
        simp only at h
        split at h
        · cases h
        · rename_i due t hgrade
          obtain ⟨grades, rfl⟩ := recordGrade_eq hgrade
          cases h
          exact ⟨grades, _, rfl⟩
    · cases h

theorem append_eq {accepted : Bool} (h : s.append accepted = some s') :
    s.inflight ≠ none ∧ ∃ added d, s' = { s with chain := added ++ s.chain, inflight := some d } := by
  unfold append at h
  cases hd : s.inflight with
  | none => rw [hd] at h; cases h
  | some d =>
    refine ⟨by simp, ?_⟩
    simp only [hd] at h
    split at h
    · cases h
      cases accepted
      · exact ⟨[], _, rfl⟩
      · exact ⟨[_], _, rfl⟩
    · split at h
      · cases h
      · cases h
        cases accepted
        · exact ⟨[], _, rfl⟩
        · exact ⟨[_], _, rfl⟩
    · split at h
      · cases h
      · cases h
        cases accepted
        · exact ⟨[], _, rfl⟩
        · exact ⟨[_], _, rfl⟩
    · cases h

/-- The gap of a scope is taken; while closing, for the last time. -/
def Attempts (s : Emitter) (pending : AList fun _ : Str => PendingGap) (finalAttempt : List Str) :
    Prop :=
  ∃ scope, pending = s.pending.erase scope ∧
    ((s.closing = true ∧ scope ∉ s.finalAttempt ∧ finalAttempt = scope :: s.finalAttempt) ∨
      (s.closing = false ∧ finalAttempt = s.finalAttempt))

/-- A visit completes flushes of scopes with no gap, up to the first gap it may attempt. -/
theorem visit_eq {backing : List Str} : ∀ {scopes : List Str} {s : Emitter},
    ∃ pending flushCompleted finalAttempt, (visit backing s scopes).2 =
      { s with pending, flushCompleted, finalAttempt } ∧
      (∀ scope, flushCompleted scope ≠ s.flushCompleted scope → s.pending.lookup scope = none) ∧
      ((pending = s.pending ∧ finalAttempt = s.finalAttempt) ∨
        ((visit backing s scopes).1 ≠ none ∧ s.Attempts pending finalAttempt)) := by
  intro scopes
  induction scopes with
  | nil => intro s; exact ⟨_, _, _, rfl, fun _ h => absurd rfl h, .inl ⟨rfl, rfl⟩⟩
  | cons first rest ih =>
    intro s
    unfold visit
    cases hlookup : s.pending.lookup first with
    | none =>
      obtain ⟨pending, flushCompleted, finalAttempt, h, hcompleted, htaken⟩ :=
        @ih (s.completeFlush first)
      refine ⟨pending, flushCompleted, finalAttempt, h, fun scope hne => ?_, htaken⟩
      by_cases hs : scope = first
      · exact hs ▸ hlookup
      · exact hcompleted scope fun heq => hne (heq.trans (if_neg hs))
    | some gap =>
      simp only
      split
      · rename_i hclosing
        split
        · exact ih
        · rename_i hfirst
          exact ⟨_, _, _, rfl, fun _ h => absurd rfl h,
            .inr ⟨Option.some_ne_none _, first, rfl, .inl ⟨hclosing, hfirst, rfl⟩⟩⟩
      · rename_i hopen
        split
        · exact ih
        · exact ⟨_, _, _, rfl, fun _ h => absurd rfl h,
            .inr ⟨Option.some_ne_none _, first, rfl, .inr ⟨Bool.not_eq_true _ ▸ hopen, rfl⟩⟩⟩

/-- A turn takes the first unit queued, or visits the scopes, or returns for good: a flush is
completed only where nothing is queued and no gap is pending. -/
theorem take_eq (s : Emitter) (backing : List Str) :
    ∃ queue queuedRecords pending flushCompleted finalAttempt inflight alive, s.take backing =
        { s with
          queue, queuedRecords, pending, flushCompleted, finalAttempt, inflight, alive } ∧
      (∀ scope, flushCompleted scope ≠ s.flushCompleted scope →
        s.queue = [] ∧ s.pending.lookup scope = none) ∧
      ((alive = s.alive ∧ pending = s.pending ∧ finalAttempt = s.finalAttempt) ∨
        (alive = s.alive ∧ s.Attempts pending finalAttempt) ∨
        (s.closing = true ∧ queue = [] ∧ inflight = s.inflight ∧ pending = s.pending ∧
          finalAttempt = s.finalAttempt ∧ s.retryablePending = false)) := by
  unfold take nextUnit
  cases hqueue : s.queue with
  | cons first rest =>
    exact ⟨_, _, _, _, _, _, _, rfl, fun _ h => absurd rfl h, .inl ⟨rfl, rfl, rfl⟩⟩
  | nil =>
    obtain ⟨pending, flushCompleted, finalAttempt, hvisit, hcompleted, htaken⟩ :=
      @visit_eq backing s.requested s
    have hdrained : ∀ scope, flushCompleted scope ≠ s.flushCompleted scope →
        True ∧ s.pending.lookup scope = none :=
      fun scope hne => ⟨trivial, hcompleted scope hne⟩
    simp only
    cases hv : visit backing s s.requested with
    | mk unit t =>
      rw [hv] at hvisit htaken
      simp only at hvisit htaken
      subst hvisit
      cases unit with
      | some unit =>
        refine ⟨_, _, _, _, _, _, _, rfl, hdrained, ?_⟩
        rcases htaken with ⟨hp, hf⟩ | ⟨-, hattempts⟩
        · exact .inl ⟨rfl, hp, hf⟩
        · exact .inr (.inl ⟨rfl, hattempts⟩)
      | none =>
        obtain ⟨rfl, rfl⟩ := htaken.resolve_right fun h => h.1 rfl
        simp only
        split
        · rename_i hstop
          obtain ⟨hclosing, hretry⟩ := Bool.and_eq_true_iff.1 hstop
          rw [Bool.not_eq_true'] at hretry
          exact ⟨_, _, _, _, _, _, _, rfl, hdrained,
            .inr (.inr ⟨hclosing, hqueue, rfl, rfl, rfl, hretry⟩)⟩
        · exact ⟨_, _, _, _, _, _, _, rfl, hdrained, .inl ⟨rfl, rfl, rfl⟩⟩

end Emitter

/-! ## The last attempts -/

/-- The worker makes no further attempt in the scope. -/
def Spent (s : Emitter) (scope : Str) : Prop := scope ∈ s.finalAttempt ∨ s.alive = false

/-- No gap is pending where no attempt is left for it. -/
def Declared (s : Emitter) : Prop := ∀ scope, Spent s scope → s.pending.lookup scope = none

/-- The act loses no record in a scope that is spent. -/
def InTime (s : Emitter) : Event → Prop
  | .submit scope handed => handed = [] ∨ ¬ Spent s scope
  | .hand i handed opens => ∀ scope grade, s.callers i = .holding scope grade → opens = true →
      grade.toList ++ handed = [] ∨ ¬ Spent s scope
  | .finish => ∀ d, s.inflight = some d → d.stage = .failed → ¬ Spent s d.unit.scope
  | _ => True

/-- A worker that has returned left nothing queued; attempts are last only once closing. -/
def Kept (s : Emitter) : Prop :=
  (s.alive = false → s.queue = [] ∧ s.inflight = none ∧ s.closing = true) ∧
    (s.finalAttempt ≠ [] → s.closing = true)

theorem Kept.closing (h : Kept s) (hspent : Spent s scope) : s.closing = true := by
  rcases hspent with hspent | hspent
  · exact h.2 (List.ne_nil_of_mem hspent)
  · exact (h.1 hspent).2.2

theorem Kept.declared (h : Kept s) (hopen : s.closing = false) : Declared s := by
  intro scope hspent
  rw [h.closing hspent] at hopen
  cases hopen

theorem countLoss_lookup (s : Emitter) (scope : Str) (losses : List Record) (other : Str) :
    (s.countLoss scope losses).pending.lookup other = none ↔
      s.pending.lookup other = none ∧ (other = scope → losses = []) := by
  cases losses with
  | nil => exact ⟨fun h => ⟨h, fun _ => rfl⟩, fun h => h.1⟩
  | cons first rest =>
    by_cases hs : other = scope
    · subst hs
      simp [Emitter.countLoss, AList.lookup_insert]
    · simp [Emitter.countLoss, AList.lookup_insert_ne hs, hs]

theorem restoreGap_lookup (s : Emitter) (scope : Str) (gap : PendingGap) (other : Str) :
    (s.restoreGap scope gap).pending.lookup other = none ↔
      s.pending.lookup other = none ∧ other ≠ scope := by
  by_cases hs : other = scope
  · subst hs
    simp [Emitter.restoreGap, AList.lookup_insert]
  · simp [Emitter.restoreGap, AList.lookup_insert_ne hs, hs]

/-- A loss in a scope leaves no gap pending too late just where the scope is not spent. -/
theorem declared_lost {t : Emitter} {lost : Prop} (hspent : ∀ other, Spent t other ↔ Spent s other)
    (hpending : ∀ other, t.pending.lookup other = none ↔
      s.pending.lookup other = none ∧ (other = scope → ¬ lost)) :
    Declared t ↔ Declared s ∧ (lost → ¬ Spent s scope) := by
  constructor
  · intro h
    refine ⟨fun other hother => ((hpending other).1 (h other ((hspent other).2 hother))).1,
      fun hlost hscope => ?_⟩
    exact ((hpending scope).1 (h scope ((hspent scope).2 hscope))).2 rfl hlost
  · intro ⟨h, hlost⟩ other hother
    rw [hspent] at hother
    exact (hpending other).2 ⟨h other hother, fun heq hl => hlost hl (heq ▸ hother)⟩

theorem submit_kept (hk : Kept s) (capacity : ℕ) (scope : Str) (handed : List Handed) :
    Kept (s.submit capacity scope handed).2 := by
  obtain ⟨queue, queuedRecords, pending, h, hqueue⟩ := s.submit_eq capacity scope handed
  rw [h]
  refine ⟨fun halive => ?_, hk.2⟩
  obtain ⟨h1, h2, h3⟩ := hk.1 halive
  exact ⟨(hqueue h3).trans h1, h2, h3⟩

theorem submit_declared (hk : Kept s) (capacity : ℕ) (scope : Str) (handed : List Handed) :
    Declared (s.submit capacity scope handed).2 ↔
      Declared s ∧ (handed = [] ∨ ¬ Spent s scope) := by
  have hkept := submit_kept hk capacity scope handed
  cases hclosing : s.closing with
  | false =>
    obtain ⟨_, _, _, h, -⟩ := s.submit_eq capacity scope handed
    have hopen : (s.submit capacity scope handed).2.closing = false := by rw [h]; exact hclosing
    refine ⟨fun _ => ⟨hk.declared hclosing, .inr fun hspent => ?_⟩, fun _ => hkept.declared hopen⟩
    rw [hk.closing hspent] at hclosing
    cases hclosing
  | true =>
    have hrecords : numbered scope s.submitted.length handed = [] ↔ handed = [] := by
      cases handed <;> simp [numbered]
    cases handed with
    | nil => exact ⟨fun h => ⟨h, .inl rfl⟩, fun h => h.1⟩
    | cons first rest =>
      have hsubmit : (s.submit capacity scope (first :: rest)).2 =
          ({ s with
            submitted := s.submitted ++ numbered scope s.submitted.length (first :: rest) } :
            Emitter).countLoss scope (numbered scope s.submitted.length (first :: rest)) := by
        simp [Emitter.submit, numbered, hclosing]
      rw [hsubmit, @declared_lost s scope _ (first :: rest ≠ [])]
      · exact and_congr_right fun _ => by simp
      · intro other
        rfl
      · intro other
        rw [countLoss_lookup, hrecords, not_not]

theorem finish_declared {d : Inflight} (hd : d.Held) (hstage : d.stage = .failed) :
    Declared (s.finish d true) ↔ Declared s ∧ ¬ Spent s d.unit.scope := by
  rw [@declared_lost s d.unit.scope _ True]
  · exact and_congr_right fun _ => ⟨fun h => h trivial, fun h _ => h⟩
  · intro other
    obtain ⟨_, _, h⟩ := s.finish_eq d true
    rw [h]
    rfl
  · intro other
    rw [not_true, imp_false]
    have hdrop : d.unit.records.drop d.completed = [] ↔ ¬ d.completed < d.unit.records.length := by
      rw [List.drop_eq_nil_iff, Nat.not_lt]
    unfold Emitter.finish
    rw [if_pos rfl]
    change (Emitter.countLoss _ _ _).pending.lookup other = none ↔ _
    rw [countLoss_lookup, hdrop]
    -- a unit that failed leaves its gap, or the records from the refused one on
    cases hgap : d.unit.gapBefore with
    | none =>
      have hleft := (hd.failed hstage).resolve_left fun h => h.2 hgap
      exact and_congr_right fun _ => ⟨fun h heq => h heq hleft, fun h heq => absurd heq h⟩
    | some gap =>
      simp only
      split
      · rename_i hw
        have hleft := (hd.failed hstage).resolve_left fun h => by rw [hw] at h; cases h.1
        exact and_congr_right fun _ => ⟨fun h heq => h heq hleft, fun h heq => absurd heq h⟩
      · rw [restoreGap_lookup]
        exact ⟨fun h => h.1, fun h => ⟨h, fun heq => absurd heq h.2⟩⟩

/-- A turn of the worker leaves no gap behind in a scope it spends. -/
theorem take_kept (hk : Kept s) (hidle : s.inflight = none) (halive : s.alive = true)
    (backing : List Str) :
    Kept (s.take backing) ∧ (Declared (s.take backing) ↔ Declared s) := by
  obtain ⟨queue, queuedRecords, pending, flushCompleted, finalAttempt, inflight, alive, heq, -,
    hturn⟩ := s.take_eq backing
  have hlives : ¬ s.alive = false := by rw [halive]; decide
  rw [heq]
  rcases hturn with ⟨rfl, rfl, rfl⟩ | ⟨rfl, first, rfl, ⟨hclosing, hfirst, rfl⟩ | ⟨hopen, rfl⟩⟩ |
    ⟨hclosing, rfl, rfl, rfl, rfl, hretry⟩
  · exact ⟨⟨fun h => absurd h hlives, hk.2⟩, Iff.rfl⟩
  · refine ⟨⟨fun h => absurd h hlives, fun _ => hclosing⟩, fun h other hs => ?_,
      fun h other hs => ?_⟩
    · have hother := hs.resolve_right hlives
      have hne : other ≠ first := fun heq => hfirst (heq ▸ hother)
      rw [← AList.lookup_erase_ne hne]
      exact h other (.inl (List.mem_cons_of_mem _ hother))
    · change (s.pending.erase first).lookup other = none
      by_cases hne : other = first
      · rw [hne]
        exact AList.lookup_erase _ _
      · rw [AList.lookup_erase_ne hne]
        exact h other (.inl (List.mem_of_ne_of_mem hne (hs.resolve_right hlives)))
  · have hkept : Kept { s with
        queue, queuedRecords, pending := s.pending.erase first, flushCompleted, inflight } :=
      ⟨fun h => absurd h hlives, hk.2⟩
    exact ⟨hkept, fun _ => hk.declared hopen, fun _ => hkept.declared hopen⟩
  · refine ⟨⟨fun _ => ⟨rfl, hidle, hclosing⟩, fun _ => hclosing⟩, fun h other hs => ?_,
      fun h other _ => ?_⟩
    · cases halive' : alive with
      | false => exact h other (.inr halive')
      | true => exact h other (.inl (hs.resolve_right hlives))
    · -- a scope whose gap is pending is spent, or the worker would not have returned
      by_contra hne
      have hmem : other ∈ s.pending.keys := AList.lookup_isSome.1 (Option.isSome_iff_ne_none.2 hne)
      have hspent := List.any_eq_false.1 hretry other hmem
      exact hne (h other (.inl (by simpa using hspent)))

/-! ## The acts -/

/-- An act that completes no flush and answers none. -/
structure Quiet (capacity : ℕ) (s : Emitter) (e : Event) (s' : Emitter) : Prop where
  chain : s.chain ⊆ s'.chain
  submitted : s.submitted ⊆ s'.submitted
  flushCompleted : s'.flushCompleted = s.flushCompleted
  flushed : s'.flushed = s.flushed
  closed : s'.closed = s.closed
  callers : ∀ j scope target before rest, s'.callers j = .flushing scope target before rest →
    s.callers j = .flushing scope target before rest
  kept : Kept s → Kept s'
  declared : Conserved capacity s → Kept s → (Declared s' ↔ Declared s ∧ InTime s e)

/-- A caller that moves on, and is not flushing. -/
theorem setCaller_flushing {i j : ℕ} {c : Caller} {scope : Str} {target : ℕ}
    {before : List Record} {rest : Option (List Str)}
    (hc : ∀ scope target before rest, c ≠ .flushing scope target before rest)
    (h : (s.setCaller i c).callers j = .flushing scope target before rest) :
    s.callers j = .flushing scope target before rest := by
  unfold Emitter.setCaller at h
  simp only at h
  split at h
  · exact (hc _ _ _ _ h).elim
  · exact h

/-- A thread that moves on and flushes nothing. -/
theorem quiet_caller {e : Event} (hin : InTime s e) {i : ℕ} {c : Caller}
    (hc : ∀ scope target before rest, c ≠ .flushing scope target before rest)
    (grades : AList fun _ : Str × Str => Grade) (added : List Written) :
    Quiet capacity s e
      (({ s with grades, chain := added ++ s.chain } : Emitter).setCaller i c) where
  chain := List.subset_append_right ..
  submitted := List.Subset.refl _
  flushCompleted := rfl
  flushed := rfl
  closed := rfl
  callers _ _ _ _ _ h := setCaller_flushing hc h
  kept h := h
  declared _ _ := (and_iff_left hin).symm

/-- The worker's own acts between taking a unit and letting it go. -/
theorem quiet_worker {e : Event} (hin : InTime s e) (hbusy : s.inflight ≠ none)
    (grades : AList fun _ : Str × Str => Grade) (added : List Written) (d : Inflight) :
    Quiet capacity s e { s with grades, chain := added ++ s.chain, inflight := some d } where
  chain := List.subset_append_right ..
  submitted := List.Subset.refl _
  flushCompleted := rfl
  flushed := rfl
  closed := rfl
  callers _ _ _ _ _ h := h
  kept hk := ⟨fun halive => absurd (hk.1 halive).2.1 hbusy, hk.2⟩
  declared _ _ := (and_iff_left hin).symm

theorem quiet_submit {e : Event} {scope : Str} {handed : List Handed}
    (hin : InTime s e ↔ handed = [] ∨ ¬ Spent s scope) {callers : ℕ → Caller}
    (hcallers : ∀ j other target before rest, callers j = .flushing other target before rest →
      (s.submit capacity scope handed).2.callers j = .flushing other target before rest) :
    Quiet capacity s e { (s.submit capacity scope handed).2 with callers } := by
  have hkept := fun hk => @submit_kept s hk capacity scope handed
  have hdeclared := fun hk => @submit_declared s hk capacity scope handed
  obtain ⟨queue, queuedRecords, pending, heq, -⟩ := s.submit_eq capacity scope handed
  rw [heq] at hkept hdeclared hcallers ⊢
  exact ⟨List.Subset.refl _, List.subset_append_left .., rfl, rfl, rfl, hcallers, hkept,
    fun _ hk => (hdeclared hk).trans (and_congr_right fun _ => hin.symm)⟩

theorem quiet_finish {d : Inflight} (hd : s.inflight = some d) {failed : Bool}
    (hstage : failed = true ↔ d.stage = .failed) :
    Quiet capacity s .finish (s.finish d failed) := by
  have hin : InTime s .finish ↔ (d.stage = .failed → ¬ Spent s d.unit.scope) := by
    simp [InTime, hd]
  have hbusy : s.inflight ≠ none := by simp [hd]
  have hdeclared : Conserved capacity s →
      (Declared (s.finish d failed) ↔ Declared s ∧ InTime s .finish) := by
    intro hconserved
    rw [hin]
    cases failed with
    | true =>
      have hfailed := hstage.1 rfl
      rw [finish_declared (hconserved.held d hd) hfailed]
      exact and_congr_right fun _ => ⟨fun h _ => h, fun h => h hfailed⟩
    | false =>
      exact (and_iff_left fun h => by cases hstage.2 h).symm
  obtain ⟨pending, delivering, heq⟩ := s.finish_eq d failed
  rw [heq] at hdeclared ⊢
  exact ⟨List.Subset.refl _, List.Subset.refl _, rfl, rfl, rfl, fun _ _ _ _ _ h => h,
    fun hk => ⟨fun halive => absurd (hk.1 halive).2.1 hbusy, hk.2⟩, fun h _ => hdeclared h⟩

/-- **The acts, by what they do to flushes and closes.** -/
theorem step_quiet {e : Event} (h : step capacity s e = some s') :
    Quiet capacity s e s' ∨
      (∃ backing, e = .take backing ∧ s.alive = true ∧ s.inflight = none ∧
        s' = s.take backing) ∨
      (∃ i scope rest, InTime s e ∧ s' = s.startFlush i scope rest) ∨
      (∃ i, e = .answer i ∧ s.answer i = some s') ∨ (∃ i, e = .join i ∧ s.join i = some s') := by
  cases e with
  | submit scope handed =>
    cases h
    exact .inl (quiet_submit Iff.rfl fun _ _ _ _ _ h => h)
  | evaluate i scope connectionId at_ evaluated =>
    simp only [step] at h
    split at h
    · split at h
      · cases h
      · obtain ⟨⟨due, t⟩, ht, rfl⟩ := Option.map_eq_some_iff.1 h
        obtain ⟨grades, rfl⟩ := Emitter.recordGrade_eq ht
        exact .inl (quiet_caller (by trivial) (by simp) grades [])
    · cases h
  | hand i handed opens =>
    simp only [step] at h
    split at h
    · rename_i scope grade hcaller
      cases h
      cases opens with
      | false => exact .inl (quiet_caller (by simp [InTime]) (by simp) s.grades [])
      | true =>
        refine .inl (quiet_submit ?_ fun _ _ _ _ _ h => setCaller_flushing (by simp) h)
        simp [InTime, hcaller]
    · cases h
  | raised i =>
    simp only [step] at h
    split at h
    · cases h
      exact .inl (quiet_caller (by trivial) (by simp) s.grades [])
    · cases h
  | evaluateDaemon i scope evaluated =>
    simp only [step] at h
    split at h
    · obtain ⟨⟨due, t⟩, ht, rfl⟩ := Option.map_eq_some_iff.1 h
      obtain ⟨grades, rfl⟩ := Emitter.recordGrade_eq ht
      exact .inl (quiet_caller (by trivial) (by simp) grades [])
    · cases h
  | appendDaemon i accepted =>
    simp only [step] at h
    split at h
    · rename_i scope due _
      cases h
      cases due with
      | none => exact .inl (quiet_caller (by trivial) (by simp) s.grades [])
      | some grade =>
        cases accepted with
        | false => exact .inl (quiet_caller (by trivial) (by simp) s.grades [])
        | true => exact .inl (quiet_caller (by trivial) (by simp) s.grades [_])
    · cases h
  | take backing =>
    right; left
    simp only [step] at h
    split at h
    · rename_i hidle
      rw [Bool.and_eq_true, Option.isNone_iff_eq_none] at hidle
      cases h
      exact ⟨backing, rfl, hidle.1, hidle.2, rfl⟩
    · cases h
  | gapGrade evaluated =>
    obtain ⟨hbusy, grades, d, rfl⟩ := Emitter.gapGrade_eq h
    exact .inl (quiet_worker (by trivial) hbusy grades [] d)
  | append accepted =>
    obtain ⟨hbusy, added, d, rfl⟩ := Emitter.append_eq h
    exact .inl (quiet_worker (by trivial) hbusy s.grades added d)
  | finish =>
    simp only [step] at h
    cases hd : s.inflight with
    | none => rw [hd] at h; cases h
    | some d =>
      simp only [hd] at h
      split at h
      · rename_i hstage
        cases h
        exact .inl (quiet_finish hd (iff_of_true rfl hstage))
      · rename_i hstage
        split at h
        · cases h
          exact .inl (quiet_finish hd (by simp [hstage]))
        · cases h
      · cases h
  | flush i scope =>
    right; right; left
    simp only [step] at h
    split at h
    · split at h
      · cases h
      · cases h
        exact ⟨i, scope, none, trivial, rfl⟩
    · cases h
  | answer i => exact .inr (.inr (.inr (.inl ⟨i, rfl, h⟩)))
  | close i =>
    simp only [step] at h
    split at h
    · cases h
      exact .inl (quiet_caller (by trivial) (by simp) s.grades [])
    · cases h
  | drain i =>
    simp only [step] at h
    split at h
    · cases h
      exact .inl (quiet_caller (by trivial) (by simp) s.grades [])
    · rename_i scope rest _
      right; right; left
      cases h
      exact ⟨i, scope, some rest, trivial, rfl⟩
    · cases h
  | setClosing i =>
    left
    simp only [step] at h
    split at h
    · cases h
      refine ⟨List.Subset.refl _, List.Subset.refl _, rfl, rfl, rfl,
        fun _ _ _ _ _ h => setCaller_flushing (by simp) h, fun hk => ⟨fun halive => ?_, fun _ => rfl⟩,
        fun _ _ => (and_iff_left trivial).symm⟩
      exact ⟨(hk.1 halive).1, (hk.1 halive).2.1, rfl⟩
    · cases h
  | join i => exact .inr (.inr (.inr (.inr ⟨i, rfl, h⟩)))

/-! ## Flushes -/

/-- What a flush waits for is submitted, and delivered once its target is reached. -/
structure Answerable (s : Emitter) : Prop where
  flushing : ∀ i scope target before rest, s.callers i = .flushing scope target before rest →
    before ⊆ s.submitted ∧
      (target ≤ s.flushCompleted scope → ∀ r ∈ before, r.scope = scope → Delivered s r)
  flushed : ∀ x ∈ s.flushed, ∀ r ∈ x.2, r.scope = x.1 → Delivered s r

theorem Quiet.answerable {e : Event} (h : Quiet capacity s e s') (ha : Answerable s) :
    Answerable s' := by
  constructor
  · intro i scope target before rest hcaller
    obtain ⟨hbefore, hdone⟩ := ha.flushing i scope target before rest
      (h.callers i scope target before rest hcaller)
    refine ⟨fun r hr => h.submitted (hbefore hr), fun hle r hr hscope => ?_⟩
    rw [h.flushCompleted] at hle
    exact (hdone hle r hr hscope).mono h.chain
  · intro x hx r hr hscope
    rw [h.flushed] at hx
    exact (ha.flushed x hx r hr hscope).mono h.chain

theorem take_answerable (hc : Conserved capacity s) (hidle : s.inflight = none)
    (ha : Answerable s) (backing : List Str) : Answerable (s.take backing) := by
  obtain ⟨queue, queuedRecords, pending, flushCompleted, finalAttempt, inflight, alive, heq,
    hcompleted, -⟩ := s.take_eq backing
  rw [heq]
  refine ⟨fun i scope target before rest hcaller => ?_, ha.flushed⟩
  obtain ⟨hbefore, hdone⟩ := ha.flushing i scope target before rest hcaller
  refine ⟨hbefore, fun hle r hr hscope => ?_⟩
  by_cases hsame : flushCompleted scope = s.flushCompleted scope
  · change target ≤ flushCompleted scope at hle
    rw [hsame] at hle
    exact hdone hle r hr hscope
  · -- a flush is completed where nothing of its scope is left to write
    obtain ⟨hqueue, hnone⟩ := hcompleted scope hsame
    change Delivered s r
    rw [hc.delivered_iff_pending hqueue hidle (hbefore hr), hscope]
    unfold Emitter.pendingIn
    rw [hnone]
    rfl

theorem startFlush_answerable (ha : Answerable s) (i : ℕ) (scope : Str)
    (rest : Option (List Str)) : Answerable (s.startFlush i scope rest) := by
  refine ⟨fun j other target before rest' hcaller => ?_, ha.flushed⟩
  unfold Emitter.startFlush Emitter.setCaller at hcaller
  simp only at hcaller
  split at hcaller
  · cases hcaller
    exact ⟨List.Subset.refl _, fun hle => absurd hle (Nat.not_succ_le_self _)⟩
  · exact ha.flushing j other target before rest' hcaller

theorem answer_answerable (ha : Answerable s) {i : ℕ} (h : s.answer i = some s') :
    Answerable s' := by
  unfold Emitter.answer at h
  split at h
  · rename_i scope target before rest hcaller
    obtain ⟨hbefore, hdone⟩ := ha.flushing i scope target before rest hcaller
    cases rest with
    | none =>
      cases h
      refine ⟨fun j other target' before' rest' h => ?_, fun x hx r hr hscope => ?_⟩
      · exact ha.flushing j other target' before' rest' (setCaller_flushing (by nofun) h)
      · change x ∈ (if decide (target ≤ s.flushCompleted scope) then (scope, before) :: s.flushed
          else s.flushed) at hx
        split at hx
        · rename_i hcompleted
          rcases List.mem_cons.1 hx with rfl | hx
          · exact hdone (of_decide_eq_true hcompleted) r hr hscope
          · exact ha.flushed x hx r hr hscope
        · exact ha.flushed x hx r hr hscope
    | some scopes =>
      cases h
      refine ⟨fun j other target' before' rest' h => ?_, ha.flushed⟩
      refine ha.flushing j other target' before' rest' (setCaller_flushing (fun _ _ _ _ => ?_) h)
      split <;> nofun
  · cases h

theorem join_eq {i : ℕ} (h : s.join i = some s') :
    ∃ flushed, s.callers i = .joining flushed ∧ s' = ({ s with
      closed := if flushed && !s.alive then s.submitted :: s.closed else s.closed } :
        Emitter).setCaller i .idle := by
  unfold Emitter.join at h
  split at h
  · rename_i flushed hcaller
    cases h
    exact ⟨flushed, hcaller, rfl⟩
  · cases h

/-! ## Runs -/

/-- What every run keeps. -/
structure Sound (capacity : ℕ) (s : Emitter) : Prop where
  conserved : Conserved capacity s
  kept : Kept s
  answerable : Answerable s

theorem initial_sound (capacity : ℕ) : Sound capacity .initial where
  conserved := initial_conserved capacity
  kept := ⟨nofun, fun h => absurd rfl h⟩
  answerable := ⟨nofun, nofun⟩

theorem initial_declared : Declared .initial := fun _ _ => rfl

theorem step_sound {e : Event} (hs : Sound capacity s) (h : step capacity s e = some s') :
    Sound capacity s' ∧ (Declared s' ↔ Declared s ∧ InTime s e) := by
  have hc := step_conserved hs.conserved h
  rcases step_quiet h with hq | ⟨backing, rfl, halive, hidle, rfl⟩ | ⟨i, scope, rest, hin, rfl⟩ |
    ⟨i, rfl, ha⟩ | ⟨i, rfl, hj⟩
  · exact ⟨⟨hc, hq.kept hs.kept, hq.answerable hs.answerable⟩, hq.declared hs.conserved hs.kept⟩
  · obtain ⟨hkept, hdeclared⟩ := take_kept hs.kept hidle halive backing
    exact ⟨⟨hc, hkept, take_answerable hs.conserved hidle hs.answerable backing⟩,
      hdeclared.trans (and_iff_left trivial).symm⟩
  · exact ⟨⟨hc, hs.kept, startFlush_answerable hs.answerable i scope rest⟩,
      (and_iff_left hin).symm⟩
  · have hanswerable := answer_answerable hs.answerable ha
    unfold Emitter.answer at ha
    split at ha
    · rename_i rest _
      cases rest <;> cases ha <;>
        exact ⟨⟨hc, hs.kept, hanswerable⟩, (and_iff_left trivial).symm⟩
    · cases ha
  · obtain ⟨flushed, -, rfl⟩ := join_eq hj
    refine ⟨⟨hc, hs.kept, ?_, hs.answerable.flushed⟩, (and_iff_left trivial).symm⟩
    intro j scope target before rest hcaller
    exact hs.answerable.flushing j scope target before rest
      (setCaller_flushing (by nofun) hcaller)

theorem run_sound {es : List Event} (h : run (step capacity) .initial es = some s) :
    Sound capacity s :=
  run_preserves (fun _ _ _ hs h => (step_sound hs h).1) (initial_sound capacity) h

/-- No gap is left pending too late just where every act of the run was in time. -/
theorem run_declared {es : List Event} (h : run (step capacity) .initial es = some s) :
    Declared s ↔ Meets (step capacity) InTime .initial es := by
  rw [meets_iff (fun _ _ _ hs h => (step_sound hs h).1)
    (fun _ _ _ hs h => (step_sound hs h).2) (initial_sound capacity) h]
  exact and_iff_right initial_declared

/-- Once the worker has returned, everything is delivered just where every act was in time. -/
theorem Sound.all_delivered_iff (hs : Sound capacity s) (halive : s.alive = false) :
    (∀ r ∈ s.submitted, Delivered s r) ↔ Declared s := by
  obtain ⟨hqueue, hidle, -⟩ := hs.kept.1 halive
  rw [hs.conserved.all_delivered_iff hqueue hidle]
  exact ⟨fun h scope _ => h scope, fun h scope => h scope (.inr halive)⟩

/-- What a `close` answered for stays delivered; one that answers now adds what is submitted. -/
theorem step_closed {e : Event} (hs : Sound capacity s) (hd : Declared s)
    (hclosed : ∀ before ∈ s.closed, ∀ r ∈ before, Delivered s r)
    (h : step capacity s e = some s') :
    ∀ before ∈ s'.closed, ∀ r ∈ before, Delivered s' r := by
  rcases step_quiet h with hq | ⟨backing, rfl, halive, hidle, rfl⟩ | ⟨i, scope, rest, hin, rfl⟩ |
    ⟨i, rfl, ha⟩ | ⟨i, rfl, hj⟩
  · intro before hbefore r hr
    rw [hq.closed] at hbefore
    exact (hclosed before hbefore r hr).mono hq.chain
  · obtain ⟨_, _, _, _, _, _, _, heq, -⟩ := s.take_eq backing
    rw [heq]
    exact hclosed
  · exact hclosed
  · unfold Emitter.answer at ha
    split at ha
    · rename_i rest _
      cases rest <;> cases ha <;> exact hclosed
    · cases ha
  · obtain ⟨flushed, -, rfl⟩ := join_eq hj
    intro before hbefore r hr
    change before ∈ (if (flushed && !s.alive) = true then s.submitted :: s.closed else s.closed)
      at hbefore
    change Delivered s r
    split at hbefore
    · rename_i hanswer
      have halive : s.alive = false := by simpa using (Bool.and_eq_true_iff.1 hanswer).2
      rcases List.mem_cons.1 hbefore with rfl | hbefore
      · exact (hs.all_delivered_iff halive).2 hd r hr
      · exact hclosed before hbefore r hr
    · exact hclosed before hbefore r hr

/-- **A clean stop.** In every run a flush answers True only over what is delivered. In a run that
loses no record in a scope the worker attempts no more, so does every `close`; and a `close` that
is about to answer True answers for everything just where the run is such a run. -/
theorem clean_stop {es : List Event} (h : run (step capacity) .initial es = some s) :
    (∀ x ∈ s.flushed, ∀ r ∈ x.2, r.scope = x.1 → Delivered s r) ∧
    (Meets (step capacity) InTime .initial es →
      ∀ before ∈ s.closed, ∀ r ∈ before, Delivered s r) ∧
    ∀ i, s.callers i = .joining true → s.alive = false →
      ((∀ r ∈ s.submitted, Delivered s r) ↔ Meets (step capacity) InTime .initial es) := by
  have hs := run_sound h
  refine ⟨hs.answerable.flushed, fun hmeets => ?_, fun i _ halive => ?_⟩
  · have hrun := @Meets.preserves _ _ (step capacity)
      (fun s => Sound capacity s ∧ Declared s ∧ ∀ before ∈ s.closed, ∀ r ∈ before, Delivered s r)
      InTime
    refine (hrun (fun s e s' hP hok h => ?_) hmeets
      ⟨initial_sound capacity, initial_declared, nofun⟩ h).2.2
    obtain ⟨hs, hd, hclosed⟩ := hP
    obtain ⟨hs', hdeclared⟩ := step_sound hs h
    exact ⟨hs', hdeclared.2 ⟨hd, hok⟩, step_closed hs hd hclosed h⟩
  · rw [hs.all_delivered_iff halive]
    exact run_declared h

/-- A `close` that finds nothing to flush, a record handed over before closing is set, and a store
that refuses it twice. -/
def refusedEvents : List Event :=
  [.close 0, .drain 0, .submit (lit "local") [sampleHanded], .setClosing 0, .take [],
    .append false, .finish, .take [], .gapGrade (some (some .unverified)), .append false, .finish,
    .take [], .join 0]

theorem close_over_loss : ∃ s before, run (step 1) .initial refusedEvents = some s ∧
    before ∈ s.closed ∧ ∃ r ∈ before, ¬ Delivered s r := by
  have hrun : ((run (step 1) .initial refusedEvents).map fun s => (s.closed, s.chain.length)) =
      some ([numbered (lit "local") 0 [sampleHanded]], 0) := by decide +kernel
  obtain ⟨s, hs, heq⟩ := Option.map_eq_some_iff.1 hrun
  obtain ⟨hclosed, hchain⟩ := Prod.mk.inj heq
  refine ⟨s, _, hs, hclosed ▸ List.mem_singleton_self _, _, List.mem_singleton_self _, ?_⟩
  rw [List.length_eq_zero_iff] at hchain
  rintro (h | ⟨gap, h, -⟩) <;> rw [hchain] at h <;> cases h

/-- The same `close` over a store that accepts the record. -/
def acceptedEvents : List Event :=
  [.close 0, .drain 0, .submit (lit "local") [sampleHanded], .setClosing 0, .take [],
    .append true, .finish, .take []]

/-- The flush a caller that joins the worker saw. -/
def Caller.joined : Caller → Bool
  | .joining flushed => flushed
  | _ => false

theorem clean_stop_accepted : ∃ s, run (step 1) .initial acceptedEvents = some s ∧
    s.callers 0 = .joining true ∧ s.alive = false ∧ s.submitted.length = 1 ∧
    ((∀ r ∈ s.submitted, Delivered s r) ↔ Meets (step 1) InTime .initial acceptedEvents) := by
  have hrun : ((run (step 1) .initial acceptedEvents).map fun s =>
      ((s.callers 0).joined, s.alive, s.submitted.length)) = some (true, false, 1) := by decide +kernel
  obtain ⟨s, hs, heq⟩ := Option.map_eq_some_iff.1 hrun
  obtain ⟨hcaller, heq⟩ := Prod.mk.inj heq
  obtain ⟨halive, hsubmitted⟩ := Prod.mk.inj heq
  have hjoining : s.callers 0 = .joining true := by
    cases hjoin : s.callers 0 with
    | joining flushed =>
      rw [hjoin] at hcaller
      rw [show flushed = true from hcaller]
    | _ => rw [hjoin] at hcaller; cases hcaller
  exact ⟨s, hs, hjoining, halive, hsubmitted, (clean_stop hs).2.2 0 hjoining halive⟩

end SayFirst.Plane.Emission
