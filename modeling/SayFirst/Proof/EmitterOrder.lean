import SayFirst.Proof.Emitter
import SayFirst.Proof.GradeKept

/-!
# The order of the evidence

The worker takes one unit at a time, the oldest first, and stops at the first record of a unit the
store refuses. So the chain is, submission by submission, the beginning of each.

* `Prefixes` — a list that is the beginnings of lists, in their order.
* `Ordered.step` — what every act keeps of the order.
* `evidence_in_order` — the records of the chain in every state a run reaches.
-/

namespace SayFirst.Plane.Emission

open Py

variable {capacity : ℕ} {s s' : Emitter}

/-! ## Beginnings -/

/-- The list is a beginning of each of the lists, in their order. -/
inductive Prefixes {α : Type*} : List (List α) → List α → Prop
  | nil : Prefixes [] []
  | cons (first : List α) (count : ℕ) {rest : List (List α)} {taken : List α}
      (h : Prefixes rest taken) : Prefixes (first :: rest) (first.take count ++ taken)

namespace Prefixes

variable {α : Type*} {lists more : List (List α)} {taken : List α}

theorem append {taken' : List α} (h : Prefixes lists taken) (h' : Prefixes more taken') :
    Prefixes (lists ++ more) (taken ++ taken') := by
  induction h with
  | nil => exact h'
  | cons first count _ ih =>
    rw [List.cons_append, List.append_assoc]
    exact .cons first count ih

theorem none (lists : List (List α)) : Prefixes lists [] := by
  induction lists with
  | nil => exact .nil
  | cons first rest ih => exact .cons first 0 ih

theorem extend (h : Prefixes lists taken) (more : List (List α)) : Prefixes (lists ++ more) taken := by
  have := h.append (none more)
  rwa [List.append_nil] at this

theorem snoc (h : Prefixes lists taken) (last : List α) (count : ℕ) :
    Prefixes (lists ++ [last]) (taken ++ last.take count) := by
  have := h.append (.cons last count .nil)
  rwa [List.append_nil] at this

theorem sublist (h : Prefixes lists taken) : taken.Sublist lists.flatten := by
  induction h with
  | nil => exact List.Sublist.refl _
  | cons first count _ ih => exact (List.take_sublist count first).append ih

end Prefixes

theorem flatten_sublist {α : Type*} {lists more : List (List α)} (h : lists.Sublist more) :
    lists.flatten.Sublist more.flatten := by
  induction h with
  | slnil => exact List.Sublist.refl _
  | cons last _ ih => exact ih.trans (List.sublist_append_right last _)
  | cons_cons last _ ih => exact (List.Sublist.refl last).append ih

/-! ## The order -/

/-- The record an entry is of. -/
def Written.ofRecord : Written → Option Record
  | .record r => some r
  | .gap _ _ | .daemonGrade _ _ => none

/-- The records on the chain, oldest first. -/
def Emitter.delivered (s : Emitter) : List Record := (s.chain.filterMap Written.ofRecord).reverse

/-- What an act hands over: the records of one submission. -/
def submission (s : Emitter) : Event → List (List Record)
  | .submit scope handed => [numbered scope s.submitted.length handed]
  | .hand i handed opens =>
    match s.callers i with
    | .holding scope grade =>
      if opens then [numbered scope s.submitted.length (grade.toList ++ handed)] else []
    | _ => []
  | _ => []

/-- The records the worker is appending, and how many of them are appended. -/
def Emitter.current (s : Emitter) : Option (List Record × ℕ) :=
  s.inflight.map fun d => (d.unit.records, d.completed)

/-- What is delivered of the submissions that were taken, the last of which may be under way. -/
def Underway (delivered : List Record) (taken : List (List Record)) :
    Option (List Record × ℕ) → Prop
  | none => Prefixes taken delivered
  | some (records, count) => ∃ before rest, Prefixes before rest ∧
      delivered = rest ++ records.take count ∧
      (taken = before ++ [records] ∨ records = [] ∧ taken = before)

/-- The submissions were taken in their order as far as some point, and what is queued stands behind
it, in their order, too. -/
structure Ordered (s : Emitter) (submissions : List (List Record)) : Prop where
  submitted : submissions.flatten = s.submitted
  split : ∃ taken later, submissions = taken ++ later ∧
    (s.queue.map (·.records)).Sublist later ∧ Underway s.delivered taken s.current

theorem Underway.prefixes {delivered : List Record} {taken : List (List Record)}
    {current : Option (List Record × ℕ)} (h : Underway delivered taken current) :
    Prefixes taken delivered := by
  cases current with
  | none => exact h
  | some current =>
    obtain ⟨records, count⟩ := current
    obtain ⟨before, rest, hprefixes, rfl, rfl | ⟨rfl, rfl⟩⟩ := h
    · exact hprefixes.snoc records count
    · rw [List.take_nil, List.append_nil]
      exact hprefixes

/-- What is delivered and what is under way were taken in this order. -/
theorem Underway.sublist {delivered : List Record} {taken : List (List Record)}
    {current : Option (List Record × ℕ)} (h : Underway delivered taken current) :
    (delivered ++ (current.map fun c => c.1.drop c.2).getD []).Sublist taken.flatten := by
  cases current with
  | none =>
    have hprefixes : Prefixes taken delivered := h
    rw [Option.map_none, Option.getD_none, List.append_nil]
    exact hprefixes.sublist
  | some current =>
    obtain ⟨records, count⟩ := current
    obtain ⟨before, rest, hprefixes, rfl, htaken⟩ := h
    rw [Option.map_some, Option.getD_some, List.append_assoc, List.take_append_drop]
    rcases htaken with rfl | ⟨rfl, rfl⟩
    · rw [List.flatten_append, List.flatten_singleton]
      exact hprefixes.sublist.append (List.Sublist.refl records)
    · rw [List.append_nil]
      exact hprefixes.sublist

theorem ordered_initial : Ordered .initial [] :=
  ⟨rfl, [], [], rfl, List.Sublist.refl _, .nil⟩

namespace Ordered

variable {submissions : List (List Record)}

/-- An act that moves no record keeps the order. -/
theorem same (h : Ordered s submissions) (hqueue : s'.queue = s.queue)
    (hcurrent : s'.current = s.current) (hdelivered : s'.delivered = s.delivered)
    (hsubmitted : s'.submitted = s.submitted) : Ordered s' submissions := by
  obtain ⟨hflat, taken, later, hsplit, hqueued, hunderway⟩ := h
  refine ⟨hflat.trans hsubmitted.symm, taken, later, hsplit, ?_, ?_⟩
  · rw [hqueue]
    exact hqueued
  · rw [hcurrent, hdelivered]
    exact hunderway

theorem books (h : Ordered s submissions) (hsame : SameBooks s s') : Ordered s' submissions := by
  refine h.same hsame.queue ?_ ?_ hsame.submitted
  · unfold Emitter.current
    rw [hsame.inflight]
  · unfold Emitter.delivered
    rw [hsame.chain]

/-- A submission stands behind all others, queued or not. -/
theorem submit (h : Ordered s submissions) (capacity : ℕ) (scope : Str) (handed : List Handed) :
    Ordered (s.submit capacity scope handed).2
      (submissions ++ [numbered scope s.submitted.length handed]) := by
  obtain ⟨hflat, taken, later, hsplit, hqueued, hunderway⟩ := h
  have hsubmitted : (submissions ++ [numbered scope s.submitted.length handed]).flatten =
      s.submitted ++ numbered scope s.submitted.length handed := by
    rw [List.flatten_append, hflat]
    simp
  have hlater : submissions ++ [numbered scope s.submitted.length handed] =
      taken ++ (later ++ [numbered scope s.submitted.length handed]) := by
    rw [hsplit, List.append_assoc]
  have hbehind : (s.queue.map (·.records)).Sublist
      (later ++ [numbered scope s.submitted.length handed]) :=
    hqueued.trans (List.sublist_append_left _ _)
  -- a submission that is refused stands in the order all the same: nothing of it is delivered
  have refused : Ordered (({ s with
      submitted := s.submitted ++ numbered scope s.submitted.length handed } : Emitter).countLoss
        scope (numbered scope s.submitted.length handed))
      (submissions ++ [numbered scope s.submitted.length handed]) := by
    refine ⟨?_, taken, _, hlater, ?_, ?_⟩
    · rw [Emitter.countLoss_submitted]
      exact hsubmitted
    · rw [Emitter.countLoss_queue]
      exact hbehind
    · unfold Emitter.delivered Emitter.current
      rw [Emitter.countLoss_chain, Emitter.countLoss_inflight]
      exact hunderway
  unfold Emitter.submit
  simp only
  split
  · exact ⟨hsubmitted, taken, _, hlater, hbehind, hunderway⟩
  split
  · exact refused
  split
  · exact refused
  · refine ⟨hsubmitted, taken, _, hlater, ?_, hunderway⟩
    rw [List.map_append]
    exact hqueued.append (List.Sublist.refl _)

/-- The worker takes the oldest unit that is queued, or a gap alone. -/
theorem take (h : Ordered s submissions) (backing : List Str) :
    Ordered (s.take backing) submissions := by
  unfold Emitter.take
  cases hnext : s.nextUnit backing with
  | mk unit t =>
    unfold Emitter.nextUnit at hnext
    cases hqueue : s.queue with
    | nil =>
      rw [hqueue] at hnext
      cases unit with
      | none =>
        have hsame := visit_none hnext
        simp only
        split
        · exact (h.books hsame).books ⟨rfl, rfl, rfl, rfl, rfl, rfl⟩
        · exact h.books hsame
      | some unit =>
        -- a gap alone brings no record
        obtain ⟨hrecords, gap, -, -, -, hq, -, -, hchain, hsubmitted⟩ := visit_some hnext
        obtain ⟨hflat, taken, later, hsplit, hqueued, hunderway⟩ := h
        refine ⟨hflat.trans hsubmitted.symm, taken, later, hsplit, ?_, ?_⟩
        · simp only [hq]
          exact hqueued
        · refine ⟨taken, s.delivered, hunderway.prefixes, ?_, .inr ⟨hrecords, rfl⟩⟩
          unfold Emitter.delivered
          rw [hchain, List.take_zero, List.append_nil]
    | cons first rest =>
      rw [hqueue] at hnext
      cases hnext
      obtain ⟨hflat, taken, later, hsplit, hqueued, hunderway⟩ := h
      rw [hqueue, List.map_cons] at hqueued
      -- the unit is one of the submissions behind those that were taken
      obtain ⟨refused, behind, hlater, hbehind⟩ : ∃ refused behind,
          later = refused ++ first.records :: behind ∧ (rest.map (·.records)).Sublist behind := by
        obtain ⟨front, back, rfl, hfirst, hback⟩ := List.cons_sublist_iff.1 hqueued
        obtain ⟨refused, behind, rfl⟩ := List.append_of_mem hfirst
        refine ⟨refused, behind ++ back, by simp, ?_⟩
        exact hback.trans (List.sublist_append_right _ _)
      refine ⟨hflat, taken ++ refused ++ [first.records], behind, ?_, hbehind, ?_⟩
      · rw [hsplit, hlater]
        simp
      · refine ⟨taken ++ refused, s.delivered, hunderway.prefixes.extend refused, ?_, .inl rfl⟩
        rw [List.take_zero, List.append_nil]
        rfl

/-- The worker appends the next record of its unit, or an entry that is no record. -/
theorem append (h : Ordered s submissions) {accepted : Bool} (hs : s.append accepted = some s') :
    Ordered s' submissions := by
  unfold Emitter.append at hs
  cases hd : s.inflight with
  | none => rw [hd] at hs; cases hs
  | some d =>
    simp only [hd] at hs
    have hcurrent : s.current = some (d.unit.records, d.completed) := by
      unfold Emitter.current
      rw [hd]
      rfl
    cases hstage : d.stage with
    | gap => simp only [hstage] at hs; cases hs
    | failed => simp only [hstage] at hs; cases hs
    | grade grade =>
      simp only [hstage, Option.some.injEq] at hs
      subst hs
      cases accepted with
      | true => exact h.same rfl hcurrent.symm rfl rfl
      | false => exact h.same rfl hcurrent.symm rfl rfl
    | entry =>
      cases hgap : d.unit.gapBefore with
      | none => simp only [hstage, hgap] at hs; cases hs
      | some gap =>
        simp only [hstage, hgap, Option.some.injEq] at hs
        subst hs
        cases accepted with
        | true => exact h.same rfl hcurrent.symm rfl rfl
        | false => exact h.same rfl hcurrent.symm rfl rfl
    | records =>
      cases hr : d.unit.records[d.completed]? with
      | none => simp only [hstage, hr] at hs; cases hs
      | some r =>
        simp only [hstage, hr, Option.some.injEq] at hs
        subst hs
        cases accepted with
        | false => exact h.same rfl hcurrent.symm rfl rfl
        | true =>
          obtain ⟨hflat, taken, later, hsplit, hqueued, hunderway⟩ := h
          refine ⟨hflat, taken, later, hsplit, hqueued, ?_⟩
          rw [hcurrent] at hunderway
          obtain ⟨before, rest, hprefixes, hdelivered, htaken⟩ := hunderway
          -- the record that is appended is the next of the unit that is under way
          refine ⟨before, rest, hprefixes, ?_, htaken⟩
          have hnow : ∀ d', (s.appended (.record r) d').delivered = s.delivered ++ [r] :=
            fun _ => List.reverse_cons
          have hnext : d.unit.records.take (d.completed + 1) =
              d.unit.records.take d.completed ++ [r] := by
            rw [List.take_add_one, hr]
            rfl
          simp only [if_true]
          rw [hnow, hdelivered, hnext, List.append_assoc]

/-- The worker lets its unit go. -/
theorem finish (h : Ordered s submissions) (d : Inflight) (failed : Bool) :
    Ordered (s.finish d failed) submissions := by
  obtain ⟨pending, delivering, heq⟩ := s.finish_eq d failed
  -- what a unit left behind that failed is lost: a beginning of it is delivered
  obtain ⟨hflat, taken, later, hsplit, hqueued, hunderway⟩ := h
  rw [heq]
  exact ⟨hflat, taken, later, hsplit, hqueued, hunderway.prefixes⟩

theorem gapGrade (h : Ordered s submissions) {evaluated : Option (Option Grade)}
    (hs : s.gapGrade evaluated = some s') : Ordered s' submissions := by
  unfold Emitter.gapGrade at hs
  cases hd : s.inflight with
  | none => rw [hd] at hs; cases hs
  | some d =>
    have hcurrent : s.current = some (d.unit.records, d.completed) := by
      unfold Emitter.current
      rw [hd]
      rfl
    simp only [hd] at hs
    split at hs
    · cases evaluated with
      | none =>
        cases hs
        exact h.same rfl hcurrent.symm rfl rfl
      | some evaluated =>
        simp only at hs
        split at hs
        · cases hs
        · rename_i due t hgrade
          obtain ⟨grades, rfl⟩ := Emitter.recordGrade_eq hgrade
          cases hs
          exact h.same rfl hcurrent.symm rfl rfl
    · cases hs

/-- **Every act keeps the order.** -/
theorem step (h : Ordered s submissions) {e : Event} (hs : step capacity s e = some s') :
    Ordered s' (submissions ++ submission s e) := by
  have still : ∀ {t : Emitter}, SameBooks s t → Ordered t (submissions ++ []) := by
    intro t hsame
    rw [List.append_nil]
    exact h.books hsame
  cases e with
  | submit scope handed =>
    cases hs
    exact h.submit capacity scope handed
  | evaluate i scope connectionId at_ evaluated =>
    simp only [Emission.step] at hs
    split at hs
    · split at hs
      · cases hs
      · obtain ⟨⟨due, t⟩, ht, rfl⟩ := Option.map_eq_some_iff.1 hs
        obtain ⟨h1, h2, h3, h4, h5, h6⟩ := recordGrade_same ht
        exact still ⟨h1, h2, h3, h4, h5, h6⟩
    · cases hs
  | hand i handed opens =>
    cases hcaller : s.callers i with
    | holding scope grade =>
      simp only [Emission.step, hcaller, Option.some.injEq] at hs
      subst hs
      simp only [submission, hcaller]
      cases opens with
      | false => exact still ⟨rfl, rfl, rfl, rfl, rfl, rfl⟩
      | true =>
        exact (h.submit capacity scope (grade.toList ++ handed)).books ⟨rfl, rfl, rfl, rfl, rfl, rfl⟩
    | _ => simp only [Emission.step, hcaller] at hs; cases hs
  | raised i =>
    simp only [Emission.step] at hs
    split at hs
    · cases hs
      exact still ⟨rfl, rfl, rfl, rfl, rfl, rfl⟩
    · cases hs
  | evaluateDaemon i scope evaluated =>
    simp only [Emission.step] at hs
    split at hs
    · obtain ⟨⟨due, t⟩, ht, rfl⟩ := Option.map_eq_some_iff.1 hs
      obtain ⟨h1, h2, h3, h4, h5, h6⟩ := recordGrade_same ht
      exact still ⟨h1, h2, h3, h4, h5, h6⟩
    · cases hs
  | appendDaemon i accepted =>
    simp only [Emission.step] at hs
    split at hs
    · rename_i scope due _
      cases hs
      simp only [submission, List.append_nil]
      -- the daemon's grade is no record of a submission
      cases due with
      | none => exact h.same rfl rfl rfl rfl
      | some grade => cases accepted <;> exact h.same rfl rfl rfl rfl
    · cases hs
  | take backing =>
    simp only [Emission.step] at hs
    split at hs
    · cases hs
      simp only [submission, List.append_nil]
      exact h.take backing
    · cases hs
  | gapGrade evaluated =>
    simp only [submission, List.append_nil]
    exact h.gapGrade hs
  | append accepted =>
    simp only [submission, List.append_nil]
    exact h.append hs
  | finish =>
    simp only [submission, List.append_nil]
    simp only [Emission.step] at hs
    cases hd : s.inflight with
    | none => rw [hd] at hs; cases hs
    | some d =>
      simp only [hd] at hs
      split at hs
      · cases hs
        exact h.finish d true
      · split at hs
        · cases hs
          exact h.finish d false
        · cases hs
      · cases hs
  | flush i scope =>
    simp only [Emission.step] at hs
    split at hs
    · split at hs
      · cases hs
      · cases hs
        exact still ⟨rfl, rfl, rfl, rfl, rfl, rfl⟩
    · cases hs
  | answer i =>
    simp only [Emission.step, Emitter.answer] at hs
    split at hs
    · rename_i scope target before rest _
      cases hs
      cases rest <;> exact still ⟨rfl, rfl, rfl, rfl, rfl, rfl⟩
    · cases hs
  | close i =>
    simp only [Emission.step] at hs
    split at hs
    · cases hs
      exact still ⟨rfl, rfl, rfl, rfl, rfl, rfl⟩
    · cases hs
  | drain i =>
    simp only [Emission.step] at hs
    split at hs
    · cases hs
      exact still ⟨rfl, rfl, rfl, rfl, rfl, rfl⟩
    · cases hs
      exact still ⟨rfl, rfl, rfl, rfl, rfl, rfl⟩
    · cases hs
  | setClosing i =>
    simp only [Emission.step] at hs
    split at hs
    · cases hs
      exact still ⟨rfl, rfl, rfl, rfl, rfl, rfl⟩
    · cases hs
  | join i =>
    simp only [Emission.step, Emitter.join] at hs
    split at hs
    · cases hs
      exact still ⟨rfl, rfl, rfl, rfl, rfl, rfl⟩
    · cases hs

end Ordered

/-! ## Runs -/

theorem submission_reverse (s : Emitter) (e : Event) : (submission s e).reverse = submission s e := by
  cases e with
  | hand i handed opens =>
    simp only [submission]
    split
    · split <;> rfl
    · rfl
  | _ => rfl

/-- **Evidence is in order.** In every run, the records on the chain are, submission by submission in
the order of their hand-over, a beginning of each: no record overtakes another one, and none is on
the chain without those handed over before it in its own submission. What waits was handed over
behind everything on the chain. -/
theorem evidence_in_order (capacity : ℕ) (events : List Event) (s : Emitter)
    (submissions : List (List Record))
    (h : run (watch (step capacity) submission) (.initial, []) events = some (s, submissions)) :
    Prefixes submissions.reverse s.delivered ∧ submissions.reverse.flatten = s.submitted ∧
      (s.delivered ++ s.remaining).Sublist s.submitted := by
  have hordered : Ordered s submissions.reverse := by
    -- the trace is kept newest first
    refine run_preserves (P := fun t : Emitter × List (List Record) => Ordered t.1 t.2.reverse)
      (fun t e t' ht hstep => ?_) ordered_initial h
    obtain ⟨hs, hseen⟩ := watch_eq hstep
    rw [hseen, List.reverse_append, submission_reverse]
    exact ht.step hs
  obtain ⟨hflat, taken, later, hsplit, hqueued, hunderway⟩ := hordered
  refine ⟨?_, hflat, ?_⟩
  · rw [hsplit]
    exact hunderway.prefixes.extend later
  · have hremaining : s.remaining = (s.current.map fun c => c.1.drop c.2).getD [] ++
        (s.queue.map (·.records)).flatten := by
      unfold Emitter.remaining Emitter.current
      rw [Option.map_map, List.flatMap_def]
      rfl
    rw [← hflat, hsplit, List.flatten_append, hremaining, ← List.append_assoc]
    exact hunderway.sublist.append (flatten_sublist hqueued)

/-- A grade and an effect in one submission, the effect refused by the store, and a later effect. -/
def refusedEffectEvents : List Event :=
  [.submit (lit "local") [⟨gradeKind, 0, lit "connection:1", some .unverified⟩, sampleHanded],
    .submit (lit "local") [sampleHanded], .take [], .append true, .append false, .finish, .take [],
    .append true, .finish]

theorem evidence_in_order_refused : ∃ s submissions,
    run (watch (step 4) submission) (.initial, []) refusedEffectEvents = some (s, submissions) ∧
      s.delivered.map (·.number) = [0, 2] ∧ Prefixes submissions.reverse s.delivered := by
  have hrun : ((run (watch (step 4) submission) (.initial, []) refusedEffectEvents).map fun t =>
      t.1.delivered.map (·.number)) = some [0, 2] := by decide +kernel
  obtain ⟨⟨s, submissions⟩, hs, hnumbers⟩ := Option.map_eq_some_iff.1 hrun
  exact ⟨s, submissions, hs, hnumbers, (evidence_in_order 4 _ s submissions hs).1⟩

end SayFirst.Plane.Emission
