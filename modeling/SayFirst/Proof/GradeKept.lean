import SayFirst.Proof.CleanStop

/-!
# Grade transitions

A grade is held as recorded before its record is on the chain: until then the
record is in a thread's hand, queued or in flight.

* `step_flow` — how records move from hand-over to the chain.
* `step_shown` — what the grades held rest on, act by act.
* `grade_kept` — no transition is lost in a run whose records of a grade are
  neither dropped from a hand nor overtaken there.
-/

namespace SayFirst.Plane.Emission

open Py

variable {capacity : ℕ} {s s' : Emitter} {scope : Str} {key : Str × Str} {grade : Grade}
  {new : List Record}

/-- The kind of a grade record. -/
def gradeKind : Str := lit "grade"

/-! ## Where a grade record can be -/

/-- The grade the record carries for the connection and scope. -/
def Record.gradeFor (key : Str × Str) (r : Record) : Option Grade :=
  if r.kind = gradeKind ∧ r.connectionId = key.1 ∧ r.scope = key.2 then r.grade else none

def Written.gradeFor (key : Str × Str) : Written → Option Grade
  | .record r => r.gradeFor key
  | .daemonGrade scope grade => if key = (daemonConnection, scope) then some grade else none
  | .gap .. => none

/-- The thread evaluated the grade, and is about to hand its record over. -/
def Caller.InHand (key : Str × Str) (grade : Grade) : Caller → Prop
  | .holding scope (some h) => (h.connectionId, scope) = key ∧ h.grade = some grade
  | .reporting scope (some due) => (daemonConnection, scope) = key ∧ due = grade
  | _ => False

def Inflight.InHand (key : Str × Str) (grade : Grade) (d : Inflight) : Prop :=
  (daemonConnection, d.unit.scope) = key ∧ d.stage = .grade grade

namespace Emitter

variable (s : Emitter) (key : Str × Str)

/-- The records queued or in flight, oldest first. -/
def remaining : List Record :=
  ((s.inflight.map fun d => d.unit.records.drop d.completed).getD []) ++
    s.queue.flatMap (·.records)

/-- The grade entries on the chain, newest first. -/
def chainGrades : List Grade := s.chain.filterMap (·.gradeFor key)

def remainingGrades : List Grade := s.remaining.filterMap (·.gradeFor key)

/-- The grades that are or will be on the chain, newest first. -/
def gradesAhead : List Grade := (s.remainingGrades key).reverse ++ s.chainGrades key

/-- A thread has the grade's record in hand. -/
def InHand (grade : Grade) : Prop :=
  (∃ i, (s.callers i).InHand key grade) ∨ ∃ d, s.inflight = some d ∧ d.InHand key grade

/-- A gap of the scope, pending or written, counts a grade record. -/
def GradeLost (scope : Str) : Prop :=
  0 < s.pendingKinds scope gradeKind + s.writtenKinds scope gradeKind

end Emitter

/-! ## The flow of records -/

/-- How an act moves records: from a hand-over to the queue or a gap, from the front of what
remains to the chain or a gap. -/
inductive Flow (s s' : Emitter) : List Record → Prop
  | queued (new : List Record) (submitted : s'.submitted = s.submitted ++ new)
      (remaining : s'.remaining = s.remaining ++ new) (chain : s'.chain = s.chain) : Flow s s' new
  | refused (new : List Record) (submitted : s'.submitted = s.submitted ++ new)
      (remaining : s'.remaining = s.remaining) (chain : s'.chain = s.chain) : Flow s s' new
  | written (r : Record) (submitted : s'.submitted = s.submitted)
      (remaining : s.remaining = r :: s'.remaining) (chain : s'.chain = .record r :: s.chain) :
      Flow s s' []
  | gap (scope : Str) (gap : PendingGap) (submitted : s'.submitted = s.submitted)
      (remaining : s'.remaining = s.remaining) (chain : s'.chain = .gap scope gap :: s.chain) :
      Flow s s' []
  | lost (losses : List Record) (submitted : s'.submitted = s.submitted)
      (remaining : s.remaining = losses ++ s'.remaining) (chain : s'.chain = s.chain) :
      Flow s s' []

theorem queue_waiting {queue : List EmissionUnit} (p : Record → Bool) :
    (queue.map (·.waiting scope p)).sum =
      (queue.flatMap (·.records)).countP fun r => r.scope == scope && p r := by
  induction queue with
  | nil => rfl
  | cons u rest ih =>
    rw [List.map_cons, List.sum_cons, ih, List.flatMap_cons, List.countP_append,
      countP_scope u.held]
    rfl

theorem waiting_eq (s : Emitter) (scope : Str) (p : Record → Bool) :
    s.waiting scope p = s.remaining.countP fun r => r.scope == scope && p r := by
  unfold Emitter.waiting Emitter.remaining
  rw [List.countP_append, queue_waiting, Nat.add_comm]
  congr 1
  cases s.inflight with
  | none => rfl
  | some d =>
    simp only [Option.map_some, Option.getD_some]
    rw [countP_scope fun r hr => d.unit.held r (List.mem_of_mem_drop hr)]
    rfl

theorem gradeLost_iff : s.GradeLost scope ↔ 0 < s.lost scope (·.kind == gradeKind) := by
  unfold Emitter.GradeLost
  rw [s.lost_kinds]

/-- What is lost by an act: what leaves the books of the queue and does not reach the chain. -/
theorem Flow.lost_eq (hc : Conserved capacity s) (hc' : Conserved capacity s')
    (h : Flow s s' new) (scope : Str) (p : Record → Bool) :
    ∃ losses : List Record, s'.lost scope p =
        s.lost scope p + losses.countP (fun r => r.scope == scope && p r) ∧
      ∀ key, losses.filterMap (·.gradeFor key) = [] →
        s'.gradesAhead key = (new.filterMap (·.gradeFor key)).reverse ++ s.gradesAhead key := by
  have ht := hc.total scope p
  have ht' := hc'.total scope p
  rw [waiting_eq] at ht ht'
  unfold Emitter.submittedIn Emitter.onChain at ht ht'
  unfold Emitter.gradesAhead Emitter.remainingGrades Emitter.chainGrades
  cases h with
  | queued new hsubmitted hremaining hchain =>
    rw [hsubmitted, hremaining, hchain, List.countP_append, List.countP_append] at ht'
    refine ⟨[], ?_, fun key _ => ?_⟩
    · rw [List.countP_nil]
      omega
    · rw [hremaining, hchain, List.filterMap_append, List.reverse_append, List.append_assoc]
  | refused new hsubmitted hremaining hchain =>
    rw [hsubmitted, hremaining, hchain, List.countP_append] at ht'
    refine ⟨new, by omega, fun key hnone => ?_⟩
    rw [hremaining, hchain, hnone]
    rfl
  | written r hsubmitted hremaining hchain =>
    rw [hsubmitted, hchain, List.map_cons, List.sum_cons] at ht'
    rw [hremaining, List.countP_cons] at ht
    have happended : (Written.record r).appended scope p =
        if (r.scope == scope && p r) = true then 1 else 0 := by
      by_cases hs : r.scope = scope
      · simp [Written.appended, hs, List.countP_cons]
      · simp [Written.appended, hs]
    rw [happended] at ht'
    refine ⟨[], ?_, fun key _ => ?_⟩
    · rw [List.countP_nil]
      omega
    · -- the oldest that remains becomes the newest on the chain
      rw [hremaining, hchain, List.filterMap_cons, List.filterMap_cons]
      simp only [Written.gradeFor]
      cases r.gradeFor key with
      | none => rfl
      | some grade => simp
  | gap other gap hsubmitted hremaining hchain =>
    rw [hsubmitted, hremaining, hchain, List.map_cons, List.sum_cons] at ht'
    have happended : (Written.gap other gap).appended scope p = 0 := rfl
    refine ⟨[], ?_, fun key _ => ?_⟩
    · rw [List.countP_nil]
      omega
    · rw [hremaining, hchain]
      rfl
  | lost losses hsubmitted hremaining hchain =>
    rw [hsubmitted, hchain] at ht'
    rw [hremaining, List.countP_append] at ht
    refine ⟨losses, by omega, fun key hnone => ?_⟩
    rw [hremaining, hchain, List.filterMap_append, hnone]
    rfl

theorem gradeFor_eq_some {r : Record} (h : r.gradeFor key = some grade) :
    r.kind = gradeKind ∧ r.connectionId = key.1 ∧ r.scope = key.2 := by
  unfold Record.gradeFor at h
  split at h
  · assumption
  · cases h

theorem Flow.ahead (hc : Conserved capacity s) (hc' : Conserved capacity s') (h : Flow s s' new)
    (key : Str × Str) : s'.GradeLost key.2 ∨
      s'.gradesAhead key = (new.filterMap (·.gradeFor key)).reverse ++ s.gradesAhead key := by
  obtain ⟨losses, hlost, hahead⟩ := h.lost_eq hc hc' key.2 (·.kind == gradeKind)
  cases hgrades : losses.filterMap (·.gradeFor key) with
  | nil => exact .inr (hahead key hgrades)
  | cons grade rest =>
    left
    have hmem : grade ∈ losses.filterMap (·.gradeFor key) := hgrades ▸ List.mem_cons_self
    obtain ⟨r, hr, hgrade⟩ := List.mem_filterMap.1 hmem
    obtain ⟨hkind, -, hscope⟩ := gradeFor_eq_some hgrade
    have hpos : 0 < losses.countP fun r => r.scope == key.2 && r.kind == gradeKind :=
      List.countP_pos_iff.2 ⟨r, hr, by simp [hkind, hscope]⟩
    rw [gradeLost_iff, hlost]
    omega

theorem Flow.lost_mono (hc : Conserved capacity s) (hc' : Conserved capacity s')
    (h : Flow s s' new) (hlost : s.GradeLost scope) : s'.GradeLost scope := by
  obtain ⟨losses, heq, -⟩ := h.lost_eq hc hc' scope (·.kind == gradeKind)
  rw [gradeLost_iff] at hlost ⊢
  omega

theorem Flow.remaining_mem (h : Flow s s' new) {r : Record} (hr : r ∈ s'.remaining) :
    r ∈ s.remaining ∨ r ∈ new := by
  cases h with
  | queued _ _ hremaining => exact List.mem_append.1 (hremaining ▸ hr)
  | refused _ _ hremaining => exact .inl (hremaining ▸ hr)
  | written r' _ hremaining => exact .inl (hremaining ▸ List.mem_cons_of_mem _ hr)
  | gap _ _ _ hremaining => exact .inl (hremaining ▸ hr)
  | lost losses _ hremaining => exact .inl (hremaining ▸ List.mem_append_right _ hr)

/-! ## What a held grade rests on -/

/-- A grade that is held is lost to a gap, in a hand, or the newest there is on its way. -/
structure Shown (s : Emitter) : Prop where
  hands : ∀ i scope h, s.callers i = .holding scope (some h) →
    h.kind = gradeKind ∧ h.connectionId ≠ daemonConnection
  foreign : ∀ r ∈ s.remaining, r.kind = gradeKind → r.connectionId ≠ daemonConnection
  newest : ∀ key grade, s.grades.lookup key = some grade →
    s.GradeLost key.2 ∨ s.InHand key grade ∨ (s.gradesAhead key).head? = some grade

theorem Shown.next (hs : Shown s) (hc : Conserved capacity s) (hc' : Conserved capacity s')
    (h : Flow s s' new) (hnew : ∀ r ∈ new, r.kind = gradeKind → r.connectionId ≠ daemonConnection)
    (hhands : ∀ i scope h, s'.callers i = .holding scope (some h) →
      h.kind = gradeKind ∧ h.connectionId ≠ daemonConnection)
    (hgrades : ∀ key grade, s'.grades.lookup key = some grade → s.GradeLost key.2 ∨
      s'.InHand key grade ∨ (new.filterMap (·.gradeFor key)).reverse.head? = some grade ∨
      (new.filterMap (·.gradeFor key) = [] ∧ s.grades.lookup key = some grade ∧
        (s.InHand key grade → s'.InHand key grade))) : Shown s' := by
  refine ⟨hhands, fun r hr hkind => ?_, fun key grade hheld => ?_⟩
  · rcases h.remaining_mem hr with hr | hr
    · exact hs.foreign r hr hkind
    · exact hnew r hr hkind
  · rcases h.ahead hc hc' key with hlost | hahead
    · exact .inl hlost
    rw [hahead]
    rcases hgrades key grade hheld with hlost | hhand | hhead | ⟨hnone, hheld, hhand⟩
    · exact .inl (h.lost_mono hc hc' hlost)
    · exact .inr (.inl hhand)
    · rw [List.head?_append, hhead]
      exact .inr (.inr rfl)
    · rw [hnone]
      rcases hs.newest key grade hheld with hlost | hin | hhead
      · exact .inl (h.lost_mono hc hc' hlost)
      · exact .inr (.inl (hhand hin))
      · exact .inr (.inr hhead)

/-- An act of the books alone. -/
theorem Shown.still (hs : Shown s) (hc : Conserved capacity s) (hc' : Conserved capacity s')
    (h : Flow s s' new) (hnew : ∀ r ∈ new, r.kind ≠ gradeKind) (hcallers : s'.callers = s.callers)
    (hgrades : s'.grades = s.grades)
    (hworker : ∀ key grade d, s.inflight = some d → d.InHand key grade →
      ∃ d', s'.inflight = some d' ∧ d'.InHand key grade) : Shown s' := by
  refine hs.next hc hc' h (fun r hr hkind => absurd hkind (hnew r hr)) (hcallers ▸ hs.hands)
    fun key grade hheld => .inr (.inr (.inr ⟨?_, hgrades ▸ hheld, ?_⟩))
  · rw [List.filterMap_eq_nil_iff]
    intro r hr
    exact if_neg fun h => hnew r hr h.1
  · rintro (⟨i, hi⟩ | ⟨d, hd, hin⟩)
    · exact .inl ⟨i, hcallers ▸ hi⟩
    · exact .inr (hworker key grade d hd hin)

/-- A thread that had nothing in hand moves on, and may have evaluated a grade. -/
theorem Shown.moved (hs : Shown s) (hc : Conserved capacity s) (hbooks : SameBooks s s') {i : ℕ}
    {c : Caller} (hidle : ∀ key grade, ¬ (s.callers i).InHand key grade)
    (hcallers : s'.callers = fun j => if j = i then c else s.callers j)
    (hholding : ∀ scope h, c = .holding scope (some h) →
      h.kind = gradeKind ∧ h.connectionId ≠ daemonConnection)
    (hgrades : ∀ key grade, s'.grades.lookup key = some grade →
      s.grades.lookup key = some grade ∨ c.InHand key grade) : Shown s' := by
  have hc' := hc.of_same hbooks
  obtain ⟨hqueue, -, -, hinflight, hchain, hsubmitted⟩ := hbooks
  have hflow : Flow s s' [] := by
    refine .queued [] ?_ ?_ hchain
    · rw [hsubmitted, List.append_nil]
    · rw [List.append_nil]
      unfold Emitter.remaining
      rw [hqueue, hinflight]
  have hhere : s'.callers i = c := by rw [hcallers]; exact if_pos rfl
  have helse : ∀ j, j ≠ i → s'.callers j = s.callers j := fun j hj => by
    rw [hcallers]
    exact if_neg hj
  refine hs.next hc hc' hflow nofun (fun j scope h hj => ?_) fun key grade hheld => ?_
  · by_cases hji : j = i
    · rw [hji, hhere] at hj
      exact hholding scope h hj
    · rw [helse j hji] at hj
      exact hs.hands j scope h hj
  · rcases hgrades key grade hheld with hheld | hin
    · refine .inr (.inr (.inr ⟨rfl, hheld, ?_⟩))
      rintro (⟨j, hj⟩ | ⟨d, hd, hin⟩)
      · have hji : j ≠ i := fun heq => hidle key grade (heq ▸ hj)
        exact .inl ⟨j, (helse j hji).symm ▸ hj⟩
      · exact .inr ⟨d, hinflight.trans hd, hin⟩
    · exact .inr (.inl (.inl ⟨i, hhere.symm ▸ hin⟩))

theorem recordGrade_held {connectionId : Str} {evaluated due : Option Grade}
    (h : s.recordGrade connectionId scope evaluated = some (due, s'))
    (hheld : s'.grades.lookup key = some grade) :
    s.grades.lookup key = some grade ∨ (connectionId, scope) = key ∧ due = some grade := by
  unfold Emitter.recordGrade at h
  cases evaluated with
  | none =>
    simp only at h
    split at h
    · cases h
      exact .inl hheld
    · cases h
  | some evaluated =>
    cases h
    by_cases hkey : key = (connectionId, scope)
    · subst hkey
      simp only [AList.lookup_insert, Option.some.injEq] at hheld
      subst hheld
      split
      · rename_i hsame
        exact .inl hsame
      · exact .inr ⟨rfl, rfl⟩
    · simp only [AList.lookup_insert_ne hkey] at hheld
      exact .inl hheld

/-! ## A record that leaves a hand -/

/-- The grade may leave the hand it is in, delivered or dropped: a gap of the scope counts one
already, or the grade that is held is in another hand, or it is the one delivered, or not the one
dropped. `t` is the emitter with the hand empty. -/
def Safe (s t : Emitter) (key : Str × Str) (grade : Grade) (delivered : Bool) : Prop :=
  s.GradeLost key.2 ∨ ∀ held, s.grades.lookup key = some held →
    t.InHand key held ∨ (held = grade ↔ delivered = true)

theorem Shown.leave (hs : Shown s) (hc : Conserved capacity s) (hc' : Conserved capacity s')
    (hflow : Flow s s' new) {i : ℕ} {delivered : Bool}
    (hsafe : ∀ key grade, (s.callers i).InHand key grade →
      Safe s (s.setCaller i .idle) key grade delivered)
    (hforeign : ∀ r ∈ new, r.kind = gradeKind → r.connectionId ≠ daemonConnection)
    (hnew : ∀ key, new.filterMap (·.gradeFor key) = [] ∧
        (delivered = true → ∀ grade, ¬ (s.callers i).InHand key grade) ∨
      ∃ grade, (s.callers i).InHand key grade ∧ delivered = true ∧
        (new.filterMap (·.gradeFor key)).reverse.head? = some grade)
    (hcallers : s'.callers = (s.setCaller i .idle).callers) (hinflight : s'.inflight = s.inflight)
    (hgrades : s'.grades = s.grades) : Shown s' := by
  have hemptied : ∀ key grade, (s.setCaller i .idle).InHand key grade → s'.InHand key grade := by
    rintro key grade (⟨j, hj⟩ | ⟨d, hd, hin⟩)
    · exact .inl ⟨j, hcallers ▸ hj⟩
    · exact .inr ⟨d, hinflight.trans hd, hin⟩
  refine hs.next hc hc' hflow hforeign (fun j scope h hj => ?_) fun key held hheld => ?_
  · rw [hcallers] at hj
    unfold Emitter.setCaller at hj
    simp only at hj
    split at hj
    · cases hj
    · exact hs.hands j scope h hj
  rw [hgrades] at hheld
  rcases hnew key with ⟨hnone, hkeeps⟩ | ⟨grade, hin, rfl, hhead⟩
  · by_cases hin : (s.callers i).InHand key held
    · -- the grade that is held is dropped, so it is safe for another reason
      rcases hsafe key held hin with hlost | hsafe
      · exact .inl hlost
      rcases hsafe held hheld with hother | hdelivered
      · exact .inr (.inl (hemptied key held hother))
      · exact absurd hin (hkeeps (hdelivered.1 rfl) held)
    · refine .inr (.inr (.inr ⟨hnone, hheld, ?_⟩))
      rintro (⟨j, hj⟩ | ⟨d, hd, hd'⟩)
      · have hji : j ≠ i := fun heq => hin (heq ▸ hj)
        refine hemptied key held (.inl ⟨j, ?_⟩)
        unfold Emitter.setCaller
        simp only [if_neg hji]
        exact hj
      · exact .inr ⟨d, hinflight.trans hd, hd'⟩
  · rcases hsafe key grade hin with hlost | hsafe
    · exact .inl hlost
    rcases hsafe held hheld with hother | hdelivered
    · exact .inr (.inl (hemptied key held hother))
    · rw [hdelivered.2 rfl]
      exact .inr (.inr (.inl hhead))

/-- The daemon's grade reaches the chain: the queue holds none of its connection. -/
theorem Shown.graded (hs : Shown s) (hc : Conserved capacity s) (hc' : Conserved capacity s')
    {t : Emitter} (hsafe : Safe s t (daemonConnection, scope) grade true)
    (hsubmitted : s'.submitted = s.submitted) (hremaining : s'.remaining = s.remaining)
    (hchain : s'.chain = .daemonGrade scope grade :: s.chain) (hgrades : s'.grades = s.grades)
    (hhands : ∀ i scope h, s'.callers i = .holding scope (some h) →
      h.kind = gradeKind ∧ h.connectionId ≠ daemonConnection)
    (hemptied : ∀ key held, t.InHand key held → s'.InHand key held)
    (helse : ∀ key held, key ≠ (daemonConnection, scope) → s.InHand key held →
      s'.InHand key held) : Shown s' := by
  have hlost : ∀ other, s.GradeLost other → s'.GradeLost other := by
    intro other h
    have ht := hc.total other (·.kind == gradeKind)
    have ht' := hc'.total other (·.kind == gradeKind)
    rw [waiting_eq] at ht ht'
    unfold Emitter.submittedIn Emitter.onChain at ht ht'
    rw [hsubmitted, hremaining, hchain, List.map_cons, List.sum_cons] at ht'
    have happended : (Written.daemonGrade scope grade).appended other (·.kind == gradeKind) = 0 :=
      rfl
    rw [gradeLost_iff] at h ⊢
    omega
  refine ⟨hhands, fun r hr => hs.foreign r (hremaining ▸ hr), fun key held hheld => ?_⟩
  rw [hgrades] at hheld
  by_cases hkey : key = (daemonConnection, scope)
  · subst hkey
    rcases hsafe with h | hsafe
    · exact .inl (hlost _ h)
    rcases hsafe held hheld with hother | hdelivered
    · exact .inr (.inl (hemptied _ _ hother))
    · rw [hdelivered.2 rfl]
      have hnone : s'.remainingGrades (daemonConnection, scope) = [] := by
        refine List.filterMap_eq_nil_iff.2 fun r hr => if_neg fun h => ?_
        exact hs.foreign r (hremaining ▸ hr) h.1 h.2.1
      refine .inr (.inr ?_)
      unfold Emitter.gradesAhead Emitter.chainGrades
      rw [hnone, hchain, List.filterMap_cons]
      simp [Written.gradeFor]
  · have hahead : s'.gradesAhead key = s.gradesAhead key := by
      unfold Emitter.gradesAhead Emitter.remainingGrades Emitter.chainGrades
      rw [hremaining, hchain, List.filterMap_cons]
      simp [Written.gradeFor, hkey]
    rcases hs.newest key held hheld with h | h | h
    · exact .inl (hlost _ h)
    · exact .inr (.inl (helse key held hkey h))
    · exact .inr (.inr (hahead ▸ h))

/-! ## The acts -/

/-- No record of a grade is submitted past the evaluation, dropped from a hand, or overtaken by a
later evaluation while it is in one. -/
def HandedOver (s : Emitter) : Event → Prop
  | .submit _ handed => ∀ h ∈ handed, h.kind ≠ gradeKind
  | .hand i handed opens => (∀ h ∈ handed, h.kind ≠ gradeKind) ∧ ∀ key grade,
      (s.callers i).InHand key grade → Safe s (s.setCaller i .idle) key grade opens
  | .raised i => ∀ key grade, (s.callers i).InHand key grade →
      Safe s (s.setCaller i .idle) key grade false
  | .appendDaemon i accepted => ∀ key grade, (s.callers i).InHand key grade →
      Safe s (s.setCaller i .idle) key grade accepted
  | .append accepted => ∀ d key grade, s.inflight = some d → d.InHand key grade →
      Safe s { s with inflight := some { d with stage := .entry } } key grade accepted
  | _ => True

theorem Flow.setCaller (h : Flow s s' new) (i : ℕ) (c : Caller) : Flow s (s'.setCaller i c) new := by
  cases h with
  | queued _ hsubmitted hremaining hchain => exact .queued _ hsubmitted hremaining hchain
  | refused _ hsubmitted hremaining hchain => exact .refused _ hsubmitted hremaining hchain
  | written r hsubmitted hremaining hchain => exact .written r hsubmitted hremaining hchain
  | gap scope gap hsubmitted hremaining hchain => exact .gap scope gap hsubmitted hremaining hchain
  | lost losses hsubmitted hremaining hchain => exact .lost losses hsubmitted hremaining hchain

theorem Flow.same (hsubmitted : s'.submitted = s.submitted) (hremaining : s'.remaining = s.remaining)
    (hchain : s'.chain = s.chain) : Flow s s' [] :=
  .queued [] (by rw [hsubmitted, List.append_nil]) (by rw [hremaining, List.append_nil]) hchain

theorem submit_flow (s : Emitter) (capacity : ℕ) (scope : Str) (handed : List Handed) :
    Flow s (s.submit capacity scope handed).2 (numbered scope s.submitted.length handed) ∧
      (s.submit capacity scope handed).2.callers = s.callers ∧
      (s.submit capacity scope handed).2.inflight = s.inflight ∧
      (s.submit capacity scope handed).2.grades = s.grades := by
  have hrefused : ∀ records, Flow s (({ s with submitted := s.submitted ++ records } :
        Emitter).countLoss scope records) records ∧
      (({ s with submitted := s.submitted ++ records } : Emitter).countLoss scope
        records).callers = s.callers ∧
      (({ s with submitted := s.submitted ++ records } : Emitter).countLoss scope
        records).inflight = s.inflight ∧
      (({ s with submitted := s.submitted ++ records } : Emitter).countLoss scope
        records).grades = s.grades := by
    intro records
    obtain ⟨pending, heq⟩ := Emitter.countLoss_eq
      ({ s with submitted := s.submitted ++ records } : Emitter) scope records
    rw [heq]
    exact ⟨.refused _ rfl rfl rfl, rfl, rfl, rfl⟩
  unfold Emitter.submit
  simp only
  split
  · rename_i hempty
    rw [List.isEmpty_iff] at hempty
    refine ⟨.queued _ rfl ?_ rfl, rfl, rfl, rfl⟩
    rw [hempty]
    exact (List.append_nil _).symm
  split
  · exact hrefused _
  split
  · exact hrefused _
  · refine ⟨.queued _ rfl ?_ rfl, rfl, rfl, rfl⟩
    unfold Emitter.remaining
    rw [List.flatMap_append, List.append_assoc]
    simp

theorem numbered_mem {n : ℕ} {handed : List Handed} {r : Record}
    (hr : r ∈ numbered scope n handed) : r.toHanded ∈ handed := by
  induction handed generalizing n with
  | nil => cases hr
  | cons h hs ih =>
    rcases List.mem_cons.1 hr with rfl | hr
    · exact List.mem_cons_self
    · exact List.mem_cons_of_mem _ (ih hr)

theorem numbered_foreign {n : ℕ} {handed : List Handed} (h : ∀ h ∈ handed, h.kind ≠ gradeKind)
    (key : Str × Str) : (numbered scope n handed).filterMap (·.gradeFor key) = [] :=
  List.filterMap_eq_nil_iff.2 fun _ hr => if_neg fun hg => h _ (numbered_mem hr) hg.1

theorem hand_shown (hs : Shown s) (hc : Conserved capacity s) {i : ℕ} {due : Option Handed}
    (hcaller : s.callers i = .holding scope due) {handed : List Handed} {opens : Bool}
    (hok : HandedOver s (.hand i handed opens))
    (h : step capacity s (.hand i handed opens) = some s') : Shown s' := by
  have hc' := step_conserved hc h
  simp only [step, hcaller, Option.some.injEq] at h
  subst h
  cases opens with
  | false =>
    refine hs.leave hc hc' (.same rfl rfl rfl) hok.2 (by simp) (fun key => .inl ⟨rfl, (by simp)⟩) rfl rfl rfl
  | true =>
    rw [if_pos rfl] at hc' ⊢
    obtain ⟨hflow, hcallers, hinflight, hgrades⟩ :=
      submit_flow s capacity scope (due.toList ++ handed)
    have hcallers' : ((s.submit capacity scope (due.toList ++ handed)).2.setCaller i .idle).callers =
        (s.setCaller i .idle).callers := by
      unfold Emitter.setCaller
      rw [hcallers]
    refine hs.leave hc hc' (hflow.setCaller i .idle) hok.2 (fun r hr hkind => ?_) (fun key => ?_)
      hcallers' hinflight hgrades
    · rcases List.mem_append.1 (numbered_mem hr) with hdue | hrest
      · have hsome := Option.mem_toList.1 hdue
        rw [hsome] at hcaller
        exact (hs.hands i scope _ hcaller).2
      · exact absurd hkind (hok.1 _ hrest)
    · cases due with
      | none =>
        refine .inl ⟨numbered_foreign hok.1 key, fun _ grade hin => ?_⟩
        rw [hcaller] at hin
        exact hin
      | some h =>
        have hkind := (hs.hands i scope h hcaller).1
        rw [Option.toList_some, List.singleton_append, numbered, List.filterMap_cons,
          numbered_foreign hok.1 key, hcaller]
        by_cases hkey : (h.connectionId, scope) = key
        · have hfor : ({ h with number := s.submitted.length, scope } : Record).gradeFor key =
              h.grade := by
            subst hkey
            exact if_pos ⟨hkind, rfl, rfl⟩
          rw [hfor]
          cases hgrade : h.grade with
          | none => exact .inl ⟨rfl, fun _ grade hin => by rw [hin.2] at hgrade; cases hgrade⟩
          | some grade => exact .inr ⟨grade, ⟨hkey, hgrade⟩, rfl, rfl⟩
        · have hfor : ({ h with number := s.submitted.length, scope } : Record).gradeFor key =
              none := if_neg fun hg => hkey (Prod.ext hg.2.1 hg.2.2)
          rw [hfor]
          exact .inl ⟨rfl, fun _ grade hin => hkey hin.1⟩

theorem appendDaemon_shown (hs : Shown s) (hc : Conserved capacity s) {i : ℕ}
    {due : Option Grade} (hcaller : s.callers i = .reporting scope due) {accepted : Bool}
    (hok : HandedOver s (.appendDaemon i accepted))
    (h : step capacity s (.appendDaemon i accepted) = some s') : Shown s' := by
  have hc' := step_conserved hc h
  simp only [step, hcaller, Option.some.injEq] at h
  subst h
  have hdropped : accepted = false ∨ due = none → Shown (s.setCaller i .idle) := by
    intro hor
    refine hs.leave hc (hc.of_same ⟨rfl, rfl, rfl, rfl, rfl, rfl⟩) (.same rfl rfl rfl) hok (by simp)
      (fun key => .inl ⟨rfl, fun haccepted grade hin => ?_⟩) rfl rfl rfl
    rcases hor with hor | hor
    · rw [hor] at haccepted
      cases haccepted
    · rw [hcaller, hor] at hin
      exact hin
  cases due with
  | none => exact hdropped (.inr rfl)
  | some grade =>
    cases accepted with
    | false => exact hdropped (.inl rfl)
    | true =>
      have hmine : (s.callers i).InHand (daemonConnection, scope) grade := by
        rw [hcaller]
        exact ⟨rfl, rfl⟩
      refine hs.graded hc hc' (hok _ _ hmine) rfl rfl rfl rfl (fun j other h hj => ?_)
        (fun key held hin => hin) fun key held hkey hin => ?_
      · unfold Emitter.setCaller at hj
        simp only at hj
        split at hj
        · cases hj
        · exact hs.hands j other h hj
      · rcases hin with ⟨j, hj⟩ | hin
        · have hji : j ≠ i := by
            rintro rfl
            rw [hcaller] at hj
            exact hkey hj.1.symm
          refine .inl ⟨j, ?_⟩
          unfold Emitter.setCaller
          simp only [if_neg hji]
          exact hj
        · exact .inr hin

theorem take_shown (hs : Shown s) (hc : Conserved capacity s) (hidle : s.inflight = none)
    (backing : List Str) : Shown (s.take backing) := by
  obtain ⟨queue, queuedRecords, pending, flushCompleted, finalAttempt, inflight, alive, heq, -⟩ :=
    s.take_eq backing
  have hremaining : (s.take backing).remaining = s.remaining := by
    unfold Emitter.take Emitter.nextUnit Emitter.remaining
    rw [hidle]
    cases hqueue : s.queue with
    | cons first rest => rfl
    | nil =>
      simp only
      cases hv : Emitter.visit backing s s.requested with
      | mk unit t =>
        cases unit with
        | none =>
          obtain ⟨hq, -, -, hi, -, -⟩ := visit_none hv
          simp only
          split <;> simp only [hq, hqueue, hi, hidle]
        | some unit =>
          obtain ⟨hrecords, -, -, -, -, hq, -⟩ := visit_some hv
          simp [hrecords, hq, hqueue]
  have hc' := take_conserved hc hidle backing
  rw [heq] at hremaining hc' ⊢
  refine hs.still hc hc' (.same rfl hremaining rfl) nofun rfl rfl fun _ _ d hd => ?_
  rw [hidle] at hd
  cases hd

theorem gapGrade_shown (hs : Shown s) (hc : Conserved capacity s)
    {evaluated : Option (Option Grade)} (h : s.gapGrade evaluated = some s') : Shown s' := by
  have hc' : Conserved capacity s' := step_conserved hc (e := .gapGrade evaluated) h
  unfold Emitter.gapGrade at h
  cases hd : s.inflight with
  | none => rw [hd] at h; cases h
  | some d =>
    simp only [hd] at h
    split at h
    · rename_i hstage
      have hidle : ∀ key grade d', s.inflight = some d' → ¬ d'.InHand key grade := by
        intro key grade d' hd' hin
        rw [hd] at hd'
        cases hd'
        rw [Inflight.InHand, hstage] at hin
        cases hin.2
      cases evaluated with
      | none =>
        cases h
        refine hs.still hc hc' (.same rfl ?_ rfl) nofun rfl rfl fun key grade d' hd' hin =>
          absurd hin (hidle key grade d' hd')
        unfold Emitter.remaining
        rw [hd]
        rfl
      | some evaluated =>
        simp only at h
        split at h
        · cases h
        · rename_i due t hgrade
          have hheld := @recordGrade_held s t d.unit.scope
          obtain ⟨grades, rfl⟩ := Emitter.recordGrade_eq hgrade
          cases h
          refine hs.next hc hc' (.same rfl ?_ rfl) nofun hs.hands fun key grade hnow => ?_
          · unfold Emitter.remaining
            rw [hd]
            rfl
          rcases hheld hgrade hnow with hbefore | ⟨hkey, rfl⟩
          · refine .inr (.inr (.inr ⟨rfl, hbefore, ?_⟩))
            rintro (hin | ⟨d', hd', hin⟩)
            · exact .inl hin
            · exact absurd hin (hidle key grade d' hd')
          · exact .inr (.inl (.inr ⟨_, rfl, hkey, rfl⟩))
    · cases h

theorem append_shown (hs : Shown s) (hc : Conserved capacity s) {accepted : Bool}
    (hok : HandedOver s (.append accepted)) (h : s.append accepted = some s') : Shown s' := by
  have hc' : Conserved capacity s' := step_conserved hc (e := .append accepted) h
  unfold Emitter.append at h
  cases hd : s.inflight with
  | none => rw [hd] at h; cases h
  | some d =>
    simp only [hd] at h
    have hremaining : ∀ (t : Emitter) (d' : Inflight), t.queue = s.queue →
        t.inflight = some d' → d'.unit = d.unit → d'.completed = d.completed →
        t.remaining = s.remaining := by
      intro t d' hq hi hu hn
      unfold Emitter.remaining
      rw [hq, hi, hd]
      simp only [Option.map_some, Option.getD_some, hu, hn]
    -- outside of the grade's own stage the worker has none in hand
    have hempty : (∀ grade, d.stage ≠ .grade grade) → ∀ key grade d', s.inflight = some d' →
        d'.InHand key grade → ∃ d'', s'.inflight = some d'' ∧ d''.InHand key grade := by
      intro hstage key grade d' hd' hin
      rw [hd] at hd'
      cases hd'
      exact absurd hin.2 (hstage grade)
    cases hstage : d.stage with
    | gap => simp only [hstage] at h; cases h
    | failed => simp only [hstage] at h; cases h
    | grade grade =>
      simp only [hstage, Option.some.injEq] at h
      subst h
      have hmine : d.InHand (daemonConnection, d.unit.scope) grade := ⟨rfl, hstage⟩
      have hothers : ∀ key held, key ≠ (daemonConnection, d.unit.scope) ∨ held ≠ grade →
          s.InHand key held → ∃ i, (s.callers i).InHand key held := by
        rintro key held hne (hin | ⟨d', hd', hin⟩)
        · exact hin
        · rw [hd] at hd'
          cases hd'
          rw [Inflight.InHand, hstage] at hin
          rcases hne with hne | hne
          · exact absurd hin.1.symm hne
          · cases hin.2
            exact absurd rfl hne
      cases accepted with
      | true =>
        refine hs.graded hc hc' (hok d _ _ hd hmine) rfl ?_ rfl rfl hs.hands
          (fun key held hin => ?_) fun key held hkey hin => .inl (hothers key held (.inl hkey) hin)
        · exact hremaining _ { d with stage := .entry } rfl rfl rfl rfl
        · exact hin
      | false =>
        have hstill : (({ s with inflight := some { d with stage := .failed } } : Emitter)).remaining
            = s.remaining := hremaining _ { d with stage := .failed } rfl rfl rfl rfl
        refine hs.next hc hc' (.same rfl hstill rfl) nofun hs.hands fun key held hheld => ?_
        by_cases hne : key ≠ (daemonConnection, d.unit.scope) ∨ held ≠ grade
        · exact .inr (.inr (.inr ⟨rfl, hheld, fun hin => .inl (hothers key held hne hin)⟩))
        · rw [not_or, not_not, not_not] at hne
          obtain ⟨rfl, rfl⟩ := hne
          rcases hok d _ _ hd hmine with hlost | hsafe
          · exact .inl hlost
          rcases hsafe held hheld with hother | hdelivered
          · rcases hother with hin | ⟨d', hd', hin⟩
            · exact .inr (.inl (.inl hin))
            · cases hd'
              cases hin.2
          · cases hdelivered.1 rfl
    | entry =>
      have hnone := hempty fun grade hg => by rw [hstage] at hg; cases hg
      cases hgap : d.unit.gapBefore with
      | none => simp only [hstage, hgap] at h; cases h
      | some gap =>
        simp only [hstage, hgap, Option.some.injEq] at h
        subst h
        cases accepted with
        | true =>
          refine hs.still hc hc' (.gap d.unit.scope gap rfl ?_ rfl) nofun rfl rfl hnone
          exact hremaining _ { d with stage := .records, gapWritten := true } rfl rfl rfl rfl
        | false =>
          refine hs.still hc hc' (.same rfl ?_ rfl) nofun rfl rfl hnone
          exact hremaining _ { d with stage := .failed } rfl rfl rfl rfl
    | records =>
      have hnone := hempty fun grade hg => by rw [hstage] at hg; cases hg
      cases hr : d.unit.records[d.completed]? with
      | none => simp only [hstage, hr] at h; cases h
      | some r =>
        simp only [hstage, hr, Option.some.injEq] at h
        subst h
        cases accepted with
        | true =>
          refine hs.still hc hc' (.written r rfl ?_ rfl) nofun rfl rfl hnone
          obtain ⟨hlt, hget⟩ := List.getElem?_eq_some_iff.1 hr
          have hdrop := List.drop_eq_getElem_cons hlt
          rw [hget] at hdrop
          unfold Emitter.remaining
          rw [hd]
          simp only [Option.map_some, Option.getD_some, hdrop, List.cons_append, if_true,
            Emitter.appended]
        | false =>
          refine hs.still hc hc' (.same rfl ?_ rfl) nofun rfl rfl hnone
          exact hremaining _ { d with stage := .failed } rfl rfl rfl rfl

theorem finish_shown (hs : Shown s) (hc : Conserved capacity s)
    (h : step capacity s .finish = some s') : Shown s' := by
  have hc' := step_conserved hc h
  simp only [step] at h
  cases hd : s.inflight with
  | none => rw [hd] at h; cases h
  | some d =>
    simp only [hd] at h
    have hfinished : ∀ failed, (∀ grade, d.stage ≠ .grade grade) →
        Conserved capacity (s.finish d failed) → Shown (s.finish d failed) := by
      intro failed hstage hc'
      obtain ⟨pending, delivering, heq⟩ := s.finish_eq d failed
      rw [heq] at hc' ⊢
      refine hs.still hc hc' (.lost (d.unit.records.drop d.completed) rfl ?_ rfl) (by simp) rfl rfl
        fun key grade d' hd' hin => ?_
      · unfold Emitter.remaining
        rw [hd]
        rfl
      · rw [hd] at hd'
        cases hd'
        exact absurd hin.2 (hstage grade)
    split at h
    · rename_i hstage
      cases h
      exact hfinished true (fun grade hg => by rw [hstage] at hg; cases hg) hc'
    · rename_i hstage
      split at h
      · cases h
        exact hfinished false (fun grade hg => by rw [hstage] at hg; cases hg) hc'
      · cases h
    · cases h

/-- **A held grade is shown**, whatever act comes next, where no record of a grade is dropped from
a hand or overtaken in one. -/
theorem step_shown (hs : Shown s) (hc : Conserved capacity s) {e : Event} (hok : HandedOver s e)
    (h : step capacity s e = some s') : Shown s' := by
  have hc' := step_conserved hc h
  cases e with
  | submit scope handed =>
    cases h
    obtain ⟨hflow, hcallers, hinflight, hgrades⟩ := submit_flow s capacity scope handed
    refine hs.still hc hc' hflow (fun r hr => hok _ (numbered_mem hr)) hcallers hgrades
      fun key grade d hd hin => ⟨d, hinflight.trans hd, hin⟩
  | evaluate i scope connectionId at_ evaluated =>
    simp only [step] at h
    split at h
    · rename_i hidle
      split at h
      · cases h
      · rename_i hforeign
        obtain ⟨⟨due, t⟩, ht, rfl⟩ := Option.map_eq_some_iff.1 h
        have hheld := fun key grade => @recordGrade_held s t scope key grade connectionId _ _ ht
        obtain ⟨grades, rfl⟩ := Emitter.recordGrade_eq ht
        refine hs.moved hc ⟨rfl, rfl, rfl, rfl, rfl, rfl⟩ (fun _ _ hin => ?_) rfl
          (fun other h hc => ?_) fun key grade hnow => ?_
        · rw [hidle] at hin
          exact hin
        · cases due with
          | none => cases hc
          | some due =>
            cases hc
            exact ⟨rfl, hforeign⟩
        · rcases hheld key grade hnow with hbefore | ⟨hkey, rfl⟩
          · exact .inl hbefore
          · exact .inr ⟨hkey, rfl⟩
    · cases h
  | hand i handed opens =>
    cases hcaller : s.callers i with
    | holding scope due => exact hand_shown hs hc hcaller hok h
    | _ => simp only [step, hcaller] at h; cases h
  | raised i =>
    simp only [step] at h
    split at h
    · cases h
      exact hs.leave hc hc' (.same rfl rfl rfl) hok (by simp) (fun key => .inl ⟨rfl, (by simp)⟩) rfl rfl rfl
    · cases h
  | evaluateDaemon i scope evaluated =>
    simp only [step] at h
    split at h
    · rename_i hidle
      obtain ⟨⟨due, t⟩, ht, rfl⟩ := Option.map_eq_some_iff.1 h
      have hheld := fun key grade => @recordGrade_held s t scope key grade daemonConnection _ _ ht
      obtain ⟨grades, rfl⟩ := Emitter.recordGrade_eq ht
      refine hs.moved hc ⟨rfl, rfl, rfl, rfl, rfl, rfl⟩ (fun _ _ hin => ?_) rfl (by simp)
        fun key grade hnow => ?_
      · rw [hidle] at hin
        exact hin
      · rcases hheld key grade hnow with hbefore | ⟨hkey, rfl⟩
        · exact .inl hbefore
        · exact .inr ⟨hkey, rfl⟩
    · cases h
  | appendDaemon i accepted =>
    cases hcaller : s.callers i with
    | reporting scope due => exact appendDaemon_shown hs hc hcaller hok h
    | _ => simp only [step, hcaller] at h; cases h
  | take backing =>
    simp only [step] at h
    split at h
    · rename_i hidle
      rw [Bool.and_eq_true, Option.isNone_iff_eq_none] at hidle
      cases h
      exact take_shown hs hc hidle.2 backing
    · cases h
  | gapGrade evaluated => exact gapGrade_shown hs hc h
  | append accepted => exact append_shown hs hc hok h
  | finish => exact finish_shown hs hc h
  | flush i scope =>
    simp only [step] at h
    split at h
    · rename_i hidle
      split at h
      · cases h
      · cases h
        exact hs.moved hc ⟨rfl, rfl, rfl, rfl, rfl, rfl⟩ (by rw [hidle]; exact fun _ _ h => h) rfl
          (by simp) fun _ _ h => .inl h
    · cases h
  | answer i =>
    simp only [step, Emitter.answer] at h
    split at h
    · rename_i rest hcaller
      have hidle : ∀ key grade, ¬ (s.callers i).InHand key grade := by
        rw [hcaller]
        exact fun _ _ h => h
      cases rest with
      | none =>
        cases h
        exact hs.moved hc ⟨rfl, rfl, rfl, rfl, rfl, rfl⟩ hidle rfl (by simp) fun _ _ h => .inl h
      | some scopes =>
        cases h
        refine hs.moved hc ⟨rfl, rfl, rfl, rfl, rfl, rfl⟩ hidle rfl (fun _ _ => ?_)
          fun _ _ h => .inl h
        split <;> simp
    · cases h
  | close i =>
    simp only [step] at h
    split at h
    · rename_i hidle
      cases h
      exact hs.moved hc ⟨rfl, rfl, rfl, rfl, rfl, rfl⟩ (by rw [hidle]; exact fun _ _ h => h) rfl
        (by simp) fun _ _ h => .inl h
    · cases h
  | drain i =>
    simp only [step] at h
    split at h
    · rename_i hcaller
      cases h
      exact hs.moved hc ⟨rfl, rfl, rfl, rfl, rfl, rfl⟩ (by rw [hcaller]; exact fun _ _ h => h) rfl
        (by simp) fun _ _ h => .inl h
    · rename_i hcaller
      cases h
      exact hs.moved hc ⟨rfl, rfl, rfl, rfl, rfl, rfl⟩ (by rw [hcaller]; exact fun _ _ h => h) rfl
        (by simp) fun _ _ h => .inl h
    · cases h
  | setClosing i =>
    simp only [step] at h
    split at h
    · rename_i hcaller
      cases h
      exact hs.moved hc ⟨rfl, rfl, rfl, rfl, rfl, rfl⟩ (by rw [hcaller]; exact fun _ _ h => h) rfl
        (by simp) fun _ _ h => .inl h
    · cases h
  | join i =>
    simp only [step, Emitter.join] at h
    split at h
    · rename_i hcaller
      cases h
      exact hs.moved hc ⟨rfl, rfl, rfl, rfl, rfl, rfl⟩ (by rw [hcaller]; exact fun _ _ h => h) rfl
        (by simp) fun _ _ h => .inl h
    · cases h

/-! ## Runs -/

/-- The transition is on record, or will be: the grade is the last on the chain, or its record is
on the way there, or a gap of the scope counts a grade record. -/
def Accounted (s : Emitter) (key : Str × Str) (grade : Grade) : Prop :=
  (s.chainGrades key).head? = some grade ∨
    (grade ∈ s.remainingGrades key ∨ s.InHand key grade) ∨ s.GradeLost key.2

theorem Shown.accounted (hs : Shown s) (hheld : s.grades.lookup key = some grade) :
    Accounted s key grade := by
  rcases hs.newest key grade hheld with h | h | h
  · exact .inr (.inr h)
  · exact .inr (.inl (.inr h))
  · unfold Emitter.gradesAhead at h
    cases hremaining : (s.remainingGrades key).reverse with
    | nil =>
      rw [hremaining, List.nil_append] at h
      exact .inl h
    | cons first rest =>
      rw [hremaining, List.cons_append, List.head?_cons, Option.some.injEq] at h
      have hmem : first ∈ (s.remainingGrades key).reverse := hremaining ▸ List.mem_cons_self
      exact .inr (.inl (.inl (h ▸ List.mem_reverse.1 hmem)))

theorem initial_shown : Shown .initial where
  hands := nofun
  foreign := nofun
  newest key grade h := by cases h

/-- **No grade transition is lost** in a run whose grade records are neither dropped from a hand
nor overtaken in one: in every state reached, each grade held as recorded is the last one on the
chain, on its way there, or counted in a gap of its scope. -/
theorem grade_kept {es : List Event} (h : run (step capacity) .initial es = some s)
    (hmeets : Meets (step capacity) HandedOver .initial es) :
    ∀ key grade, s.grades.lookup key = some grade → Accounted s key grade := by
  have hrun := @Meets.preserves _ _ (step capacity) (fun s => Conserved capacity s ∧ Shown s)
    HandedOver
  have hinv := hrun (fun s e s' hP hok h => ⟨step_conserved hP.1 h, step_shown hP.2 hP.1 hok h⟩)
    hmeets ⟨initial_conserved capacity, initial_shown⟩ h
  exact fun key grade hheld => hinv.2.accounted hheld

/-- The first effect of a connection, under its first grade. -/
def firstGradeEvents : List Event :=
  [.evaluate 0 (lit "local") (lit "connection:1") 0 (some .unverified),
    .hand 0 [sampleHanded] true, .take []]

theorem firstGrade_meets : Meets (step 2) HandedOver .initial firstGradeEvents := by
  refine ⟨trivial, fun s hs => ⟨⟨by decide, fun key grade hin => ?_⟩, fun t _ => ⟨trivial, fun _ _ => trivial⟩⟩⟩
  cases hs
  obtain ⟨rfl, hgrade⟩ := hin
  cases hgrade
  refine .inr fun held hheld => .inr (iff_of_true ?_ rfl)
  cases hheld
  rfl

theorem grade_kept_first : ∃ s, run (step 2) .initial firstGradeEvents = some s ∧
    s.grades.lookup (lit "connection:1", lit "local") = some .unverified ∧
    Accounted s (lit "connection:1", lit "local") .unverified := by
  have hrun : ((run (step 2) .initial firstGradeEvents).map fun s =>
      s.grades.lookup (lit "connection:1", lit "local")) = some (some .unverified) := by
    decide +kernel
  obtain ⟨s, hs, hheld⟩ := Option.map_eq_some_iff.1 hrun
  exact ⟨s, hs, hheld, grade_kept hs firstGrade_meets _ _ hheld⟩

/-- A gap is written before the next record, and the store refuses the daemon's grade. -/
def refusedGradeEvents : List Event :=
  [.submit (lit "local") [sampleHanded], .submit (lit "local") [sampleHanded], .take [],
    .append true, .finish, .submit (lit "local") [sampleHanded], .take [],
    .gapGrade (some (some .unverified)), .append false, .finish]

theorem grade_dropped : ∃ s key grade, run (step 1) .initial refusedGradeEvents = some s ∧
    s.grades.lookup key = some grade ∧ ¬ Accounted s key grade := by
  have hrun : ((run (step 1) .initial refusedGradeEvents).map fun s =>
      (s.grades.lookup (daemonConnection, lit "local"),
        s.chainGrades (daemonConnection, lit "local"),
        s.remainingGrades (daemonConnection, lit "local"),
        s.pendingKinds (lit "local") gradeKind + s.writtenKinds (lit "local") gradeKind,
        s.inflight.isNone)) = some (some .unverified, [], [], 0, true) := by decide +kernel
  have hcallers : ((run (step 1) .initial refusedGradeEvents).map fun s => s.callers) =
      some fun _ => .idle := rfl
  obtain ⟨s, hs, heq⟩ := Option.map_eq_some_iff.1 hrun
  rw [hs, Option.map_some, Option.some.injEq] at hcallers
  simp only [Prod.mk.injEq, Option.isNone_iff_eq_none] at heq
  obtain ⟨hheld, hchain, hremaining, hlost, hidle⟩ := heq
  refine ⟨s, _, _, hs, hheld, ?_⟩
  rintro (h | (h | ⟨i, h⟩ | ⟨d, h, -⟩) | h)
  · rw [hchain] at h
    cases h
  · rw [hremaining] at h
    cases h
  · rw [hcallers] at h
    exact h
  · rw [hidle] at h
    cases h
  · exact absurd h (by rw [Emitter.GradeLost, hlost]; decide)
end SayFirst.Plane.Emission
