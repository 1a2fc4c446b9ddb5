import SayFirst.Spec.Emitter
import Mathlib.Algebra.Order.BigOperators.Group.List

/-!
# Conservation of evidence

A record leaves the queue through the store, through a full queue, through a
failed append or, once counted, through a gap written later. `Books` counts a
kind of record in every place it can be in.

* `step_conserved`, `reaches_conserved` — the books balance, act by act.
* `evidence_conserved` — what was submitted is on the chain, waiting, or counted
  in one gap.
-/

namespace SayFirst.Plane.Emission

open Py

variable {capacity : ℕ} {s s' : Emitter} {scope : Str} {p : Record → Bool}

/-! ## The places a record can be in -/

/-- How many of the records are in the unit, in this scope. -/
def EmissionUnit.waiting (scope : Str) (p : Record → Bool) (u : EmissionUnit) : ℕ :=
  if u.scope = scope then u.records.countP p else 0

/-- How many of the losses the unit carries in its gap. -/
def EmissionUnit.carried (scope : Str) (p : Record → Bool) (u : EmissionUnit) : ℕ :=
  if u.scope = scope then (u.gapBefore.map (·.losses.countP p)).getD 0 else 0

namespace Inflight

/-- The records that are not appended yet. -/
def waiting (scope : Str) (p : Record → Bool) (d : Inflight) : ℕ :=
  if d.unit.scope = scope then (d.unit.records.drop d.completed).countP p else 0

/-- The losses of a gap that is not written yet. -/
def carried (scope : Str) (p : Record → Bool) (d : Inflight) : ℕ :=
  if d.gapWritten then 0 else d.unit.carried scope p

end Inflight

namespace Written

def appended (scope : Str) (p : Record → Bool) : Written → ℕ
  | .record r => if r.scope = scope then [r].countP p else 0
  | _ => 0

def counted (scope : Str) (p : Record → Bool) : Written → ℕ
  | .gap other g => if other = scope then g.losses.countP p else 0
  | _ => 0

end Written

namespace Emitter

variable (s : Emitter) (scope : Str) (p : Record → Bool)

def submittedIn : ℕ := s.submitted.countP fun r => r.scope == scope && p r

def onChain : ℕ := (s.chain.map (·.appended scope p)).sum

def waiting : ℕ :=
  (s.queue.map (·.waiting scope p)).sum + (s.inflight.map (·.waiting scope p)).getD 0

def pendingIn : ℕ := ((s.pending.lookup scope).map (·.losses.countP p)).getD 0

def carried : ℕ :=
  (s.queue.map (·.carried scope p)).sum + (s.inflight.map (·.carried scope p)).getD 0

def writtenIn : ℕ := (s.chain.map (·.counted scope p)).sum

/-- What is counted in a gap, pending, carried or written. -/
def lost : ℕ := s.pendingIn scope p + s.carried scope p + s.writtenIn scope p

end Emitter

/-- The worker's own bookkeeping about the unit it holds. -/
structure Inflight.Held (d : Inflight) : Prop where
  completed : d.completed ≤ d.unit.records.length
  unwritten : d.stage = .gap ∨ d.stage = .entry ∨ (∃ grade, d.stage = .grade grade) →
    d.gapWritten = false ∧ d.unit.gapBefore ≠ none
  written : d.stage = .records → d.gapWritten = true ∨ d.unit.gapBefore = none
  failed : d.stage = .failed →
    (d.gapWritten = false ∧ d.unit.gapBefore ≠ none) ∨ d.completed < d.unit.records.length

/-- The books of an emitter balance. -/
structure Conserved (capacity : ℕ) (s : Emitter) : Prop where
  total : ∀ scope p, s.submittedIn scope p = s.onChain scope p + s.waiting scope p + s.lost scope p
  queued : s.queuedRecords = (s.queue.map (·.records.length)).sum
  bounded : s.queuedRecords ≤ capacity
  held : ∀ d, s.inflight = some d → d.Held
  numbers : s.submitted.map (·.number) = List.range s.submitted.length

theorem initial_conserved (capacity : ℕ) : Conserved capacity .initial where
  total _ _ := rfl
  queued := rfl
  bounded := Nat.zero_le _
  held _ h := by cases h
  numbers := rfl

/-- What the books are kept in. -/
structure SameBooks (s s' : Emitter) : Prop where
  queue : s'.queue = s.queue
  queuedRecords : s'.queuedRecords = s.queuedRecords
  pending : s'.pending = s.pending
  inflight : s'.inflight = s.inflight
  chain : s'.chain = s.chain
  submitted : s'.submitted = s.submitted

theorem SameBooks.rfl' (s : Emitter) : SameBooks s s := ⟨rfl, rfl, rfl, rfl, rfl, rfl⟩

theorem Conserved.of_same (h : Conserved capacity s) (hs : SameBooks s s') :
    Conserved capacity s' := by
  obtain ⟨h1, h2, h3, h4, h5, h6⟩ := hs
  constructor
  · intro scope p
    have := h.total scope p
    simp only [Emitter.submittedIn, Emitter.onChain, Emitter.waiting, Emitter.lost,
      Emitter.pendingIn, Emitter.carried, Emitter.writtenIn, h1, h3, h4, h5, h6] at this ⊢
    exact this
  · rw [h2, h1]
    exact h.queued
  · rw [h2]
    exact h.bounded
  · rw [h4]
    exact h.held
  · rw [h6]
    exact h.numbers

/-! ## Losses -/

theorem countP_scope {records : List Record} (h : ∀ r ∈ records, r.scope = scope) (other : Str) :
    (records.countP fun r => r.scope == other && p r) =
      if scope = other then records.countP p else 0 := by
  by_cases hs : scope = other
  · subst hs
    rw [if_pos rfl]
    exact List.countP_congr fun r hr => by simp [h r hr]
  · rw [if_neg hs, List.countP_eq_zero]
    intro r hr
    simp [h r hr, hs]

namespace Emitter

@[simp] theorem countLoss_queue (losses : List Record) :
    (s.countLoss scope losses).queue = s.queue := by cases losses <;> rfl

@[simp] theorem countLoss_queuedRecords (losses : List Record) :
    (s.countLoss scope losses).queuedRecords = s.queuedRecords := by cases losses <;> rfl

@[simp] theorem countLoss_inflight (losses : List Record) :
    (s.countLoss scope losses).inflight = s.inflight := by cases losses <;> rfl

@[simp] theorem countLoss_chain (losses : List Record) :
    (s.countLoss scope losses).chain = s.chain := by cases losses <;> rfl

@[simp] theorem countLoss_submitted (losses : List Record) :
    (s.countLoss scope losses).submitted = s.submitted := by cases losses <;> rfl

/-- `_count_loss` counts its records, in their scope. -/
theorem countLoss_pendingIn (losses : List Record) (other : Str) :
    (s.countLoss scope losses).pendingIn other p =
      s.pendingIn other p + if scope = other then losses.countP p else 0 := by
  cases losses with
  | nil => simp [countLoss]
  | cons first rest =>
    unfold pendingIn countLoss
    by_cases hs : scope = other
    · subst hs
      rw [AList.lookup_insert, if_pos rfl]
      cases s.pending.lookup scope with
      | none => simp [PendingGap.ofLosses]
      | some gap => simp [PendingGap.including]
    · rw [AList.lookup_insert_ne (Ne.symm hs), if_neg hs, Nat.add_zero]

/-- `_restore_gap` counts what the gap counts, beside what was lost since. -/
theorem restoreGap_pendingIn (gap : PendingGap) (other : Str) :
    (s.restoreGap scope gap).pendingIn other p =
      s.pendingIn other p + if scope = other then gap.losses.countP p else 0 := by
  unfold pendingIn restoreGap
  by_cases hs : scope = other
  · subst hs
    rw [AList.lookup_insert, if_pos rfl]
    cases s.pending.lookup scope with
    | none => simp
    | some present => simp [PendingGap.merge, Nat.add_comm]
  · rw [AList.lookup_insert_ne (Ne.symm hs), if_neg hs, Nat.add_zero]

theorem erase_pendingIn (other : Str) :
    ({ s with pending := s.pending.erase scope } : Emitter).pendingIn other p =
      if scope = other then 0 else s.pendingIn other p := by
  unfold pendingIn
  by_cases hs : scope = other
  · subst hs
    rw [AList.lookup_erase, if_pos rfl]
    rfl
  · rw [AList.lookup_erase_ne (Ne.symm hs), if_neg hs]

end Emitter

/-! ## Submissions -/

theorem numbered_numbers : ∀ {n : ℕ} {handed : List Handed},
    (numbered scope n handed).map (·.number) = List.range' n handed.length := by
  intro n handed
  induction handed generalizing n with
  | nil => rfl
  | cons h hs ih => rw [numbered, List.map_cons, ih, List.length_cons, List.range'_succ]

theorem numbered_length : ∀ {n : ℕ} {handed : List Handed},
    (numbered scope n handed).length = handed.length := by
  intro n handed
  induction handed generalizing n with
  | nil => rfl
  | cons h hs ih => rw [numbered, List.length_cons, ih, List.length_cons]

theorem submit_conserved (h : Conserved capacity s) (scope : Str) (handed : List Handed) :
    Conserved capacity (s.submit capacity scope handed).2 := by
  have hnumbers : (s.submitted ++ numbered scope s.submitted.length handed).map (·.number) =
      List.range (s.submitted ++ numbered scope s.submitted.length handed).length := by
    rw [List.map_append, h.numbers, numbered_numbers, List.length_append, numbered_length,
      List.range_add, List.range'_eq_map_range]
  have hsubmitted : ∀ other p, (s.submitted ++ numbered scope s.submitted.length handed).countP
      (fun r => r.scope == other && p r) = s.submittedIn other p +
        if scope = other then (numbered scope s.submitted.length handed).countP p else 0 := by
    intro other p
    rw [List.countP_append, countP_scope numbered_scope]
    rfl
  generalize hrecords : numbered scope s.submitted.length handed = records at *
  have hscope : ∀ r ∈ records, r.scope = scope := by
    rw [← hrecords]
    exact numbered_scope
  -- a submission that is refused is counted in the pending gap of its scope
  have hrefused : Conserved capacity
      (({ s with submitted := s.submitted ++ records } : Emitter).countLoss scope records) := by
    constructor
    · intro other p
      have htotal := h.total other p
      have hlost := @Emitter.countLoss_pendingIn
        ({ s with submitted := s.submitted ++ records } : Emitter) scope p records other
      simp only [Emitter.submittedIn, Emitter.onChain, Emitter.waiting, Emitter.lost,
        Emitter.carried, Emitter.writtenIn, Emitter.countLoss_queue, Emitter.countLoss_chain,
        Emitter.countLoss_inflight, Emitter.countLoss_submitted, hlost, hsubmitted] at htotal ⊢
      simp only [Emitter.pendingIn] at htotal ⊢
      omega
    · rw [Emitter.countLoss_queue, Emitter.countLoss_queuedRecords]
      exact h.queued
    · rw [Emitter.countLoss_queuedRecords]
      exact h.bounded
    · rw [Emitter.countLoss_inflight]
      exact h.held
    · rw [Emitter.countLoss_submitted]
      exact hnumbers
  unfold Emitter.submit
  simp only [hrecords]
  split
  · rename_i hempty
    rw [List.isEmpty_iff] at hempty
    subst hempty
    rw [List.append_nil]
    exact h
  split
  · exact hrefused
  split
  · exact hrefused
  rename_i hroom
  rw [not_or, Nat.not_lt, Nat.not_lt] at hroom
  constructor
  · intro other p
    have htotal := h.total other p
    have herase := @Emitter.erase_pendingIn s scope p other
    simp only [Emitter.submittedIn, Emitter.onChain, Emitter.waiting, Emitter.lost,
      Emitter.carried, Emitter.writtenIn, hsubmitted, List.map_append, List.sum_append,
      List.map_cons, List.map_nil, List.sum_cons, List.sum_nil, EmissionUnit.waiting,
      EmissionUnit.carried] at htotal ⊢
    simp only [Emitter.pendingIn] at htotal herase ⊢
    rw [herase]
    by_cases hs : scope = other
    · subst hs
      simp only [if_true] at htotal ⊢
      omega
    · simp only [if_neg hs] at htotal ⊢
      omega
  · simp only [List.map_append, List.sum_append, List.map_cons, List.map_nil, List.sum_cons,
      List.sum_nil, Nat.add_zero, h.queued]
  · exact hroom.2
  · exact h.held
  · exact hnumbers

/-! ## The worker -/

/-- Nothing but `pending`, flushes and last attempts is touched where no unit is taken. -/
theorem visit_none {backing : List Str} : ∀ {scopes : List Str} {s s' : Emitter},
    Emitter.visit backing s scopes = (none, s') → SameBooks s s' := by
  intro scopes
  induction scopes with
  | nil =>
    intro s s' h
    cases h
    exact .rfl' s
  | cons scope rest ih =>
    intro s s' h
    unfold Emitter.visit at h
    cases hlookup : s.pending.lookup scope with
    | none =>
      rw [hlookup] at h
      obtain ⟨h1, h2, h3, h4, h5, h6⟩ := ih h
      exact ⟨h1, h2, h3, h4, h5, h6⟩
    | some gap =>
      simp only [hlookup] at h
      split at h
      · split at h
        · exact ih h
        · cases h
      · split at h
        · exact ih h
        · cases h

/-- A unit taken where nothing is queued is a pending gap, with no record. -/
theorem visit_some {backing : List Str} {unit : EmissionUnit} :
    ∀ {scopes : List Str} {s s' : Emitter}, Emitter.visit backing s scopes = (some unit, s') →
      unit.records = [] ∧ ∃ gap, unit.gapBefore = some gap ∧
        s.pending.lookup unit.scope = some gap ∧
        s'.pending = s.pending.erase unit.scope ∧ s'.queue = s.queue ∧
        s'.queuedRecords = s.queuedRecords ∧ s'.inflight = s.inflight ∧ s'.chain = s.chain ∧
        s'.submitted = s.submitted := by
  intro scopes
  induction scopes with
  | nil => intro s s' h; cases h
  | cons scope rest ih =>
    intro s s' h
    unfold Emitter.visit at h
    cases hlookup : s.pending.lookup scope with
    | none =>
      rw [hlookup] at h
      -- completing a flush touches nothing of what is said here
      exact @ih (s.completeFlush scope) s' h
    | some gap =>
      simp only [hlookup] at h
      split at h
      · split at h
        · exact ih h
        · cases h
          exact ⟨rfl, gap, rfl, hlookup, rfl, rfl, rfl, rfl, rfl, rfl⟩
      · split at h
        · exact ih h
        · cases h
          exact ⟨rfl, gap, rfl, hlookup, rfl, rfl, rfl, rfl, rfl, rfl⟩

/-- A unit that was just taken. -/
def Inflight.start (unit : EmissionUnit) : Inflight :=
  ⟨unit, if unit.gapBefore.isSome then .gap else .records, 0, false⟩

theorem start_held (unit : EmissionUnit) : (Inflight.start unit).Held where
  completed := Nat.zero_le _
  unwritten h := by
    unfold Inflight.start at h ⊢
    cases hgap : unit.gapBefore with
    | none => rw [hgap] at h; rcases h with h | h | ⟨_, h⟩ <;> cases h
    | some gap => exact ⟨rfl, nofun⟩
  written h := by
    unfold Inflight.start at h ⊢
    cases hgap : unit.gapBefore with
    | none => exact .inr rfl
    | some gap => rw [hgap] at h; cases h
  failed h := by
    unfold Inflight.start at h
    cases hgap : unit.gapBefore <;> rw [hgap] at h <;> cases h

theorem start_waiting (unit : EmissionUnit) :
    (Inflight.start unit).waiting scope p = unit.waiting scope p := rfl

theorem start_carried (unit : EmissionUnit) :
    (Inflight.start unit).carried scope p = unit.carried scope p := rfl

theorem take_conserved (h : Conserved capacity s) (hidle : s.inflight = none)
    (backing : List Str) : Conserved capacity (s.take backing) := by
  unfold Emitter.take
  cases hnext : s.nextUnit backing with
  | mk unit s' =>
    unfold Emitter.nextUnit at hnext
    cases hqueue : s.queue with
    | nil =>
      rw [hqueue] at hnext
      cases unit with
      | none =>
        have hsame := visit_none hnext
        have h' := h.of_same hsame
        simp only
        split
        · exact h'.of_same ⟨rfl, rfl, rfl, rfl, rfl, rfl⟩
        · exact h'
      | some unit =>
        obtain ⟨hrecords, gap, hgap, hlookup, hpending, hq, hn, -, hchain, hsubmitted⟩ :=
          visit_some hnext
        constructor
        · intro other p
          have htotal := h.total other p
          have herase := @Emitter.erase_pendingIn s unit.scope p other
          change Emitter.submittedIn s' other p = Emitter.onChain s' other p +
            ((s'.queue.map (·.waiting other p)).sum + unit.waiting other p) +
            (Emitter.pendingIn s' other p +
              ((s'.queue.map (·.carried other p)).sum + unit.carried other p) +
              Emitter.writtenIn s' other p)
          simp only [Emitter.submittedIn, Emitter.onChain, Emitter.waiting, Emitter.lost,
            Emitter.carried, Emitter.writtenIn, hidle, hqueue, Option.map_none, Option.getD_none,
            List.map_nil, List.sum_nil, Nat.add_zero] at htotal
          simp only [Emitter.submittedIn, Emitter.onChain, Emitter.writtenIn, Emitter.pendingIn,
            hpending, hq, hchain, hsubmitted, hqueue, List.map_nil, List.sum_nil, Nat.zero_add,
            EmissionUnit.waiting, EmissionUnit.carried, hrecords, hgap, Option.map_some,
            Option.getD_some, List.countP_nil, ite_self] at htotal herase ⊢
          rw [herase]
          by_cases hs : unit.scope = other
          · subst hs
            simp only [hlookup, Option.map_some, Option.getD_some, if_true] at htotal ⊢
            omega
          · simp only [if_neg hs] at htotal ⊢
            omega
        · rw [show (_ : Emitter).queue = s'.queue from rfl, hq]
          exact hn.trans h.queued
        · exact hn ▸ h.bounded
        · intro d hd
          cases hd
          exact start_held unit
        · change s'.submitted.map (·.number) = List.range s'.submitted.length
          rw [hsubmitted]
          exact h.numbers
    | cons first rest =>
      rw [hqueue] at hnext
      cases hnext
      have hsum := h.queued
      rw [hqueue, List.map_cons, List.sum_cons] at hsum
      constructor
      · intro other p
        have htotal := h.total other p
        change Emitter.submittedIn s other p = Emitter.onChain s other p +
          ((rest.map (·.waiting other p)).sum + first.waiting other p) +
          (Emitter.pendingIn s other p +
            ((rest.map (·.carried other p)).sum + first.carried other p) +
            Emitter.writtenIn s other p)
        simp only [Emitter.waiting, Emitter.lost, Emitter.carried, hidle, hqueue, Option.map_none,
          Option.getD_none, Nat.add_zero, List.map_cons, List.sum_cons] at htotal
        omega
      · change s.queuedRecords - first.records.length = (rest.map (·.records.length)).sum
        omega
      · exact Nat.le_trans (Nat.sub_le ..) h.bounded
      · intro d hd
        cases hd
        exact start_held first
      · exact h.numbers

theorem append_conserved (h : Conserved capacity s) {accepted : Bool}
    (hs : s.append accepted = some s') : Conserved capacity s' := by
  unfold Emitter.append at hs
  cases hd : s.inflight with
  | none => rw [hd] at hs; cases hs
  | some d =>
    have held := h.held d hd
    have htotal := fun other p => h.total other p
    simp only [Emitter.submittedIn, Emitter.onChain, Emitter.waiting, Emitter.lost,
      Emitter.carried, Emitter.writtenIn, Emitter.pendingIn, hd, Option.map_some,
      Option.getD_some] at htotal
    simp only [hd] at hs
    -- a refusal moves nothing: the losses are counted in the last section
    have hrefused (hloss : (d.gapWritten = false ∧ d.unit.gapBefore ≠ none) ∨
        d.completed < d.unit.records.length) :
        Conserved capacity { s with inflight := some { d with stage := .failed } } := by
      constructor
      · exact htotal
      · exact h.queued
      · exact h.bounded
      · intro d' hd'
        cases hd'
        refine ⟨held.completed, fun hstage => ?_, fun hstage => (by cases hstage), fun _ => hloss⟩
        rcases hstage with hstage | hstage | ⟨_, hstage⟩ <;> cases hstage
      · exact h.numbers
    cases hstage : d.stage with
    | gap => simp only [hstage] at hs; cases hs
    | failed => simp only [hstage] at hs; cases hs
    | grade grade =>
      simp only [hstage, Option.some.injEq] at hs
      subst hs
      split
      · constructor
        · intro other p
          have := htotal other p
          simp only [Emitter.appended, Emitter.submittedIn, Emitter.onChain, Emitter.waiting,
            Emitter.lost, Emitter.carried, Emitter.writtenIn, Emitter.pendingIn, List.map_cons,
            List.sum_cons, Written.appended, Written.counted, Option.map_some, Option.getD_some,
            Nat.zero_add]
          exact this
        · exact h.queued
        · exact h.bounded
        · intro d' hd'
          cases hd'
          exact ⟨held.completed, fun _ => held.unwritten (.inr (.inr ⟨grade, hstage⟩)),
            fun hstage => (by cases hstage), fun hstage => (by cases hstage)⟩
        · exact h.numbers
      · exact hrefused (.inl (held.unwritten (.inr (.inr ⟨grade, hstage⟩))))
    | entry =>
      have hunwritten := held.unwritten (.inr (.inl hstage))
      cases hgap : d.unit.gapBefore with
      | none => simp only [hstage, hgap] at hs; cases hs
      | some gap =>
        simp only [hstage, hgap, Option.some.injEq] at hs
        subst hs
        split
        · constructor
          · intro other p
            have := htotal other p
            simp only [Emitter.appended, Emitter.submittedIn, Emitter.onChain, Emitter.waiting,
              Emitter.lost, Emitter.carried, Emitter.writtenIn, Emitter.pendingIn, List.map_cons,
              List.sum_cons, Written.appended, Written.counted, Option.map_some, Option.getD_some,
              Nat.zero_add, Inflight.carried, Inflight.waiting, hunwritten.1, EmissionUnit.carried,
              hgap, if_true, Bool.false_eq_true, if_false] at this ⊢
            omega
          · exact h.queued
          · exact h.bounded
          · intro d' hd'
            cases hd'
            refine ⟨held.completed, fun hstage => ?_, fun _ => .inl rfl,
              fun hstage => (by cases hstage)⟩
            rcases hstage with hstage | hstage | ⟨_, hstage⟩ <;> cases hstage
          · exact h.numbers
        · exact hrefused (.inl hunwritten)
    | records =>
      cases hr : d.unit.records[d.completed]? with
      | none => simp only [hstage, hr] at hs; cases hs
      | some r =>
        simp only [hstage, hr, Option.some.injEq] at hs
        subst hs
        obtain ⟨hlt, hget⟩ := List.getElem?_eq_some_iff.1 hr
        have hdrop := List.drop_eq_getElem_cons hlt
        rw [hget] at hdrop
        have hscope : r.scope = d.unit.scope := d.unit.held r (List.mem_of_getElem? hr)
        split
        · constructor
          · intro other p
            have := htotal other p
            simp only [Emitter.appended, Emitter.submittedIn, Emitter.onChain, Emitter.waiting,
              Emitter.lost, Emitter.carried, Emitter.writtenIn, Emitter.pendingIn, List.map_cons,
              List.sum_cons, Written.appended, Written.counted, Option.map_some, Option.getD_some,
              Nat.zero_add, Inflight.waiting, Inflight.carried, hdrop, hscope] at this ⊢
            by_cases hs : d.unit.scope = other
            · simp only [if_pos hs, List.countP_cons, List.countP_nil] at this ⊢
              omega
            · simp only [if_neg hs] at this ⊢
              omega
          · exact h.queued
          · exact h.bounded
          · intro d' hd'
            cases hd'
            refine ⟨hlt, fun hstage' => ?_, fun _ => held.written hstage,
              fun hstage' => (by cases hstage')⟩
            rcases hstage' with hstage' | hstage' | ⟨_, hstage'⟩ <;> cases hstage'
          · exact h.numbers
        · exact hrefused (.inr hlt)

/-- A failed delivery is over: the gap that was not written is pending again. -/
def Emitter.restored (s : Emitter) (d : Inflight) : Emitter :=
  match d.unit.gapBefore with
  | some gap => if d.gapWritten then { s with delivering := false }
    else ({ s with delivering := false } : Emitter).restoreGap d.unit.scope gap
  | none => { s with delivering := false }

theorem finish_conserved (h : Conserved capacity s) {d : Inflight} (hd : s.inflight = some d)
    {failed : Bool} (hfailed : failed = false → d.stage = .records ∧
      d.completed = d.unit.records.length) : Conserved capacity (s.finish d failed) := by
  have held := h.held d hd
  have htotal := fun other p => h.total other p
  simp only [Emitter.submittedIn, Emitter.onChain, Emitter.waiting, Emitter.lost, Emitter.carried,
    Emitter.writtenIn, hd, Option.map_some, Option.getD_some] at htotal
  unfold Emitter.finish
  cases failed with
  | false =>
    obtain ⟨hstage, hall⟩ := hfailed rfl
    rw [if_neg (by decide)]
    constructor
    · intro other p
      have := htotal other p
      have hwaiting : d.waiting other p = 0 := by
        unfold Inflight.waiting
        rw [hall, List.drop_length]
        simp
      have hcarried : d.carried other p = 0 := by
        unfold Inflight.carried EmissionUnit.carried
        rcases held.written hstage with hw | hw
        · rw [hw]
          rfl
        · simp [hw]
      rw [hwaiting, hcarried] at this
      exact this
    · exact h.queued
    · exact h.bounded
    · intro d' hd'
      cases hd'
    · exact h.numbers
  | true =>
    rw [if_pos rfl]
    set restored := s.restored d with hrestored
    change Conserved capacity
      { restored.countLoss d.unit.scope (d.unit.records.drop d.completed) with inflight := none }
    have hsame : restored.queue = s.queue ∧ restored.queuedRecords = s.queuedRecords ∧
        restored.chain = s.chain ∧ restored.submitted = s.submitted := by
      rw [hrestored]
      unfold Emitter.restored
      split
      · split <;> exact ⟨rfl, rfl, rfl, rfl⟩
      · exact ⟨rfl, rfl, rfl, rfl⟩
    have hpending : ∀ other p, restored.pendingIn other p =
        s.pendingIn other p + d.carried other p := by
      intro other p
      rw [hrestored]
      unfold Emitter.restored Inflight.carried EmissionUnit.carried
      split
      · rename_i gap hgap
        rw [hgap]
        cases d.gapWritten with
        | true => rfl
        | false =>
          simp only [Bool.false_eq_true, if_false]
          rw [Emitter.restoreGap_pendingIn]
          rfl
      · rename_i hgap
        rw [hgap]
        simp
        rfl
    obtain ⟨hqueue, hn, hchain, hsubmitted⟩ := hsame
    constructor
    · intro other p
      have := htotal other p
      have hlost := @Emitter.countLoss_pendingIn restored d.unit.scope p
        (d.unit.records.drop d.completed) other
      change Emitter.submittedIn (restored.countLoss ..) other p =
        Emitter.onChain (restored.countLoss ..) other p +
        (((restored.countLoss d.unit.scope (d.unit.records.drop d.completed)).queue.map
          (·.waiting other p)).sum + 0) +
        (Emitter.pendingIn (restored.countLoss ..) other p +
          (((restored.countLoss d.unit.scope (d.unit.records.drop d.completed)).queue.map
            (·.carried other p)).sum + 0) + Emitter.writtenIn (restored.countLoss ..) other p)
      rw [hlost, hpending]
      simp only [Emitter.submittedIn, Emitter.onChain, Emitter.writtenIn,
        Emitter.countLoss_queue, Emitter.countLoss_chain, Emitter.countLoss_submitted, hqueue,
        hchain, hsubmitted]
      unfold Inflight.waiting at this
      omega
    · change (restored.countLoss _ _).queuedRecords =
        ((restored.countLoss _ _).queue.map (·.records.length)).sum
      rw [Emitter.countLoss_queuedRecords, Emitter.countLoss_queue, hn, hqueue]
      exact h.queued
    · change (restored.countLoss _ _).queuedRecords ≤ capacity
      rw [Emitter.countLoss_queuedRecords, hn]
      exact h.bounded
    · intro d' hd'
      cases hd'
    · change (restored.countLoss _ _).submitted.map (·.number) =
        List.range (restored.countLoss _ _).submitted.length
      rw [Emitter.countLoss_submitted, hsubmitted]
      exact h.numbers

/-! ## Grades, flushes and closing -/

theorem recordGrade_same {connectionId : Str} {evaluated : Option Grade} {due : Option Grade}
    (h : s.recordGrade connectionId scope evaluated = some (due, s')) : SameBooks s s' := by
  unfold Emitter.recordGrade at h
  cases evaluated with
  | none =>
    simp only at h
    split at h
    · cases h
      exact .rfl' s
    · cases h
  | some grade =>
    cases h
    exact ⟨rfl, rfl, rfl, rfl, rfl, rfl⟩

/-- The worker asks for the daemon's grade: the unit it holds stays. -/
theorem gapGrade_conserved (h : Conserved capacity s) {evaluated : Option (Option Grade)}
    (hs : s.gapGrade evaluated = some s') : Conserved capacity s' := by
  unfold Emitter.gapGrade at hs
  cases hd : s.inflight with
  | none => rw [hd] at hs; cases hs
  | some d =>
    simp only [hd] at hs
    have held := h.held d hd
    cases hstage : d.stage with
    | gap =>
      have hunwritten := held.unwritten (.inl hstage)
      have restaged : ∀ (t : Emitter) (stage : Stage), SameBooks s t → stage ≠ .records →
          Conserved capacity { t with inflight := some { d with stage } } := by
        intro t stage ht hne
        have h' := h.of_same ht
        have hd' : t.inflight = some d := ht.inflight.trans hd
        constructor
        · intro other p
          have := h'.total other p
          simp only [Emitter.waiting, Emitter.lost, Emitter.carried, hd', Option.map_some,
            Option.getD_some] at this
          exact this
        · exact h'.queued
        · exact h'.bounded
        · intro d' hd'
          cases hd'
          exact ⟨held.completed, fun _ => hunwritten, fun hr => absurd hr hne,
            fun _ => .inl hunwritten⟩
        · exact h'.numbers
      simp only [hstage] at hs
      cases evaluated with
      | none =>
        cases hs
        exact restaged s .failed (.rfl' s) (by intro h; cases h)
      | some evaluated =>
        simp only at hs
        cases hgrade : s.recordGrade daemonConnection d.unit.scope evaluated with
        | none => rw [hgrade] at hs; cases hs
        | some due =>
          obtain ⟨due, t⟩ := due
          simp only [hgrade, Option.some.injEq] at hs
          subst hs
          refine restaged t _ (recordGrade_same hgrade) ?_
          cases due <;> intro h <;> cases h
    | _ => simp only [hstage] at hs; cases hs

/-- **The books stay balanced**, whatever act comes next. -/
theorem step_conserved (h : Conserved capacity s) {e : Event}
    (hs : step capacity s e = some s') : Conserved capacity s' := by
  have same : ∀ {t : Emitter}, SameBooks s t → Conserved capacity t := fun ht => h.of_same ht
  cases e with
  | submit scope handed =>
    cases hs
    exact submit_conserved h scope handed
  | evaluate i scope connectionId at_ evaluated =>
    simp only [step] at hs
    split at hs
    · split at hs
      · cases hs
      · obtain ⟨⟨due, t⟩, ht, rfl⟩ := Option.map_eq_some_iff.1 hs
        obtain ⟨h1, h2, h3, h4, h5, h6⟩ := recordGrade_same ht
        exact same ⟨h1, h2, h3, h4, h5, h6⟩
    · cases hs
  | hand i handed opens =>
    simp only [step] at hs
    split at hs
    · cases hs
      cases opens with
      | false => exact same ⟨rfl, rfl, rfl, rfl, rfl, rfl⟩
      | true => exact (submit_conserved h _ _).of_same ⟨rfl, rfl, rfl, rfl, rfl, rfl⟩
    · cases hs
  | raised i =>
    simp only [step] at hs
    split at hs
    · cases hs
      exact same ⟨rfl, rfl, rfl, rfl, rfl, rfl⟩
    · cases hs
  | evaluateDaemon i scope evaluated =>
    simp only [step] at hs
    split at hs
    · obtain ⟨⟨due, t⟩, ht, rfl⟩ := Option.map_eq_some_iff.1 hs
      obtain ⟨h1, h2, h3, h4, h5, h6⟩ := recordGrade_same ht
      exact same ⟨h1, h2, h3, h4, h5, h6⟩
    · cases hs
  | appendDaemon i accepted =>
    simp only [step] at hs
    split at hs
    · rename_i scope due _
      cases hs
      -- the daemon's grade is no record of a submission
      constructor
      · intro other p
        have := h.total other p
        cases due with
        | none => exact this
        | some grade =>
          cases accepted with
          | false => exact this
          | true =>
            simp only [Emitter.submittedIn, Emitter.onChain, Emitter.waiting, Emitter.lost,
              Emitter.carried, Emitter.writtenIn, Emitter.pendingIn] at this
            simp only [Emitter.setCaller, Emitter.submittedIn, Emitter.onChain, Emitter.waiting,
              Emitter.lost, Emitter.carried, Emitter.writtenIn, Emitter.pendingIn, if_true,
              List.map_cons, List.sum_cons, Written.appended, Written.counted, Nat.zero_add]
            exact this
      · exact h.queued
      · exact h.bounded
      · exact h.held
      · exact h.numbers
    · cases hs
  | take backing =>
    simp only [step] at hs
    split at hs
    · rename_i hidle
      rw [Bool.and_eq_true, Option.isNone_iff_eq_none] at hidle
      cases hs
      exact take_conserved h hidle.2 backing
    · cases hs
  | gapGrade evaluated => exact gapGrade_conserved h hs
  | append accepted => exact append_conserved h hs
  | finish =>
    simp only [step] at hs
    cases hd : s.inflight with
    | none => rw [hd] at hs; cases hs
    | some d =>
      simp only [hd] at hs
      cases hstage : d.stage with
      | failed =>
        simp only [hstage, Option.some.injEq] at hs
        subst hs
        exact finish_conserved h hd fun hf => by cases hf
      | records =>
        simp only [hstage] at hs
        split at hs
        · rename_i hall
          cases hs
          exact finish_conserved h hd fun _ => ⟨hstage, hall⟩
        · cases hs
      | _ => simp only [hstage] at hs; cases hs
  | flush i scope =>
    simp only [step] at hs
    split at hs
    · split at hs
      · cases hs
      · cases hs
        exact same ⟨rfl, rfl, rfl, rfl, rfl, rfl⟩
    · cases hs
  | answer i =>
    simp only [step, Emitter.answer] at hs
    split at hs
    · rename_i scope target before rest _
      cases hs
      cases rest <;> exact same ⟨rfl, rfl, rfl, rfl, rfl, rfl⟩
    · cases hs
  | close i =>
    simp only [step] at hs
    split at hs
    · cases hs
      exact same ⟨rfl, rfl, rfl, rfl, rfl, rfl⟩
    · cases hs
  | drain i =>
    simp only [step] at hs
    split at hs
    · cases hs
      exact same ⟨rfl, rfl, rfl, rfl, rfl, rfl⟩
    · cases hs
      exact same ⟨rfl, rfl, rfl, rfl, rfl, rfl⟩
    · cases hs
  | setClosing i =>
    simp only [step] at hs
    split at hs
    · cases hs
      exact same ⟨rfl, rfl, rfl, rfl, rfl, rfl⟩
    · cases hs
  | join i =>
    simp only [step, Emitter.join] at hs
    split at hs
    · cases hs
      exact same ⟨rfl, rfl, rfl, rfl, rfl, rfl⟩
    · cases hs

theorem reaches_conserved (h : Reaches (step capacity) .initial s) : Conserved capacity s :=
  h.preserves (fun _ _ _ hinv hs => step_conserved hinv hs) (initial_conserved capacity)

/-! ## What the books say -/

theorem sum_at_key {key : Str} {n : ℕ} : ∀ {keys : List Str}, keys.Nodup → key ∈ keys →
    (keys.map fun other => if other = key then n else 0).sum = n := by
  intro keys
  induction keys with
  | nil => intro _ h; cases h
  | cons first rest ih =>
    intro hnodup hmem
    rw [List.nodup_cons] at hnodup
    rw [List.map_cons, List.sum_cons]
    by_cases h : first = key
    · subst h
      have hzero : (rest.map fun other => if other = first then n else 0).sum = 0 := by
        rw [List.sum_eq_zero_iff]
        intro x hx
        obtain ⟨other, hother, rfl⟩ := List.mem_map.1 hx
        exact if_neg fun heq : other = first => hnodup.1 (heq ▸ hother)
      rw [if_pos rfl, hzero, Nat.add_zero]
    · rw [if_neg h, Nat.zero_add]
      exact ih hnodup.2 ((List.mem_cons.1 hmem).resolve_left fun h' => h h'.symm)

/-- A counter over keys sums to what was added to it. -/
theorem sum_counters : ∀ {holdings : List (Str × ℕ)} {keys : List Str}, keys.Nodup →
    (∀ x ∈ holdings, x.1 ∈ keys) →
      (keys.map fun key => ((holdings.filter (·.1 == key)).map Prod.snd).sum).sum =
        (holdings.map Prod.snd).sum := by
  intro holdings
  induction holdings with
  | nil => intro keys _ _; simp
  | cons x rest ih =>
    intro keys hnodup hkeys
    have hx : x.1 ∈ keys := hkeys x List.mem_cons_self
    have hrest := ih hnodup fun y hy => hkeys y (List.mem_cons_of_mem _ hy)
    have hsplit : ∀ key, (((x :: rest).filter (·.1 == key)).map Prod.snd).sum =
        (if key = x.1 then x.2 else 0) + ((rest.filter (·.1 == key)).map Prod.snd).sum := by
      intro key
      by_cases h : key = x.1
      · rw [List.filter_cons_of_pos (by simp [h]), if_pos h, List.map_cons, List.sum_cons]
      · rw [List.filter_cons_of_neg (by simpa using Ne.symm h), if_neg h, Nat.zero_add]
    simp only [hsplit, List.sum_map_add, hrest, List.map_cons, List.sum_cons,
      sum_at_key hnodup hx]

namespace Emitter

variable (s : Emitter)

/-- What the gaps of a scope that are not written yet count of a kind. -/
def pendingKinds (scope kind : Str) : ℕ :=
  ((s.pending.lookup scope).map (·.kinds kind)).getD 0 +
    (s.queue.map fun u =>
      if u.scope = scope then (u.gapBefore.map (·.kinds kind)).getD 0 else 0).sum +
    (s.inflight.map fun d =>
      if d.gapWritten = false ∧ d.unit.scope = scope then
        (d.unit.gapBefore.map (·.kinds kind)).getD 0
      else 0).getD 0

/-- What the gap entries on the chain count of a kind. -/
def writtenKinds (scope kind : Str) : ℕ :=
  (s.chain.map fun
    | .gap other g => if other = scope then g.kinds kind else 0
    | _ => 0).sum

/-- The gaps, pending, carried or written, with their scopes. -/
def gaps : List (Str × PendingGap) :=
  s.pending.entries.map (fun e => (e.1, e.2)) ++
    s.queue.filterMap (fun u => u.gapBefore.map (u.scope, ·)) ++
    (s.inflight.bind fun d =>
      if d.gapWritten then none else d.unit.gapBefore.map (d.unit.scope, ·)).toList ++
    s.chain.filterMap fun
      | .gap scope g => some (scope, g)
      | _ => none

theorem lost_kinds (scope kind : Str) :
    s.lost scope (·.kind == kind) = s.pendingKinds scope kind + s.writtenKinds scope kind := by
  have hkinds : ∀ gap : PendingGap, gap.losses.countP (·.kind == kind) = gap.kinds kind :=
    fun gap => (gap.kinds_eq kind).symm
  have hwritten : s.writtenIn scope (·.kind == kind) = s.writtenKinds scope kind := by
    unfold writtenIn writtenKinds
    congr 1
    refine List.map_congr_left fun w _ => ?_
    cases w with
    | gap other g => simp only [Written.counted, hkinds]
    | _ => rfl
  unfold lost
  rw [hwritten]
  congr 1
  unfold pendingIn carried pendingKinds EmissionUnit.carried Inflight.carried
  simp only [hkinds, EmissionUnit.carried]
  cases s.inflight with
  | none => rfl
  | some d =>
    simp only [Option.map_some, Option.getD_some]
    cases d.gapWritten with
    | true => simp
    | false => simp [Nat.add_assoc]

/-- A gap that counts a record is found in the books. -/
theorem lost_pos {g : Str × PendingGap} (hg : g ∈ s.gaps) {r : Record} (hr : r ∈ g.2.losses) :
    1 ≤ s.lost g.1 (· == r) := by
  have hcount : 1 ≤ g.2.losses.countP (· == r) := by
    rw [Nat.one_le_iff_ne_zero, ← Nat.pos_iff_ne_zero, List.countP_pos_iff]
    exact ⟨r, hr, beq_self_eq_true r⟩
  unfold gaps at hg
  unfold lost
  rcases List.mem_append.1 hg with hg | hg
  · rcases List.mem_append.1 hg with hg | hg
    · rcases List.mem_append.1 hg with hg | hg
      · obtain ⟨e, he, rfl⟩ := List.mem_map.1 hg
        have hlookup : s.pending.lookup e.1 = some e.2 := AList.mem_lookup_iff.2 he
        have : s.pendingIn e.1 (· == r) = e.2.losses.countP (· == r) := by
          unfold pendingIn
          rw [hlookup]
          rfl
        simp only at hcount ⊢
        omega
      · obtain ⟨u, hu, hcarries⟩ := List.mem_filterMap.1 hg
        obtain ⟨gap, hgap, rfl⟩ := Option.map_eq_some_iff.1 hcarries
        have hle : u.carried u.scope (· == r) ≤ (s.queue.map (·.carried u.scope (· == r))).sum :=
          List.le_sum_of_mem (List.mem_map_of_mem hu)
        have hunit : u.carried u.scope (· == r) = gap.losses.countP (· == r) := by
          simp [EmissionUnit.carried, hgap]
        unfold carried
        simp only at hcount ⊢
        omega
    · cases hd : s.inflight with
      | none => rw [hd] at hg; cases hg
      | some d =>
        simp only [hd, Option.bind_some, Option.mem_toList] at hg
        cases hw : d.gapWritten with
        | true => rw [hw] at hg; cases hg
        | false =>
          simp only [hw, Bool.false_eq_true, if_false] at hg
          obtain ⟨gap, hgap, rfl⟩ := Option.map_eq_some_iff.1 hg
          have : (s.inflight.map (·.carried d.unit.scope (· == r))).getD 0 =
              gap.losses.countP (· == r) := by
            simp [hd, Inflight.carried, EmissionUnit.carried, hw, hgap]
          unfold carried
          simp only at hcount ⊢
          omega
  · obtain ⟨w, hw, hgap⟩ := List.mem_filterMap.1 hg
    cases w with
    | gap other gap =>
      cases hgap
      have hle : (Written.gap other gap).counted other (· == r) ≤
          (s.chain.map (·.counted other (· == r))).sum :=
        List.le_sum_of_mem (List.mem_map_of_mem hw)
      rw [Written.counted, if_pos rfl] at hle
      unfold writtenIn
      simp only at hcount ⊢
      omega
    | _ => cases hgap

end Emitter

/-- Each hand-over is a record of its own. -/
theorem Conserved.nodup (h : Conserved capacity s) : s.submitted.Nodup :=
  List.Nodup.of_map _ (by rw [h.numbers]; exact List.nodup_range)

/-- A record on a chain is counted in no gap. -/
theorem Conserved.once (h : Conserved capacity s) {r : Record} (hr : .record r ∈ s.chain)
    {g : Str × PendingGap} (hg : g ∈ s.gaps) : r ∉ g.2.losses := by
  intro hloss
  have hlost := s.lost_pos hg hloss
  have htotal := h.total g.1 (· == r)
  have hsubmitted : 0 < s.submittedIn g.1 (· == r) := by omega
  obtain ⟨r', -, hr'⟩ := List.countP_pos_iff.1 hsubmitted
  rw [Bool.and_eq_true, beq_iff_eq, beq_iff_eq] at hr'
  obtain ⟨hscope, rfl⟩ := hr'
  have hchain : 1 ≤ s.onChain g.1 (· == r') := by
    have hle : (Written.record r').appended g.1 (· == r') ≤ s.onChain g.1 (· == r') :=
      List.le_sum_of_mem (List.mem_map_of_mem hr)
    simpa [Written.appended, hscope] using hle
  have hone : s.submittedIn g.1 (· == r') ≤ 1 :=
    calc s.submittedIn g.1 (· == r') ≤ s.submitted.count r' :=
          List.countP_mono_left fun x _ hx => (Bool.and_eq_true_iff.1 hx).2
      _ ≤ 1 := List.nodup_iff_count_le_one.1 h.nodup r'
  omega

theorem undelivered_eq (s : Emitter) : s.emissionStatus.undeliveredRecords =
    (s.pending.entries.map fun e => e.2.count).sum + (s.queue.map Emitter.unitHolds).sum +
      (s.inflight.map fun d => Emitter.unitHolds d.unit).getD 0 := by
  have hsum := sum_counters (List.nodup_dedup (s.holdings.map Prod.fst)) fun x hx =>
    List.mem_dedup.2 (List.mem_map_of_mem hx)
  change (((s.holdings.map Prod.fst).dedup).map fun scope =>
    ((s.holdings.filter (·.1 == scope)).map Prod.snd).sum).sum = _
  rw [hsum]
  unfold Emitter.holdings
  simp only [List.map_append, List.sum_append, List.map_map]
  cases s.inflight with
  | none => simp [Function.comp_def]
  | some d => simp [Function.comp_def, Nat.add_assoc]

/-- **Evidence is conserved.** In every run, of each scope and kind, what was submitted is on the
chain, queued or in flight, or counted in one gap; no record is both appended and counted; the
queue stays within its capacity, and the emitter says what it is holding. -/
theorem evidence_conserved (h : Reaches (step capacity) .initial s) :
    (∀ scope kind, s.submittedIn scope (·.kind == kind) =
      s.onChain scope (·.kind == kind) + s.waiting scope (·.kind == kind) +
        s.pendingKinds scope kind + s.writtenKinds scope kind) ∧
    (∀ r, .record r ∈ s.chain → ∀ g ∈ s.gaps, r ∉ g.2.losses) ∧
    (s.queue.map (·.records.length)).sum ≤ capacity ∧
    s.emissionStatus.undeliveredRecords =
      (s.pending.entries.map fun e => e.2.count).sum + (s.queue.map Emitter.unitHolds).sum +
        (s.inflight.map fun d => Emitter.unitHolds d.unit).getD 0 := by
  have hinv := reaches_conserved h
  refine ⟨fun scope kind => ?_, fun r hr g hg => hinv.once hr hg, ?_, undelivered_eq s⟩
  · rw [hinv.total, s.lost_kinds]
    omega
  · rw [← hinv.queued]
    exact hinv.bounded

/-- An effect of the first connection. -/
def sampleHanded : Handed := ⟨lit "effect", 0, lit "connection:1", none⟩

/-- Two records for a queue of one: the second is dropped, and its gap written on a flush. -/
def dropEvents : List Event :=
  [.submit (lit "local") [sampleHanded], .submit (lit "local") [sampleHanded], .take [],
    .append true, .finish, .flush 0 (lit "local"), .take [], .gapGrade (some (some .unverified)),
    .append true, .append true, .finish]

theorem evidence_conserved_drop : ∃ s, run (step 1) .initial dropEvents = some s ∧
    s.onChain (lit "local") (·.kind == lit "effect") = 1 ∧
    s.writtenKinds (lit "local") (lit "effect") = 1 ∧
    s.submittedIn (lit "local") (·.kind == lit "effect") =
      s.onChain (lit "local") (·.kind == lit "effect") +
        s.waiting (lit "local") (·.kind == lit "effect") +
        s.pendingKinds (lit "local") (lit "effect") +
        s.writtenKinds (lit "local") (lit "effect") := by
  have hrun : ((run (step 1) .initial dropEvents).map fun s =>
      (s.onChain (lit "local") (·.kind == lit "effect"),
        s.writtenKinds (lit "local") (lit "effect"))) = some (1, 1) := by decide +kernel
  obtain ⟨s, hs, hcounts⟩ := Option.map_eq_some_iff.1 hrun
  obtain ⟨hchain, hwritten⟩ := Prod.mk.inj hcounts
  exact ⟨s, hs, hchain, hwritten, (evidence_conserved ⟨_, hs⟩).1 _ _⟩

end SayFirst.Plane.Emission
