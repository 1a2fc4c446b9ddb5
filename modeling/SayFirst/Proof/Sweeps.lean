import SayFirst.Lib.DueIndex
import SayFirst.Proof.LiveWait

/-!
# The sweeps are full scans

The due-time indexes hold stale entries and duplicates on purpose. What makes a sweep exact is that
every pending wait is in the one at its deadline, and every record with a lapse instant in the
other at that instant.

* `Covered` — the invariant, and `perform_covered`, that every operation keeps it.
* `expireLoop_sweep`, `forgetLoop_sweep` — the two loops are sweeps of a lazy index.
* `sweeps_equal_scans` — what the two sweeps do, in every store the operations reach.
-/

namespace SayFirst.Plane

open Py DueIndex

theorem dueLe_byInstant : ByInstant dueLe where
  le_of_true a b h := by
    unfold dueLe at h
    simp only [Bool.or_eq_true, decide_eq_true_eq, Bool.and_eq_true, beq_iff_eq] at h
    omega
  le_of_false a b h := by
    unfold dueLe at h
    simp only [Bool.or_eq_false_iff, decide_eq_false_iff_not] at h
    omega

/-! ## The instants of a record -/

/-- When a wait runs out. -/
def Approval.waitInstant (a : Approval) : Option ℤ :=
  if a.state = .pending then some a.deadline else none

/-- The record with its wait ended at its deadline. -/
def Approval.ended (kept : Approval) : Approval :=
  match ({ kept.toApprovalFields with
      state := .expired, resolvedAt := some kept.deadline } : ApprovalFields).build with
  | .ok expired => expired
  | .error _ => kept

theorem Approval.waitInstant_pending {a : Approval} (h : a.state = .pending) :
    a.waitInstant = some a.deadline := if_pos h

theorem Approval.waitInstant_over {a : Approval} (h : a.state ≠ .pending) : a.waitInstant = none :=
  if_neg h

/-- A pending record is one the dataclass accepts as expired. -/
theorem Approval.ended_complaint {a : Approval} (h : a.state = .pending) :
    ({ a.toApprovalFields with
      state := .expired, resolvedAt := some a.deadline } : ApprovalFields).complaint = none := by
  obtain ⟨hwait, hperson, hreason, hclaimed, hconsumed, hconsumedAt⟩ := Approval.pending_bare h
  have hlong : ¬ a.deadline ≤ a.requestedAt := by omega
  have hearly : ¬ a.deadline < a.requestedAt := by omega
  simp [ApprovalFields.complaint, ApprovalFields.endOfTheWait, ApprovalFields.theOnePerson,
    ApprovalState.acted, ApprovalFields.theSpend, hlong, hearly, hperson, hreason, hclaimed,
    hconsumed, hconsumedAt]
theorem Approval.build_ended {kept : Approval} (h : kept.state = .pending) :
    ({ kept.toApprovalFields with
      state := .expired, resolvedAt := some kept.deadline } : ApprovalFields).build =
      .ok kept.ended := by
  have hbuild : ∃ expired, ({ kept.toApprovalFields with
      state := .expired, resolvedAt := some kept.deadline } : ApprovalFields).build =
        .ok expired := by
    unfold ApprovalFields.build
    split
    next hnone => exact ⟨_, rfl⟩
    next message hsome =>
      rw [Approval.ended_complaint h] at hsome
      cases hsome
  obtain ⟨expired, hbuild⟩ := hbuild
  rw [Approval.ended, hbuild]

theorem Approval.ended_fields {kept : Approval} (h : kept.state = .pending) :
    kept.ended.toApprovalFields = { kept.toApprovalFields with
      state := .expired, resolvedAt := some kept.deadline } :=
  ApprovalFields.build_ok (Approval.build_ended h)

theorem Approval.ended_over (kept : Approval) : kept.ended.waitInstant = none := by
  refine Approval.waitInstant_over fun hpending => ?_
  by_cases h : kept.state = .pending
  · rw [Approval.ended_fields h] at hpending
    cases hpending
  · unfold Approval.ended at hpending
    split at hpending
    next expired hbuild =>
      rw [ApprovalFields.build_ok hbuild] at hpending
      cases hpending
    next message hbuild => exact h hpending

/-- Ended at its deadline, or where it was. -/
theorem Approval.ended_key {kept : Approval} (h : kept.state = .pending) : kept.ended.key = kept.key := by
  unfold Approval.key Approval.scope
  rw [Approval.ended_fields h]

namespace ApprovalStore

variable {s s' : ApprovalStore} {key : ApprovalKey} {now : ℤ}

theorem lapseInstant_pending {a : Approval} (h : a.state = .pending) : lapseInstant a = none :=
  if_pos h

@[simp] theorem put_due (a : Approval) : (s.put key a).due = s.due := rfl

@[simp] theorem put_lapsing (a : Approval) : (s.put key a).lapsing = s.lapsing := rfl

@[simp] theorem indexLapse_due (a : Approval) : (s.indexLapse key a).due = s.due := by
  unfold indexLapse; split <;> rfl

theorem indexLapse_lapsing (a : Approval) : (s.indexLapse key a).lapsing =
    match lapseInstant a with
    | none => s.lapsing
    | some t => heappush dueLe (t, key) s.lapsing := by
  unfold indexLapse
  cases lapseInstant a <;> rfl

theorem drop_due (kept : Approval) : (s.drop key kept).2.due = s.due := by
  unfold drop
  simp only
  split
  · rfl
  · split <;> rfl

theorem drop_lapsing (kept : Approval) : (s.drop key kept).2.lapsing = s.lapsing := by
  unfold drop
  simp only
  split
  · rfl
  · split <;> rfl

/-! ## The invariant -/

/-- The indexes name the same records, every pending wait is in the one of the deadlines, and every
record that lapses in the other. -/
structure Covered (s : ApprovalStore) : Prop where
  indexed : Indexed s
  waits : Covers Approval.waitInstant s.byReference s.due
  lapses : Covers lapseInstant s.byReference s.lapsing

theorem empty_covered : Covered .empty where
  indexed := empty_indexed
  waits := ⟨List.Pairwise.nil, fun _ _ _ h => by cases h⟩
  lapses := ⟨List.Pairwise.nil, fun _ _ _ h => by cases h⟩

/-- A record replaced by one with the same instants. -/
theorem Covered.put_same (h : Covered s) {kept a : Approval} (hk : s.byReference key = some kept)
    (hindexed : Indexed (s.put key a)) (hwait : a.waitInstant = kept.waitInstant)
    (hlapse : lapseInstant a = lapseInstant kept) : Covered (s.put key a) where
  indexed := hindexed
  waits := h.waits.put (fun k hne => by rw [put_byReference, if_neg hne]) fun r t hr ht => by
    rw [put_byReference, if_pos rfl] at hr
    cases hr
    exact h.waits.indexed key kept t hk (hwait ▸ ht)
  lapses := h.lapses.put (fun k hne => by rw [put_byReference, if_neg hne]) fun r t hr ht => by
    rw [put_byReference, if_pos rfl] at hr
    cases hr
    exact h.lapses.indexed key kept t hk (hlapse ▸ ht)

/-- The index of the lapses covers a record that was just put and indexed. -/
theorem put_lapses (h : Covers lapseInstant s.byReference s.lapsing) (a : Approval) :
    Covers lapseInstant ((s.put key a).indexLapse key a).byReference
      ((s.put key a).indexLapse key a).lapsing := by
  rw [indexLapse_byReference, indexLapse_lapsing, put_lapsing]
  have hothers : ∀ k ≠ key, (s.put key a).byReference k = s.byReference k :=
    fun k hne => by rw [put_byReference, if_neg hne]
  cases ht : lapseInstant a with
  | none =>
    refine h.put hothers fun r t hr ht' => ?_
    rw [put_byReference, if_pos rfl] at hr
    cases hr
    rw [ht] at ht'
    cases ht'
  | some t =>
    refine (h.push dueLe_byInstant (t, key)).put hothers fun r t' hr ht' => ?_
    rw [put_byReference, if_pos rfl] at hr
    cases hr
    rw [ht] at ht'
    cases ht'
    exact mem_heappush.2 (.inl rfl)

/-- A wait that ended is put, and indexed where it lapses. -/
theorem Covered.put_over (h : Covered s) {a : Approval} (hindexed : Indexed (s.put key a))
    (hover : a.state ≠ .pending) : Covered ((s.put key a).indexLapse key a) where
  indexed := hindexed.of_eq (indexLapse_byReference a) (indexLapse_byQuestion a)
  waits := by
    rw [indexLapse_byReference, indexLapse_due, put_due]
    refine h.waits.put (fun k hne => by rw [put_byReference, if_neg hne]) fun r t hr ht => ?_
    rw [put_byReference, if_pos rfl] at hr
    cases hr
    rw [Approval.waitInstant_over hover] at ht
    cases ht
  lapses := put_lapses h.lapses a

/-- A record that is dropped is in no index any more. -/
theorem drop_covers {instant : Approval → Option ℤ} {index : List (ℤ × ApprovalKey)}
    (h : Covers instant s.byReference index) (kept : Approval) :
    Covers instant (s.drop key kept).2.byReference index := by
  refine h.frame fun k r t hr ht => ⟨r, ?_, ht⟩
  rw [drop_byReference] at hr
  split at hr
  · cases hr
  · exact hr

/-! ## The loops -/

/-- `expire_past` over the index of the deadlines. -/
abbrev expireSweep (now : ℤ) (turns : ℕ) (s : ApprovalStore) : Swept ApprovalKey Approval :=
  sweep dueLe Approval.waitInstant now (fun kept => some kept.ended) turns s.byReference s.due

/-- **The loop of `expire_past` is a sweep** of the index of the deadlines. -/
theorem expireLoop_sweep (turns : ℕ) : ∀ (s : ApprovalStore) (ended : List Approval),
    (expireLoop now turns s ended).1 =
        .ok (ended ++ (expireSweep now turns s).taken.map (·.2.ended)) ∧
      (expireLoop now turns s ended).2.byReference = (expireSweep now turns s).held ∧
      (expireLoop now turns s ended).2.due = (expireSweep now turns s).index := by
  induction turns with
  | zero => exact fun s ended => ⟨by simp [expireLoop, sweep], rfl, rfl⟩
  | succ turns ih =>
    intro s ended
    unfold expireLoop expireSweep
    cases hdue : s.due with
    | nil => exact ⟨by simp [sweep], rfl, hdue⟩
    | cons e rest =>
      obtain ⟨at_, key⟩ := e
      simp only [sweep]
      split
      next hnow => exact ⟨by simp, rfl, hdue⟩
      next hnow =>
        cases hr : s.byReference key with
        | none => exact ih { s with due := rest } ended
        | some kept =>
          simp only
          split
          next hstate =>
            rw [Approval.waitInstant_over hstate]
            exact ih { s with due := rest } ended
          next hstate =>
            rw [not_not] at hstate
            rw [Approval.waitInstant_pending hstate]
            simp only
            split
            next hlate =>
              exact ih { s with due := heappush dueLe (kept.deadline, key) rest } ended
            next hlate =>
              rw [Approval.build_ended hstate]
              simp only
              have hnext := ih (({ s with due := rest }.put key kept.ended).indexLapse key kept.ended)
                (ended ++ [kept.ended])
              simp only [expireSweep, indexLapse_byReference, indexLapse_due, put_due] at hnext
              obtain ⟨hanswer, hheld, hindex⟩ := hnext
              refine ⟨hanswer.trans ?_, hheld, hindex⟩
              rw [List.append_assoc]
              rfl

/-- `forget_lapsed` over the index of the lapses. -/
abbrev forgetSweep (now : ℤ) (turns : ℕ) (s : ApprovalStore) : Swept ApprovalKey Approval :=
  sweep dueLe lapseInstant now (fun _ => none) turns s.byReference s.lapsing

/-- A record that lapses is no yes nobody spent. -/
theorem not_standing_of_lapses {kept : Approval} (h : isOfNoFurtherUse kept now = true) :
    ¬ kept.Standing := by
  intro hs
  simp [isOfNoFurtherUse, lapseInstant, hs.1, hs.2] at h

/-- A record the indexes agree on is dropped. -/
theorem drop_ok (hi : Indexed s) {kept : Approval} (hk : s.byReference key = some kept) :
    (s.drop key kept).1 = .ok () := by
  have hmem := (hi.record key kept hk).2
  unfold drop
  simp only
  split
  next hempty => rfl
  next hempty => rfl

/-- **The loop of `forget_lapsed` is a sweep** of the index of the lapses. -/
theorem forgetLoop_sweep (turns : ℕ) : ∀ (s : ApprovalStore) (forgotten : List Approval),
    Indexed s →
    (forgetLoop now turns s forgotten).1 =
        .ok (forgotten ++ (forgetSweep now turns s).taken.map (·.2)) ∧
      (forgetLoop now turns s forgotten).2.byReference = (forgetSweep now turns s).held ∧
      (forgetLoop now turns s forgotten).2.lapsing = (forgetSweep now turns s).index := by
  induction turns with
  | zero => exact fun s forgotten _ => ⟨by simp [forgetLoop, sweep], rfl, rfl⟩
  | succ turns ih =>
    intro s forgotten hi
    unfold forgetLoop forgetSweep
    cases hlapsing : s.lapsing with
    | nil => exact ⟨by simp [sweep], rfl, hlapsing⟩
    | cons e rest =>
      obtain ⟨at_, key⟩ := e
      have hpop : Indexed { s with lapsing := rest } := hi.of_eq rfl rfl
      simp only [sweep]
      split
      next hnow => exact ⟨by simp, rfl, hlapsing⟩
      next hnow =>
        cases hr : s.byReference key with
        | none => exact ih { s with lapsing := rest } forgotten hpop
        | some kept =>
          simp only
          cases ht : lapseInstant kept with
          | none =>
            have huse : isOfNoFurtherUse kept now = false := by
              rw [isOfNoFurtherUse, ht]
              rfl
            have hsame : ApprovalStore.indexLapse { s with lapsing := rest } key kept =
                { s with lapsing := rest } := by
              rw [indexLapse, ht]
            rw [huse, hsame]
            exact ih { s with lapsing := rest } forgotten hpop
          | some t =>
            simp only
            split
            next huse =>
              have hle : ¬ now < t := by
                rw [isOfNoFurtherUse, ht] at huse
                simpa using huse
              rw [if_neg hle]
              have hok := drop_ok hpop hr
              have hdropped : Indexed (ApprovalStore.drop { s with lapsing := rest } key kept).2 :=
                (drop_turns hpop hr (not_standing_of_lapses huse) : Indexed _ ∧ Turns none _ _).1
              have hheld : (ApprovalStore.drop { s with lapsing := rest } key kept).2.byReference =
                  fun k => if k = key then none else s.byReference k :=
                funext (drop_byReference kept)
              have hindex : (ApprovalStore.drop { s with lapsing := rest } key kept).2.lapsing =
                  rest := drop_lapsing kept
              rcases hdrop : ApprovalStore.drop { s with lapsing := rest } key kept with ⟨answer, s'⟩
              rw [hdrop] at hok hdropped hheld hindex
              obtain rfl : answer = .ok () := hok
              simp only at hheld hindex ⊢
              have hnext := ih s' (forgotten ++ [kept]) hdropped
              simp only [forgetSweep, hheld, hindex] at hnext
              obtain ⟨hanswer, hheld', hindex'⟩ := hnext
              refine ⟨hanswer.trans ?_, hheld', hindex'⟩
              rw [List.append_assoc]
              rfl
            next huse =>
              have hlt : now < t := by
                rw [isOfNoFurtherUse, ht] at huse
                simpa using huse
              have hsame : ApprovalStore.indexLapse { s with lapsing := rest } key kept =
                  { s with lapsing := heappush dueLe (t, key) rest } := by
                rw [indexLapse, ht]
              rw [if_pos hlt, hsame]
              exact ih { s with lapsing := heappush dueLe (t, key) rest } forgotten (hi.of_eq rfl rfl)

/-! ## The order of the answers -/

theorem storeKeyLe_total (a b : Approval) : storeKeyLe a b = true ∨ storeKeyLe b a = true := by
  unfold storeKeyLe
  by_cases h : a.scope = b.scope
  · rw [if_pos h, if_pos h.symm]
    exact Str.le_total _ _
  · rw [if_neg h, if_neg fun h' => h h'.symm]
    exact Str.le_total _ _

theorem storeKeyLe_trans (a b c : Approval) (hab : storeKeyLe a b = true)
    (hbc : storeKeyLe b c = true) : storeKeyLe a c = true := by
  unfold storeKeyLe at *
  by_cases h : a.scope = b.scope
  · rw [if_pos h] at hab
    rw [← h] at hbc
    split
    next hac =>
      rw [if_pos hac] at hbc
      exact Str.le_trans _ _ _ hab hbc
    next hac =>
      rw [if_neg hac] at hbc
      exact hbc
  · rw [if_neg h] at hab
    by_cases h' : b.scope = c.scope
    · rw [← h', if_neg h]
      exact hab
    · rw [if_neg h'] at hbc
      split
      next hac =>
        -- the scopes go round, so they are one
        rw [← hac] at hbc
        exact absurd (Str.le_antisymm _ _ hab hbc) h
      next hac => exact Str.le_trans _ _ _ hab hbc

instance : Std.Total fun a b : Approval => storeKeyLe a b = true := ⟨storeKeyLe_total⟩

instance : IsTrans Approval fun a b => storeKeyLe a b = true := ⟨storeKeyLe_trans⟩

/-! ## Every operation keeps the invariant -/

theorem openWait_covered (h : Covered s) (a : Approval) : Covered (s.openWait a).2 := by
  cases hopen : (s.openWait a).1 with
  | error raised =>
    rw [openWait_error hopen]
    exact h
  | ok found =>
    have hindexed : Indexed (s.openWait a).2 := by
      obtain ⟨rfl, -⟩ := openWait_ok hopen
      exact openWait_indexed h.indexed hopen
    obtain ⟨-, -, hpending, hfresh, hheld, -⟩ := openWait_ok hopen
    have hrest : (s.openWait a).2.due = heappush dueLe (a.deadline, a.key) s.due ∧
        (s.openWait a).2.lapsing = s.lapsing := by
      unfold openWait at hopen ⊢
      split
      next hpublished => rw [if_pos hpublished] at hopen; cases hopen
      next hpublished =>
        split
        next hstate => exact absurd hpending hstate
        next hstate =>
          split
          next hsome => rw [hfresh] at hsome; cases hsome
          next hnone => exact ⟨rfl, rfl⟩
    have hothers : ∀ k ≠ a.key, (s.openWait a).2.byReference k = s.byReference k :=
      fun k hne => by rw [hheld, if_neg hne]
    refine ⟨hindexed, ?_, ?_⟩
    · rw [hrest.1]
      refine (h.waits.push dueLe_byInstant (a.deadline, a.key)).put hothers fun r t hr ht => ?_
      rw [hheld, if_pos rfl] at hr
      cases hr
      rw [Approval.waitInstant_pending hpending] at ht
      cases ht
      exact mem_heappush.2 (.inl rfl)
    · rw [hrest.2]
      refine h.lapses.put hothers fun r t hr ht => ?_
      rw [hheld, if_pos rfl] at hr
      cases hr
      rw [lapseInstant_pending hpending] at ht
      cases ht

theorem publish_covered (h : Covered s) : Covered (s.publish key).2 := by
  have hindexed := (@publish_turns s key h.indexed).1
  obtain ⟨heq, -⟩ | ⟨kept, published, heq, hk, hf⟩ := publish_cases s key
  · rw [heq]
    exact h
  · rw [heq] at hindexed ⊢
    refine h.put_same hk hindexed ?_ ?_
    · unfold Approval.waitInstant
      rw [hf]
    · unfold lapseInstant
      rw [hf]

theorem abandon_covered (h : Covered s) : Covered (s.abandon key).2 := by
  have hindexed := (@abandon_turns s key h.indexed).1
  obtain heq | ⟨kept, heq, -, -, -⟩ := abandon_cases s key
  · rw [heq]
    exact h
  · rw [heq] at hindexed ⊢
    exact ⟨hindexed, by rw [drop_due]; exact drop_covers h.waits kept,
      by rw [drop_lapsing]; exact drop_covers h.lapses kept⟩

theorem resolve_covered (h : Covered s) (person : Str) (resolution : ApprovalResolution)
    (reason : Option Str) : Covered (s.resolve key person resolution reason now).2 := by
  obtain ⟨e, heq⟩ | ⟨kept, expired, heq, hk, -, -, hf⟩ | ⟨kept, ended, heq, hk, -, -, hf⟩ :=
    s.resolve_ways key person resolution reason now
  · rw [heq]
    exact h
  · rw [heq]
    refine h.put_over (put_indexed h.indexed hk (by rw [hf]) (by rw [hf]) fun happroved => ?_) ?_
    · rw [hf] at happroved
      cases happroved
    · rw [hf]
      exact fun hpending => by cases hpending
  · rw [heq]
    refine h.put_over (put_indexed h.indexed hk (by rw [hf]) (by rw [hf]) fun _ => by rw [hf]) ?_
    rw [hf]
    cases resolution with
    | approve => exact fun hpending => by cases hpending
    | reject => exact fun hpending => by cases hpending

theorem claim_covered (h : Covered s) : Covered (s.claim key).2 := by
  have hindexed := (@claim_turns s key h.indexed).1
  obtain ⟨raised, heq⟩ | ⟨kept, claimed, heq, hk, -, -, hf⟩ := claim_cases s key
  · rw [heq]
    exact h
  · rw [heq] at hindexed ⊢
    refine h.put_same hk hindexed ?_ ?_
    · unfold Approval.waitInstant
      rw [hf]
    · unfold lapseInstant
      rw [hf]

theorem releaseClaim_covered (h : Covered s) : Covered (s.releaseClaim key).2 := by
  have hindexed := (@releaseClaim_turns s key h.indexed).1
  obtain heq | ⟨kept, released, heq, hk, -, hf⟩ := releaseClaim_cases s key
  · rw [heq]
    exact h
  · rw [heq] at hindexed ⊢
    refine h.put_same hk hindexed ?_ ?_
    · unfold Approval.waitInstant
      rw [hf]
    · unfold lapseInstant
      rw [hf]

theorem consume_covered (h : Covered s) : Covered (s.consume key now).2 := by
  obtain ⟨e, heq⟩ | ⟨kept, consumed, heq, hk, happroved, hf⟩ := s.consume_ways key now
  · rw [heq]
    exact h
  · rw [heq]
    have hstate : consumed.state = .approved := by
      rw [hf]
      exact happroved
    refine h.put_over (put_indexed h.indexed hk (by rw [hf]) (by rw [hf]) fun _ => ?_) ?_
    · rw [hf]
      exact h.indexed.published key kept hk happroved
    · rw [hstate]
      decide

/-- A sweep of `expire_past` took what a scan of all records would take. -/
theorem expireSweep_scans (h : Covered s) {turns : ℕ} (hturns : s.due.length ≤ turns) :
    Scans Approval.waitInstant now (fun kept => some kept.ended) s.byReference
      (expireSweep now turns s) := by
  refine sweep_scans dueLe_byInstant (fun kept r' hr' => ?_) h.waits
    ((List.countP_le_length).trans hturns)
  cases hr'
  exact kept.ended_over

/-- A sweep of `forget_lapsed` took what a scan of all records would take. -/
theorem forgetSweep_scans (h : Covered s) {turns : ℕ} (hturns : s.lapsing.length ≤ turns) :
    Scans lapseInstant now (fun _ => none) s.byReference (forgetSweep now turns s) :=
  sweep_scans dueLe_byInstant (fun _ _ hr' => by cases hr') h.lapses
    ((List.countP_le_length).trans hturns)

theorem expirePast_covered (h : Covered s) : Covered (s.expirePast now).2 where
  indexed := (expirePast_turns h.indexed).1
  waits := by
    obtain ⟨-, hheld, hindex⟩ := @expireLoop_sweep now s.due.length s []
    have hcovers := (@expireSweep_scans s now h _ le_rfl).covers
    rw [← hheld, ← hindex] at hcovers
    exact hcovers
  lapses := by
    refine @expireLoop_rule now (fun t => Covers lapseInstant t.byReference t.lapsing)
      (fun _ _ h => h) (fun t key kept expired h _ _ _ _ => put_lapses h expired) _ s [] h.lapses

theorem forgetLapsed_covered (h : Covered s) : Covered (s.forgetLapsed now).2 where
  indexed := (forgetLapsed_turns h.indexed).1
  waits := by
    refine @forgetLoop_rule now (fun t => Covers Approval.waitInstant t.byReference t.due)
      (fun _ _ h => h) (fun t key kept h _ _ => ?_) _ s [] h.waits
    rw [drop_due]
    exact drop_covers h kept
  lapses := by
    obtain ⟨-, hheld, hindex⟩ := @forgetLoop_sweep now s.lapsing.length s [] h.indexed
    have hcovers := (@forgetSweep_scans s now h _ le_rfl).covers
    rw [← hheld, ← hindex] at hcovers
    exact hcovers

/-- **Every operation keeps the invariant**, at any instant. -/
theorem perform_covered (h : Covered s) (operation : StoreOperation) :
    Covered (s.perform operation) := by
  cases operation with
  | openWait a => exact openWait_covered h a
  | openIfAbsent a clock =>
    obtain ⟨raised, heq⟩ | ⟨found, heq, -⟩ | ⟨s', heq, -, rfl⟩ := openIfAbsent_cases s a clock
    · rw [perform, heq]
      exact h
    · rw [perform, heq]
      exact h
    · rw [perform, heq]
      exact openWait_covered h a
  | publish key => exact publish_covered h
  | abandon key => exact abandon_covered h
  | resolve key person resolution reason now => exact resolve_covered h person resolution reason
  | claim key => exact claim_covered h
  | releaseClaim key => exact releaseClaim_covered h
  | consume key clock => exact consume_covered h
  | expirePast now => exact expirePast_covered h
  | forgetLapsed now => exact forgetLapsed_covered h

/-- Every store the operations reach. -/
theorem reached_covered (operations : List StoreOperation) (h : Covered s) :
    Covered (operations.foldl perform s) := by
  induction operations generalizing s with
  | nil => exact h
  | cons operation operations ih => exact ih (perform_covered h operation)

/-! ## The two sweeps -/

/-- In the order of the store's keys, each key once. -/
structure InKeyOrder (l : List Approval) : Prop where
  sorted : l.Pairwise (storeKeyLe · ·)
  once : (l.map Approval.key).Nodup

theorem inKeyOrder_sorted {l : List Approval} (h : (l.map Approval.key).Nodup) :
    InKeyOrder (l.insertionSort (storeKeyLe · ·)) where
  sorted := List.pairwise_insertionSort _ _
  once := ((List.perm_insertionSort _ l).map Approval.key).nodup_iff.2 h

/-- `expire_past` ends the pending waits whose deadline is at or before the instant, as a scan of
all records would, and its loop comes to an end by itself. -/
structure ExpiresExactly (s : ApprovalStore) (now : ℤ) : Prop where
  answers : ∃ l, (s.expirePast now).1 = .ok l ∧ InKeyOrder l ∧
    ∀ a, a ∈ l ↔ ∃ key kept, s.byReference key = some kept ∧ kept.state = .pending ∧
      kept.deadline ≤ now ∧ a = kept.ended
  leaves : ∀ key, (s.expirePast now).2.byReference key = (s.byReference key).map fun kept =>
    if kept.state = .pending ∧ kept.deadline ≤ now then kept.ended else kept
  record : ∀ kept : Approval, kept.state = .pending → kept.ended.toApprovalFields =
    { kept.toApprovalFields with state := .expired, resolvedAt := some kept.deadline }
  nothingDue : ∀ e ∈ (s.expirePast now).2.due, now < e.1
  enough : ∀ turns ≥ s.due.length,
    (expireLoop now turns s []).1 = (expireLoop now s.due.length s []).1 ∧
    (expireLoop now turns s []).2.byReference = (expireLoop now s.due.length s []).2.byReference

/-- `forget_lapsed` drops the records that are of no further use, as a scan of all records would,
and its loop comes to an end by itself. -/
structure ForgetsExactly (s : ApprovalStore) (now : ℤ) : Prop where
  answers : ∃ l, (s.forgetLapsed now).1 = .ok l ∧ InKeyOrder l ∧
    ∀ a, a ∈ l ↔ ∃ key, s.byReference key = some a ∧ isOfNoFurtherUse a now = true
  leaves : ∀ key, (s.forgetLapsed now).2.byReference key =
    (s.byReference key).filter fun kept => !isOfNoFurtherUse kept now
  nothingDue : ∀ e ∈ (s.forgetLapsed now).2.lapsing, now < e.1
  enough : ∀ turns ≥ s.lapsing.length,
    (forgetLoop now turns s []).1 = (forgetLoop now s.lapsing.length s []).1 ∧
    (forgetLoop now turns s []).2.byReference =
      (forgetLoop now s.lapsing.length s []).2.byReference

/-- A wait is due as the index has it exactly where it is pending and past its deadline. -/
theorem due_waitInstant {kept : Approval} :
    DueIndex.due Approval.waitInstant now kept = true ↔ kept.state = .pending ∧ kept.deadline ≤ now := by
  by_cases h : kept.state = .pending
  · rw [due_of_some (Approval.waitInstant_pending h)]
    exact (and_iff_right h).symm
  · rw [not_due_of_none (Approval.waitInstant_over h)]
    exact iff_of_false (by decide) fun hdue => h hdue.1

theorem expirePast_exactly (h : Covered s) : ExpiresExactly s now := by
  obtain ⟨hanswer, hheld, hindex⟩ := @expireLoop_sweep now s.due.length s []
  have hscans := @expireSweep_scans s now h _ le_rfl
  set swept := expireSweep now s.due.length s
  have hpending : ∀ k kept, (k, kept) ∈ swept.taken →
      s.byReference k = some kept ∧ kept.state = .pending ∧ kept.deadline ≤ now := by
    intro k kept hmem
    obtain ⟨hr, hdue⟩ := (hscans.takes k kept).1 hmem
    exact ⟨hr, due_waitInstant.1 hdue⟩
  refine ⟨?_, fun key => ?_, fun kept => Approval.ended_fields, fun e he => ?_, fun turns hle => ?_⟩
  · refine ⟨(swept.taken.map (·.2.ended)).insertionSort (storeKeyLe · ·), ?_, inKeyOrder_sorted ?_,
      fun a => ?_⟩
    · change (expireLoop now s.due.length s []).1.map _ = _
      rw [hanswer]
      rfl
    · rw [List.map_map, List.map_congr_left (g := Prod.fst) fun e he => ?_]
      · exact hscans.once
      · obtain ⟨hr, hstate, -⟩ := hpending e.1 e.2 he
        exact (Approval.ended_key hstate).trans (h.indexed.record e.1 e.2 hr).1
    · rw [List.mem_insertionSort, List.mem_map]
      constructor
      · rintro ⟨⟨k, kept⟩, hmem, rfl⟩
        obtain ⟨hr, hstate, hdue⟩ := hpending k kept hmem
        exact ⟨k, kept, hr, hstate, hdue, rfl⟩
      · rintro ⟨k, kept, hr, hstate, hdue, rfl⟩
        exact ⟨(k, kept), (hscans.takes k kept).2 ⟨hr, due_waitInstant.2 ⟨hstate, hdue⟩⟩, rfl⟩
  · change (expireLoop now s.due.length s []).2.byReference key = _
    rw [hheld, hscans.leaves, scanned]
    cases s.byReference key with
    | none => rfl
    | some kept =>
      rw [Option.bind_some, Option.map_some]
      simp only [due_waitInstant]
      split <;> rfl
  · change e ∈ (expireLoop now s.due.length s []).2.due at he
    rw [hindex] at he
    exact hscans.nothingDue e he
  · obtain ⟨hanswer', hheld', -⟩ := @expireLoop_sweep now turns s []
    have hsame : expireSweep now turns s = swept := sweep_enough (List.countP_le_length) hle
    rw [hanswer', hheld', hsame, hanswer, hheld]
    exact ⟨rfl, rfl⟩

theorem forgetLapsed_exactly (h : Covered s) : ForgetsExactly s now := by
  obtain ⟨hanswer, hheld, hindex⟩ := @forgetLoop_sweep now s.lapsing.length s [] h.indexed
  have hscans := @forgetSweep_scans s now h _ le_rfl
  set swept := forgetSweep now s.lapsing.length s
  refine ⟨?_, fun key => ?_, fun e he => ?_, fun turns hle => ?_⟩
  · refine ⟨(swept.taken.map (·.2)).insertionSort (storeKeyLe · ·), ?_, inKeyOrder_sorted ?_,
      fun a => ?_⟩
    · change (forgetLoop now s.lapsing.length s []).1.map _ = _
      rw [hanswer]
      rfl
    · rw [List.map_map, List.map_congr_left (g := Prod.fst) fun e he => ?_]
      · exact hscans.once
      · obtain ⟨hr, -⟩ := (hscans.takes e.1 e.2).1 he
        exact (h.indexed.record e.1 e.2 hr).1
    · rw [List.mem_insertionSort, List.mem_map]
      constructor
      · rintro ⟨⟨k, kept⟩, hmem, rfl⟩
        exact ⟨k, (hscans.takes k kept).1 hmem⟩
      · rintro ⟨k, hr, huse⟩
        exact ⟨(k, a), (hscans.takes k a).2 ⟨hr, huse⟩, rfl⟩
  · change (forgetLoop now s.lapsing.length s []).2.byReference key = _
    rw [hheld, hscans.leaves, scanned]
    cases s.byReference key with
    | none => rfl
    | some kept =>
      have hdue : DueIndex.due lapseInstant now kept = isOfNoFurtherUse kept now := rfl
      rw [Option.bind_some, hdue, Option.filter_some]
      cases isOfNoFurtherUse kept now <;> rfl
  · change e ∈ (forgetLoop now s.lapsing.length s []).2.lapsing at he
    rw [hindex] at he
    exact hscans.nothingDue e he
  · obtain ⟨hanswer', hheld', -⟩ := @forgetLoop_sweep now turns s [] h.indexed
    have hsame : forgetSweep now turns s = swept := sweep_enough (List.countP_le_length) hle
    rw [hanswer', hheld', hsame, hanswer, hheld]
    exact ⟨rfl, rfl⟩

/-- **The lazy indexes equal a full scan**, in every store the operations reach, and the two
indexes of the records name the same ones. -/
theorem sweeps_equal_scans (operations : List StoreOperation) (now : ℤ) :
    Indexed (operations.foldl perform .empty) ∧
      ExpiresExactly (operations.foldl perform .empty) now ∧
      ForgetsExactly (operations.foldl perform .empty) now := by
  have hcovered := reached_covered operations empty_covered
  exact ⟨hcovered.indexed, expirePast_exactly hcovered, forgetLapsed_exactly hcovered⟩

end ApprovalStore

end SayFirst.Plane
