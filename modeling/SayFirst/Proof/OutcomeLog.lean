import Mathlib.Data.List.Range
import Mathlib.Data.Set.Card
import SayFirst.Spec.OutcomeLog

/-!
# What the outcome log accounts for

* `after_numbered` — every number that was handed out has one place, whatever the sink and the clock
  do.
* `after_lined` — while no record is interrupted or unstamped, the numbers leave in order.
* `log_accounts_iff` — the runs in which every record is delivered, counted as dropped, or held.
-/

namespace SayFirst.Boundary

open Py

/-- The number of the record. -/
def Fate.sequence : Fate → ℕ
  | .delivered record | .refused record | .interrupted record => record.sequence
  | .shed sequence | .unstamped sequence => sequence

/-- A number that has no record any more: neither delivered nor counted. -/
def Fate.vanished : Fate → Bool
  | .interrupted _ | .unstamped _ => true
  | .delivered _ | .refused _ | .shed _ => false

/-- `dropped` counts the record. -/
def Fate.counted (fate : Fate) : Bool := fate.missed.isSome

/-- Each delivered record carries what was dropped before it left. -/
def Stamped (fates : List Fate) (dropped : ℕ) : Prop :=
  ∀ before record behind, fates = before ++ .delivered record :: behind →
    record.droppedBefore = dropped + before.countP Fate.counted

theorem Stamped.nil {dropped : ℕ} : Stamped [] dropped := by
  intro before record behind h
  simp at h

theorem countP_cons_counted (fate : Fate) (fates : List Fate) (dropped : ℕ) :
    dropped + (fate :: fates).countP Fate.counted =
      dropped + [fate].countP Fate.counted + fates.countP Fate.counted := by
  rw [← List.singleton_append, List.countP_append, Nat.add_assoc]

theorem Stamped.cons {fate : Fate} {fates : List Fate} {dropped : ℕ}
    (hhead : ∀ record, fate = .delivered record → record.droppedBefore = dropped)
    (hfates : Stamped fates (dropped + [fate].countP Fate.counted)) :
    Stamped (fate :: fates) dropped := by
  intro before record behind h
  cases before with
  | nil =>
    obtain ⟨rfl, -⟩ := List.cons.inj h
    simpa using hhead record rfl
  | cons first before =>
    obtain ⟨rfl, hsplit⟩ := List.cons.inj h
    rw [hfates before record behind hsplit]
    exact (countP_cons_counted fate before dropped).symm

theorem Stamped.append {fates more : List Fate} {dropped : ℕ} (h : Stamped fates dropped)
    (hmore : Stamped more (dropped + fates.countP Fate.counted)) :
    Stamped (fates ++ more) dropped := by
  induction fates generalizing dropped with
  | nil => simpa using hmore
  | cons fate fates ih =>
    refine Stamped.cons (fun record hrecord => ?_) (ih (fun before record behind hsplit => ?_) ?_)
    · exact h [] record fates (by rw [hrecord]; rfl)
    · rw [h (fate :: before) record behind (by rw [hsplit]; rfl), countP_cons_counted]
    · rwa [← countP_cons_counted]

namespace OutcomeLog

variable {log : OutcomeLog} {sink : OutcomeRecord → SinkAnswer}

/-- What a call makes of the log: which numbers leave it, in which order, and what is counted. -/
structure Settles (log log' : OutcomeLog) (fates : List Fate) : Prop where
  capacity : log'.capacity = log.capacity
  dropped : log'.dropped = log.dropped + fates.countP Fate.counted
  stamped : Stamped fates log.dropped
  bounded : 0 < log.capacity → log.pending.length ≤ log.capacity →
    log'.pending.length ≤ log.capacity
  numbered : (fates.map Fate.sequence ++ log'.pending.map (·.sequence)).Perm
    (log.pending.map (·.sequence) ++ List.range' (log.sequence + 1) (log'.sequence - log.sequence))
  lined : (∀ fate ∈ fates, ¬fate.vanished) →
    fates.map Fate.sequence ++ log'.pending.map (·.sequence) =
      log.pending.map (·.sequence) ++ List.range' (log.sequence + 1) (log'.sequence - log.sequence)
  grows : log.sequence ≤ log'.sequence

/-- The bound sheds the oldest record of a full log, and nothing else. -/
theorem shedding_cases (log : OutcomeLog) :
    log.shedding = (log, []) ∧ (log.pending.length = log.capacity → log.capacity = 0) ∨
    ∃ oldest pending, log.pending = oldest :: pending ∧
      log.shedding = ({ log with pending, dropped := log.dropped + 1 }, [.shed oldest.sequence]) := by
  unfold shedding
  by_cases hfull : log.pending.length = log.capacity
  · rw [if_pos hfull]
    cases hpending : log.pending with
    | nil => exact Or.inl ⟨rfl, fun _ => by rw [← hfull, hpending]; rfl⟩
    | cons oldest pending => exact Or.inr ⟨oldest, pending, rfl, rfl⟩
  · rw [if_neg hfull]
    exact Or.inl ⟨rfl, fun h => absurd h hfull⟩

theorem range'_self_one (n : ℕ) : List.range' (n + 1) (n + 1 - n) = [n + 1] := by
  rw [Nat.add_sub_cancel_left]
  rfl

theorem settles_record (capability decisionRef : Str) (outcomeDigest at_ : Option Str) :
    Settles log (log.record capability decisionRef outcomeDigest at_).1
      (log.record capability decisionRef outcomeDigest at_).2 := by
  unfold record
  rcases shedding_cases { log with sequence := log.sequence + 1 } with
    ⟨hshed, hroom⟩ | ⟨oldest, pending, hpending, hshed⟩
  · rw [hshed]
    cases at_ with
    | none =>
      refine ⟨rfl, rfl, Stamped.cons (by simp) Stamped.nil, fun _ h => h, ?_, ?_, Nat.le_succ _⟩
      · rw [range'_self_one]
        exact List.perm_append_comm
      · intro h
        exact absurd rfl (h (.unstamped (log.sequence + 1)) (by simp))
    | some at_ =>
      refine ⟨rfl, rfl, Stamped.nil, fun hpos h => ?_, ?_, fun _ => ?_, Nat.le_succ _⟩
      · simp only at hroom
        simp only [List.length_append, List.length_singleton]
        omega
      · rw [range'_self_one]
        simp
      · rw [range'_self_one]
        simp
  · rw [hshed]
    simp only at hpending
    cases at_ with
    | none =>
      refine ⟨rfl, rfl, Stamped.cons (by simp) (Stamped.cons (by simp) Stamped.nil),
        fun _ h => ?_, ?_, ?_, Nat.le_succ _⟩
      · rw [hpending] at h
        exact (Nat.le_succ _).trans h
      · rw [range'_self_one, hpending]
        exact (List.perm_append_comm).cons oldest.sequence
      · intro h
        exact absurd rfl (h (.unstamped (log.sequence + 1)) (by simp))
    | some at_ =>
      refine ⟨rfl, rfl, Stamped.cons (by simp) Stamped.nil, fun _ h => ?_, ?_, fun _ => ?_,
        Nat.le_succ _⟩
      · rw [hpending] at h
        simpa using h
      · rw [range'_self_one, hpending]
        simp [Fate.sequence]
      · rw [range'_self_one, hpending]
        simp [Fate.sequence]

/-- A flush empties the queue from the front; the marker is read as each record leaves. -/
theorem draining_spec (sink : OutcomeRecord → SinkAnswer) (pending : List PendingRecord)
    (dropped : ℕ) :
    (draining sink pending dropped).2.1 =
        dropped + (draining sink pending dropped).2.2.countP Fate.counted ∧
      Stamped (draining sink pending dropped).2.2 dropped ∧
      (draining sink pending dropped).2.2.map Fate.sequence ++
          (draining sink pending dropped).1.map (·.sequence) = pending.map (·.sequence) := by
  induction pending generalizing dropped with
  | nil => exact ⟨rfl, Stamped.nil, rfl⟩
  | cons first rest ih =>
    cases hanswer : sink (stamp first dropped) with
    | took =>
      obtain ⟨hcount, hstamped, hlined⟩ := ih dropped
      simp only [draining, hanswer]
      refine ⟨?_, Stamped.cons (fun record h => ?_) hstamped, congrArg (first.sequence :: ·) hlined⟩
      · rw [countP_cons_counted]
        exact hcount
      · cases h
        rfl
    | refused =>
      obtain ⟨hcount, hstamped, hlined⟩ := ih (dropped + 1)
      simp only [draining, hanswer]
      refine ⟨?_, Stamped.cons (by simp) hstamped, congrArg (first.sequence :: ·) hlined⟩
      rw [countP_cons_counted]
      exact hcount
    | interrupted =>
      simp only [draining, hanswer]
      exact ⟨rfl, Stamped.cons (by simp) Stamped.nil, rfl⟩

theorem settles_flush (sink : OutcomeRecord → SinkAnswer) :
    Settles log (log.flush sink).1 (log.flush sink).2 := by
  obtain ⟨hcount, hstamped, hlined⟩ := draining_spec sink log.pending log.dropped
  have hnone : List.range' (log.sequence + 1) (log.sequence - log.sequence) = [] := by
    rw [Nat.sub_self]
    rfl
  refine ⟨rfl, hcount, hstamped, fun _ h => ?_, ?_, fun _ => ?_, le_refl _⟩
  · have hlength := congrArg List.length hlined
    simp only [List.length_append, List.length_map] at hlength
    exact (by omega : (draining sink log.pending log.dropped).1.length ≤ log.capacity)
  · exact .of_eq (by rw [show (log.flush sink).1.sequence = log.sequence from rfl, hnone,
      List.append_nil]; exact hlined)
  · rw [show (log.flush sink).1.sequence = log.sequence from rfl, hnone, List.append_nil]
    exact hlined

end OutcomeLog

namespace Ledger

variable {l : Ledger}

/-- What holds of a ledger whatever its sink and its clock do. -/
structure Numbered (l : Ledger) : Prop where
  room : 0 < l.log.capacity
  bounded : l.log.pending.length ≤ l.log.capacity
  dropped : l.log.dropped = l.fates.countP Fate.counted
  stamped : Stamped l.fates 0
  numbered : (l.fates.map Fate.sequence ++ l.held).Perm (List.range' 1 l.log.sequence)
  lined : (∀ fate ∈ l.fates, ¬fate.vanished) →
    l.fates.map Fate.sequence ++ l.held = List.range' 1 l.log.sequence

theorem range'_one_append {m n : ℕ} (h : m ≤ n) :
    List.range' 1 m ++ List.range' (m + 1) (n - m) = List.range' 1 n := by
  have hrange := @List.range'_append 1 m (n - m) 1
  rwa [Nat.one_mul, Nat.add_comm 1 m, Nat.add_sub_cancel' h] at hrange

theorem Numbered.settles (h : l.Numbered) {log : OutcomeLog} {fates : List Fate}
    (hsettles : l.log.Settles log fates) : Numbered ⟨log, l.fates ++ fates⟩ := by
  have hrange := range'_one_append hsettles.grows
  refine ⟨hsettles.capacity ▸ h.room, ?_, ?_, ?_, ?_, fun hkept => ?_⟩
  · rw [hsettles.capacity]
    exact hsettles.bounded h.room h.bounded
  · rw [hsettles.dropped, h.dropped, List.countP_append]
  · refine h.stamped.append ?_
    rw [Nat.zero_add, ← h.dropped]
    exact hsettles.stamped
  · have hmore := (hsettles.numbered.append_left (l.fates.map Fate.sequence)).trans
      (.of_eq (List.append_assoc _ l.held _).symm)
    rw [← hrange, List.map_append, List.append_assoc]
    exact hmore.trans (h.numbered.append_right _)
  · have hfates := h.lined fun fate hmem => hkept fate (List.mem_append_left _ hmem)
    have hmore := hsettles.lined fun fate hmem => hkept fate (List.mem_append_right _ hmem)
    rw [← hrange, ← hfates, List.append_assoc, List.map_append, List.append_assoc]
    exact congrArg (l.fates.map Fate.sequence ++ ·) hmore

theorem Numbered.call (h : l.Numbered) (call : LogCall) : (l.call call).Numbered := by
  cases call with
  | record capability decisionRef outcomeDigest at_ =>
    exact h.settles (OutcomeLog.settles_record capability decisionRef outcomeDigest at_)
  | flush sink => exact h.settles (OutcomeLog.settles_flush sink)

/-- **Every number has one place**, in every run. -/
theorem after_numbered (h : l.Numbered) (calls : List LogCall) : (l.after calls).Numbered := by
  induction calls generalizing l with
  | nil => exact h
  | cons call calls ih => exact ih (h.call call)

theorem numbered_made {capacity : ℕ} {log : OutcomeLog} (h : OutcomeLog.made capacity = some log) :
    Numbered ⟨log, []⟩ := by
  unfold OutcomeLog.made at h
  split at h
  · cases h
  · cases h
    exact ⟨by simp only; omega, Nat.zero_le _, rfl, Stamped.nil, List.Perm.refl _, fun _ => rfl⟩

/-- What became of a record stays. -/
theorem fates_call (call : LogCall) : l.fates <+: (l.call call).fates := by
  cases call with
  | record capability decisionRef outcomeDigest at_ => exact List.prefix_append _ _
  | flush sink => exact List.prefix_append _ _

theorem fates_after (calls : List LogCall) : l.fates <+: (l.after calls).fates := by
  induction calls generalizing l with
  | nil => exact List.prefix_rfl
  | cons call calls ih => exact (fates_call call).trans ih

theorem mem_delivered {record : OutcomeRecord} :
    record ∈ l.delivered ↔ .delivered record ∈ l.fates := by
  unfold delivered
  rw [List.mem_filterMap]
  constructor
  · rintro ⟨fate, hmem, hfate⟩
    cases fate <;> cases hfate
    exact hmem
  · intro hmem
    exact ⟨_, hmem, rfl⟩

/-- What a ledger owes: each number is delivered, counted as dropped or held, in the order they were
made, and each delivered record says how many before it no run will deliver any more. -/
structure Accounts (l : Ledger) : Prop where
  partition : (l.delivered.map (·.sequence) ++ l.lost ++ l.held).Perm
    (List.range' 1 l.log.sequence)
  counted : l.log.dropped = l.lost.length
  ordered : (l.delivered.map (·.sequence)).Pairwise (· < ·)
  bounded : l.held.length ≤ l.log.capacity
  marked : ∀ record ∈ l.delivered, record.droppedBefore =
    {n | 1 ≤ n ∧ n < record.sequence ∧
      ∀ calls, n ∉ (l.after calls).delivered.map (·.sequence)}.ncard

/-- Each fate is a delivery, a loss that is counted, or neither. -/
theorem fates_perm (fates : List Fate) :
    (fates.map Fate.sequence).Perm
      ((fates.filterMap Fate.taken).map (·.sequence) ++ fates.filterMap Fate.missed ++
        (fates.filter Fate.vanished).map Fate.sequence) := by
  induction fates with
  | nil => exact List.Perm.refl _
  | cons fate fates ih =>
    cases fate with
    | delivered record => exact ih.cons record.sequence
    | refused record =>
      refine (ih.cons record.sequence).trans (List.Perm.trans ?_ (.of_eq (List.append_assoc _ _ _).symm))
      rw [List.append_assoc]
      exact List.perm_middle.symm
    | shed sequence =>
      refine (ih.cons sequence).trans (List.Perm.trans ?_ (.of_eq (List.append_assoc _ _ _).symm))
      rw [List.append_assoc]
      exact List.perm_middle.symm
    | interrupted record => exact (ih.cons record.sequence).trans List.perm_middle.symm
    | unstamped sequence => exact (ih.cons sequence).trans List.perm_middle.symm

/-- What is delivered leaves in the order of the fates. -/
theorem delivered_sublist (fates : List Fate) :
    ((fates.filterMap Fate.taken).map (·.sequence)).Sublist (fates.map Fate.sequence) := by
  induction fates with
  | nil => exact List.Sublist.slnil
  | cons fate fates ih =>
    cases fate with
    | delivered record => exact ih.cons_cons record.sequence
    | refused record => exact ih.cons record.sequence
    | shed sequence => exact ih.cons sequence
    | interrupted record => exact ih.cons record.sequence
    | unstamped sequence => exact ih.cons sequence

theorem length_lost : l.lost.length = l.fates.countP Fate.counted :=
  List.length_filterMap_eq_countP

/-- The numbers in front of a delivered record are those of the fates in front of it. -/
theorem Numbered.before (h : l.Numbered) (hkept : ∀ fate ∈ l.fates, ¬fate.vanished)
    {before behind : List Fate} {record : OutcomeRecord}
    (hsplit : l.fates = before ++ .delivered record :: behind) (n : ℕ) :
    n ∈ before.map Fate.sequence ↔ 1 ≤ n ∧ n < record.sequence := by
  have hlined := h.lined hkept
  rw [hsplit, List.map_append, List.map_cons, List.append_assoc, List.cons_append] at hlined
  have hmem : ∀ m, m ∈ List.range' 1 l.log.sequence ↔ 1 ≤ m ∧ m ≤ l.log.sequence := by
    intro m
    rw [List.mem_range'_1]
    omega
  have hsorted := List.pairwise_lt_range' (s := 1) (n := l.log.sequence)
  rw [← hlined] at hsorted hmem
  obtain ⟨-, hbehind, hbefore⟩ := List.pairwise_append.1 hsorted
  constructor
  · intro hn
    exact ⟨((hmem n).1 (List.mem_append_left _ hn)).1, hbefore n hn _ List.mem_cons_self⟩
  · rintro ⟨hpos, hlt⟩
    have hle := ((hmem record.sequence).1 (List.mem_append_right _ List.mem_cons_self)).2
    rcases List.mem_append.1 ((hmem n).2 ⟨hpos, by omega⟩) with hn | hn
    · exact hn
    · rcases List.mem_cons.1 hn with rfl | hn
      · exact absurd hlt (Nat.lt_irrefl _)
      · exact absurd ((List.pairwise_cons.1 hbehind).1 n hn) (by
          exact Nat.lt_asymm hlt)

/-- One number, one fate. -/
theorem Numbered.unique (h : l.Numbered) {fate fate' : Fate} (hmem : fate ∈ l.fates)
    (hmem' : fate' ∈ l.fates) (hsame : fate.sequence = fate'.sequence) : fate = fate' := by
  have hnodup : (l.fates.map Fate.sequence ++ l.held).Nodup :=
    h.numbered.nodup_iff.2 List.nodup_range'
  exact List.inj_on_of_nodup_map hnodup.of_append_left hmem hmem' hsame

/-- What is counted is never delivered, in any run. -/
theorem Numbered.never (h : l.Numbered) {fate : Fate} (hmem : fate ∈ l.fates)
    (hcounted : fate.counted) (calls : List LogCall) :
    fate.sequence ∉ (l.after calls).delivered.map (·.sequence) := by
  intro hdelivered
  obtain ⟨record, hrecord, hsame⟩ := List.mem_map.1 hdelivered
  have hfate : fate = .delivered record := (after_numbered h calls).unique
    ((fates_after calls).subset hmem) (mem_delivered.1 hrecord) hsame.symm
  rw [hfate] at hcounted
  cases hcounted

theorem Numbered.marked (h : l.Numbered) (hkept : ∀ fate ∈ l.fates, ¬fate.vanished)
    {record : OutcomeRecord} (hmem : record ∈ l.delivered) : record.droppedBefore =
      {n | 1 ≤ n ∧ n < record.sequence ∧
        ∀ calls, n ∉ (l.after calls).delivered.map (·.sequence)}.ncard := by
  obtain ⟨before, behind, hsplit⟩ := List.append_of_mem (mem_delivered.1 hmem)
  have hsub : ∀ fate ∈ before, fate ∈ l.fates := by
    rw [hsplit]
    exact fun fate hfate => List.mem_append_left _ hfate
  have hset : {n | 1 ≤ n ∧ n < record.sequence ∧
      ∀ calls, n ∉ (l.after calls).delivered.map (·.sequence)} =
      (((before.filter Fate.counted).map Fate.sequence).toFinset : Set ℕ) := by
    ext n
    rw [Finset.mem_coe, List.mem_toFinset, List.mem_map]
    constructor
    · rintro ⟨hpos, hlt, hnever⟩
      obtain ⟨fate, hfate, rfl⟩ := List.mem_map.1 ((h.before hkept hsplit n).2 ⟨hpos, hlt⟩)
      refine ⟨fate, List.mem_filter.2 ⟨hfate, ?_⟩, rfl⟩
      cases fate with
      | delivered earlier =>
        exact absurd (List.mem_map_of_mem (mem_delivered.2 (hsub _ hfate))) (hnever [])
      | refused _ => rfl
      | shed _ => rfl
      | interrupted _ => exact absurd rfl (hkept _ (hsub _ hfate))
      | unstamped _ => exact absurd rfl (hkept _ (hsub _ hfate))
    · rintro ⟨fate, hfate, rfl⟩
      obtain ⟨hfate, hcounted⟩ := List.mem_filter.1 hfate
      obtain ⟨hpos, hlt⟩ := (h.before hkept hsplit _).1 (List.mem_map_of_mem hfate)
      exact ⟨hpos, hlt, h.never (hsub fate hfate) hcounted⟩
  have hnodup : ((before.filter Fate.counted).map Fate.sequence).Nodup := by
    have hall : (l.fates.map Fate.sequence ++ l.held).Nodup :=
      h.numbered.nodup_iff.2 List.nodup_range'
    refine hall.of_append_left.sublist (List.Sublist.map _ ?_)
    rw [hsplit]
    exact List.filter_sublist.trans (List.sublist_append_left _ _)
  rw [h.stamped before record behind hsplit, hset, Set.ncard_coe_finset,
    List.toFinset_card_of_nodup hnodup, List.length_map, List.countP_eq_length_filter, Nat.zero_add]

theorem accounts_iff (h : l.Numbered) :
    Accounts l ↔ ∀ fate ∈ l.fates, ¬fate.vanished := by
  have hperm := fates_perm l.fates
  constructor
  · intro haccounts fate hmem hvanished
    have hfates := hperm.length_eq
    have hheld := h.numbered.length_eq
    have hparts := haccounts.partition.length_eq
    have hpos : 0 < (l.fates.filter Fate.vanished).length :=
      List.length_pos_of_mem (List.mem_filter.2 ⟨hmem, hvanished⟩)
    simp only [List.length_append, List.length_map, delivered, lost] at hfates hheld hparts
    omega
  · intro hkept
    have hnone : l.fates.filter Fate.vanished = [] := List.filter_eq_nil_iff.2 hkept
    rw [hnone, List.map_nil, List.append_nil] at hperm
    refine ⟨(hperm.symm.append_right _).trans h.numbered, ?_, ?_, ?_, fun _ => h.marked hkept⟩
    · rw [h.dropped, length_lost]
    · have hsorted := List.pairwise_lt_range' (s := 1) (n := l.log.sequence)
      rw [← h.lined hkept] at hsorted
      exact (List.pairwise_append.1 hsorted).1.sublist (delivered_sublist l.fates)
    · exact (List.length_map _).le.trans h.bounded

/-- **An outcome log accounts for every record it made exactly when no call of its sink was
interrupted and its clock never raised.** -/
theorem log_accounts_iff (capacity : ℕ) (log : OutcomeLog)
    (hmade : OutcomeLog.made capacity = some log) (calls : List LogCall) :
    Accounts (Ledger.after ⟨log, []⟩ calls) ↔
      ∀ fate ∈ (Ledger.after ⟨log, []⟩ calls).fates, ¬fate.vanished :=
  accounts_iff (after_numbered (numbered_made hmade) calls)

/-- Three records in a log of two, and a sink that refuses the second one. -/
def sampleCalls : List LogCall :=
  [.record (lit "example.effect") (lit "dec-1") none (some (lit "2026-01-05T10:00:00Z")),
    .record (lit "example.effect") (lit "dec-2") none (some (lit "2026-01-05T10:00:01Z")),
    .record (lit "example.effect") (lit "dec-3") none (some (lit "2026-01-05T10:00:02Z")),
    .flush fun record => if record.sequence = 2 then .refused else .took]

theorem log_accounts_iff_sample : Accounts (Ledger.after ⟨⟨[], 2, 0, 0⟩, []⟩ sampleCalls) ↔
    ∀ fate ∈ (Ledger.after ⟨⟨[], 2, 0, 0⟩, []⟩ sampleCalls).fates, ¬fate.vanished :=
  log_accounts_iff 2 ⟨[], 2, 0, 0⟩ rfl sampleCalls

/-- A sink that is interrupted with the one record there is: no count and no queue holds it. -/
theorem interrupted_record_vanishes : ¬∀ calls, Accounts (Ledger.after ⟨⟨[], 2, 0, 0⟩, []⟩ calls) := by
  intro h
  have hperm := (h [.record (lit "example.effect") (lit "dec-1") none
    (some (lit "2026-01-05T10:00:00Z")), .flush fun _ => .interrupted]).partition
  exact absurd hperm.length_eq (by decide)

end Ledger

end SayFirst.Boundary
