import SayFirst.Lib.Heap

/-!
# Sweeping what is due from a lazy index

Records are held under keys, and some have an instant at which they are due. An index of instants
and keys covers them: every record is in it at its instant. Entries for records that moved on stay
where they are, so a sweep asks the record, and an entry that came too early is put back at the
record's own instant.

* `Covers` — the invariant, and what keeps it.
* `sweep` — the loop over the front of the index.
* `sweep_scans` — it takes exactly what a scan of all records would.
* `sweep_enough` — it comes to an end by itself.
-/

namespace SayFirst.DueIndex

open Py

variable {K R : Type*}

/-- The order of the entries follows their instants. -/
structure ByInstant (le : ℤ × K → ℤ × K → Bool) : Prop where
  le_of_true : ∀ a b, le a b = true → a.1 ≤ b.1
  le_of_false : ∀ a b, le a b = false → b.1 ≤ a.1

/-- Every record is in the index at its instant. -/
structure Covers (instant : R → Option ℤ) (held : K → Option R) (index : List (ℤ × K)) : Prop where
  inOrder : index.Pairwise fun a b => a.1 ≤ b.1
  indexed : ∀ k r t, held k = some r → instant r = some t → (t, k) ∈ index

/-- The record is due. -/
def due (instant : R → Option ℤ) (now : ℤ) (r : R) : Bool := (instant r).any (· ≤ now)

variable {le : ℤ × K → ℤ × K → Bool} {instant : R → Option ℤ} {held held' : K → Option R}
  {index rest : List (ℤ × K)} {now at_ t : ℤ} {k : K} {r : R}

theorem due_of_some (h : instant r = some t) : due instant now r = true ↔ t ≤ now := by
  unfold due
  rw [h]
  simp

theorem not_due_of_none (h : instant r = none) : due instant now r = false := by
  unfold due
  rw [h]
  rfl

/-! ## The invariant -/

theorem mem_heappush {x e : ℤ × K} : e ∈ heappush le x index ↔ e = x ∨ e ∈ index :=
  (heappush_perm le x index).mem_iff.trans List.mem_cons

theorem heappush_inOrder (hle : ByInstant le) (x : ℤ × K)
    (h : index.Pairwise fun a b => a.1 ≤ b.1) :
    (heappush le x index).Pairwise fun a b => a.1 ≤ b.1 := by
  unfold heappush
  induction index with
  | nil => exact List.pairwise_singleton _ _
  | cons e index ih =>
    obtain ⟨hhead, htail⟩ := List.pairwise_cons.1 h
    rw [List.orderedInsert_cons]
    split
    next hbefore =>
      refine List.pairwise_cons.2 ⟨fun b hb => ?_, h⟩
      have hxe : x.1 ≤ e.1 := hle.le_of_true x e hbefore
      obtain rfl | hb := List.mem_cons.1 hb
      · exact hxe
      · exact hxe.trans (hhead b hb)
    next hbehind =>
      refine List.pairwise_cons.2 ⟨fun b hb => ?_, ih htail⟩
      obtain rfl | hb := (@mem_heappush _ le _ _ _).1 hb
      · exact hle.le_of_false b e (by simpa using hbehind)
      · exact hhead b hb

namespace Covers

/-- A new entry does no harm. -/
theorem push (hle : ByInstant le) (h : Covers instant held index) (x : ℤ × K) :
    Covers instant held (heappush le x index) where
  inOrder := heappush_inOrder hle x h.inOrder
  indexed k r t hr ht := mem_heappush.2 (.inr (h.indexed k r t hr ht))

/-- The front is taken off where no record is due at it. -/
theorem pop (h : Covers instant held ((at_, k) :: rest))
    (hfront : ∀ r, held k = some r → instant r ≠ some at_) : Covers instant held rest where
  inOrder := (List.pairwise_cons.1 h.inOrder).2
  indexed k' r t hr ht := by
    obtain heq | hmem := List.mem_cons.1 (h.indexed k' r t hr ht)
    · cases heq
      exact absurd ht (hfront r hr)
    · exact hmem

/-- Records that were held with the same instant are covered. -/
theorem frame (h : Covers instant held index)
    (hsame : ∀ k r t, held' k = some r → instant r = some t →
      ∃ r', held k = some r' ∧ instant r' = some t) : Covers instant held' index where
  inOrder := h.inOrder
  indexed k r t hr ht := by
    obtain ⟨r', hr', ht'⟩ := hsame k r t hr ht
    exact h.indexed k r' t hr' ht'

/-- A record that is put with an entry at its instant is covered. -/
theorem put (h : Covers instant held index) (hothers : ∀ k' ≠ k, held' k' = held k')
    (hmine : ∀ r t, held' k = some r → instant r = some t → (t, k) ∈ index) :
    Covers instant held' index where
  inOrder := h.inOrder
  indexed k' r t hr ht := by
    by_cases hk : k' = k
    · subst hk
      exact hmine r t hr ht
    · exact h.indexed k' r t (hothers k' hk ▸ hr) ht

/-- Where no entry is due, no record is. -/
theorem nothing_due (h : Covers instant held index) (hlater : ∀ e ∈ index, now < e.1)
    (hr : held k = some r) : due instant now r = false := by
  cases ht : instant r with
  | none => exact not_due_of_none ht
  | some t =>
    have hnow : now < t := hlater (t, k) (h.indexed k r t hr ht)
    rw [Bool.eq_false_iff]
    exact fun hdue => absurd ((due_of_some ht).1 hdue) (not_le.2 hnow)

/-- The front is the earliest entry. -/
theorem later (h : Covers instant held ((at_, k) :: rest)) (hnow : now < at_) :
    ∀ e ∈ (at_, k) :: rest, now < e.1 := by
  intro e he
  obtain rfl | he := List.mem_cons.1 he
  · exact hnow
  · exact hnow.trans_le ((List.pairwise_cons.1 h.inOrder).1 e he)

end Covers

/-! ## The sweep -/

/-- What a sweep leaves, and the records it took, in the order it took them. -/
structure Swept (K R : Type*) where
  held : K → Option R
  index : List (ℤ × K)
  taken : List (K × R)

section

variable (le instant) (now) (after : R → Option R)

/-- The loop over the front of the index: what is due is put in its place by `after`, or dropped. -/
def sweep [DecidableEq K] : ℕ → (K → Option R) → List (ℤ × K) → Swept K R
  | 0, held, index => ⟨held, index, []⟩
  | _ + 1, held, [] => ⟨held, [], []⟩
  | turns + 1, held, (at_, k) :: rest =>
    if now < at_ then ⟨held, (at_, k) :: rest, []⟩
    else
      match held k with
      | none => sweep turns held rest
      | some r =>
        match instant r with
        | none => sweep turns held rest
        | some t =>
          if now < t then sweep turns held (heappush le (t, k) rest)
          else
            let swept := sweep turns (fun k' => if k' = k then after r else held k') rest
            { swept with taken := (k, r) :: swept.taken }

/-- What a scan of all records leaves under a key. -/
def scanned (held : K → Option R) (k : K) : Option R :=
  (held k).bind fun r => if due instant now r then after r else some r

end

variable {after : R → Option R}

variable (instant now after) in
/-- A sweep took what a scan of all records would take, and left what it would leave. -/
structure Scans (held : K → Option R) (swept : Swept K R) : Prop where
  leaves : ∀ k, swept.held k = scanned instant now after held k
  once : (swept.taken.map Prod.fst).Nodup
  takes : ∀ k r, (k, r) ∈ swept.taken ↔ held k = some r ∧ due instant now r = true
  covers : Covers instant swept.held swept.index
  nothingDue : ∀ e ∈ swept.index, now < e.1

/-- A sweep that finds nothing due. -/
theorem scans_nothing (h : Covers instant held index) (hlater : ∀ e ∈ index, now < e.1) :
    Scans instant now after held ⟨held, index, []⟩ where
  leaves k := by
    change held k = scanned instant now after held k
    unfold scanned
    cases hr : held k with
    | none => rfl
    | some r =>
      rw [Option.bind_some, h.nothing_due hlater hr]
      rfl
  once := List.nodup_nil
  takes k r := by
    refine ⟨fun hmem => (by cases hmem), fun ⟨hr, hdue⟩ => ?_⟩
    rw [h.nothing_due hlater hr] at hdue
    cases hdue
  covers := h
  nothingDue := hlater

variable [DecidableEq K]

/-- A sweep that takes the record at the front, and goes on. -/
theorem scans_taken (hr : held k = some r) (hdue : due instant now r = true)
    (hafter : ∀ r', after r = some r' → due instant now r' = false) {swept : Swept K R}
    (h : Scans instant now after (fun k' => if k' = k then after r else held k') swept) :
    Scans instant now after held { swept with taken := (k, r) :: swept.taken } where
  leaves k' := by
    rw [h.leaves]
    unfold scanned
    simp only
    by_cases hk : k' = k
    · subst hk
      rw [if_pos rfl, hr, Option.bind_some, if_pos hdue]
      cases hr' : after r with
      | none => rfl
      | some r' =>
        rw [Option.bind_some, hafter r' hr']
        rfl
    · rw [if_neg hk]
  once := by
    refine List.nodup_cons.2 ⟨fun hmem => ?_, h.once⟩
    obtain ⟨⟨k', r'⟩, hmem', rfl⟩ := List.mem_map.1 hmem
    obtain ⟨hr', hdue'⟩ := (h.takes k' r').1 hmem'
    rw [if_pos rfl] at hr'
    rw [hafter r' hr'] at hdue'
    cases hdue'
  takes k' r' := by
    rw [List.mem_cons, h.takes]
    constructor
    · rintro (heq | ⟨hr', hdue'⟩)
      · cases heq
        exact ⟨hr, hdue⟩
      · split at hr'
        · rw [hafter r' hr'] at hdue'
          cases hdue'
        · exact ⟨hr', hdue'⟩
    · rintro ⟨hr', hdue'⟩
      by_cases hk : k' = k
      · subst hk
        rw [hr] at hr'
        cases hr'
        exact .inl rfl
      · exact .inr ⟨by rwa [if_neg hk], hdue'⟩
  covers := h.covers
  nothingDue := h.nothingDue

/-- **A sweep takes exactly what a scan of all records would**, where what it puts in a record's
place has no instant, and it has a turn for every entry that is due. -/
theorem sweep_scans (hle : ByInstant le) (hafter : ∀ r r', after r = some r' → instant r' = none) :
    ∀ {n : ℕ} {held : K → Option R} {index : List (ℤ × K)}, Covers instant held index →
      index.countP (·.1 ≤ now) ≤ n → Scans instant now after held (sweep le instant now after n held index) := by
  intro n
  induction n with
  | zero =>
    intro held index h hcount
    have hlater : ∀ e ∈ index, now < e.1 := by
      intro e he
      have hnot := List.countP_eq_zero.1 (Nat.le_zero.1 hcount) e he
      simpa using hnot
    exact scans_nothing h hlater
  | succ n ih =>
    intro held index h hcount
    cases index with
    | nil => exact scans_nothing h (by simp)
    | cons e rest =>
      obtain ⟨at_, k⟩ := e
      rw [sweep]
      split
      next hnow => exact scans_nothing h (h.later hnow)
      next hnow =>
        have hrest : rest.countP (·.1 ≤ now) ≤ n := by
          rw [List.countP_cons_of_pos (by simpa using hnow)] at hcount
          omega
        cases hr : held k with
        | none => exact ih (h.pop fun r hr' => by rw [hr] at hr'; cases hr') hrest
        | some r =>
          simp only
          cases ht : instant r with
          | none =>
            refine ih (h.pop fun r' hr' => ?_) hrest
            rw [hr] at hr'
            cases hr'
            rw [ht]
            simp
          | some t =>
            simp only
            split
            next hlate =>
              have hpop : Covers instant held rest := h.pop fun r' hr' => by
                rw [hr] at hr'
                cases hr'
                rw [ht]
                rintro ⟨⟩
                exact hnow hlate
              refine ih (hpop.push hle (t, k)) ?_
              rw [(heappush_perm le (t, k) rest).countP_eq, List.countP_cons_of_neg (by simpa using hlate)]
              exact hrest
            next hdue =>
              refine scans_taken hr ((due_of_some ht).2 (not_lt.1 hdue))
                (fun r' hr' => not_due_of_none (hafter r r' hr')) (ih ?_ hrest)
              have hafterwards : Covers instant (fun k' => if k' = k then after r else held k')
                  ((at_, k) :: rest) :=
                h.put (fun k' hk' => if_neg hk') fun r' t' hr' ht' => by
                  rw [if_pos rfl] at hr'
                  rw [hafter r r' hr'] at ht'
                  cases ht'
              refine hafterwards.pop fun r' hr' => ?_
              rw [if_pos rfl] at hr'
              rw [hafter r r' hr']
              simp

/-- **A sweep comes to an end by itself**: with a turn for every entry that is due, no further turn
changes what it does. -/
theorem sweep_enough : ∀ {n m : ℕ} {held : K → Option R} {index : List (ℤ × K)},
    index.countP (·.1 ≤ now) ≤ n → n ≤ m →
      sweep le instant now after m held index = sweep le instant now after n held index := by
  intro n
  induction n with
  | zero =>
    intro m held index hcount _
    cases m with
    | zero => rfl
    | succ m =>
      cases index with
      | nil => rfl
      | cons e rest =>
        obtain ⟨at_, k⟩ := e
        have hnow := List.countP_eq_zero.1 (Nat.le_zero.1 hcount) (at_, k) List.mem_cons_self
        have hlater : now < at_ := by simpa using hnow
        unfold sweep
        rw [if_pos hlater]
  | succ n ih =>
    intro m held index hcount hle
    obtain ⟨m, rfl⟩ : ∃ m', m = m' + 1 := ⟨m - 1, by omega⟩
    have hle' : n ≤ m := by omega
    cases index with
    | nil => rfl
    | cons e rest =>
      obtain ⟨at_, k⟩ := e
      unfold sweep
      split
      next hnow => rfl
      next hnow =>
        have hrest : rest.countP (·.1 ≤ now) ≤ n := by
          rw [List.countP_cons_of_pos (by simpa using hnow)] at hcount
          omega
        cases held k with
        | none => exact ih hrest hle'
        | some r =>
          simp only
          cases instant r with
          | none => exact ih hrest hle'
          | some t =>
            simp only
            split
            next hlate =>
              refine ih ?_ hle'
              rw [(heappush_perm le (t, k) rest).countP_eq, List.countP_cons_of_neg (by simpa using hlate)]
              exact hrest
            next hdue => rw [ih hrest hle']

end SayFirst.DueIndex
