import SayFirst.Lib.Text
import Mathlib.Data.List.TakeWhile

/-!
# Files of lines

A text of lines, each ended by a newline, and behind the last newline what a write that
failed has left.

* `complete_terminated` — the complete lines are read, whatever stands behind them.
* `repaired_terminated` — cutting behind the last newline leaves the complete lines.
* `repaired_iff` — what is cut is what stands behind the last newline, or the text is longer
  behind it than the window.
-/

namespace SayFirst.Py

/-- The lines, each with its newline. -/
def terminated (lines : List Str) : Str := lines.flatMap (· ++ [10])

/-- `raw.rpartition(b"\n")`: what stands before the last newline. -/
def beforeLast (s : Str) : Str := (s.reverse.dropWhile (· ≠ 10)).tail.reverse

/-- `complete.split(b"\n") if complete else []` -/
def completeLines (s : Str) : List Str :=
  if beforeLast s = [] then [] else (beforeLast s).splitOn 10

/-- How much stands behind the last newline. -/
def tornLength (s : Str) : ℕ := (s.reverse.takeWhile (· ≠ 10)).length

/-- `tail.rindex(b"\n")`, when there is one. -/
def lastNewline (s : Str) : Option ℕ :=
  if s.contains 10 then some (s.length - 1 - tornLength s) else none

/-- A text that ends with a line, or is empty. -/
def Whole (s : Str) : Prop := s = [] ∨ s.getLast? = some 10

instance (s : Str) : Decidable (Whole s) := inferInstanceAs (Decidable (_ ∨ _))

/-- Cut behind the last newline within a window of the end, or at the beginning where the window
holds none. -/
def repaired (bound : ℕ) (s : Str) : Str :=
  if Whole s then s
  else
    let window := min s.length bound
    match lastNewline (s.drop (s.length - window)) with
    | some i => s.take (s.length - window + i + 1)
    | none => []

variable {lines : List Str} {torn : Str}

theorem terminated_append {lines' : List Str} :
    terminated (lines ++ lines') = terminated lines ++ terminated lines' := List.flatMap_append

theorem terminated_singleton {line : Str} : terminated [line] = line ++ [10] := by
  simp [terminated]

theorem terminated_eq (h : lines ≠ []) :
    terminated lines = [10].intercalate lines ++ [10] := by
  induction lines with
  | nil => exact absurd rfl h
  | cons line lines ih =>
    cases lines with
    | nil => simp [terminated, List.intercalate]
    | cons l ls =>
      have := ih (by simp)
      rw [← List.singleton_append, terminated_append, this, terminated_singleton]
      simp [List.intercalate]

theorem takeWhile_torn (h : 10 ∉ torn) {s : Str} :
    (torn.reverse ++ 10 :: s).takeWhile (· ≠ 10) = torn.reverse := by
  rw [List.takeWhile_append_of_pos]
  · simp
  · intro c hc
    have : c ≠ 10 := fun hc' => h (hc' ▸ List.mem_reverse.1 hc)
    simpa using this

theorem dropWhile_torn (h : 10 ∉ torn) {s : Str} :
    (torn.reverse ++ 10 :: s).dropWhile (· ≠ 10) = 10 :: s := by
  rw [List.dropWhile_append_of_pos]
  · simp
  · intro c hc
    have : c ≠ 10 := fun hc' => h (hc' ▸ List.mem_reverse.1 hc)
    simpa using this

theorem beforeLast_append {s : Str} (h : 10 ∉ torn) : beforeLast (s ++ 10 :: torn) = s := by
  unfold beforeLast
  rw [List.reverse_append, List.reverse_cons, List.append_assoc, List.singleton_append,
    dropWhile_torn h, List.tail_cons, List.reverse_reverse]

theorem beforeLast_torn (h : 10 ∉ torn) : beforeLast torn = [] := by
  have hall : torn.reverse.dropWhile (· ≠ 10) = [] := by
    rw [List.dropWhile_eq_nil_iff]
    intro c hc
    have : c ≠ 10 := fun hc' => h (hc' ▸ List.mem_reverse.1 hc)
    simpa using this
  rw [beforeLast, hall]
  rfl

/-- **The complete lines are read**, whatever a failed write left behind them. -/
theorem complete_terminated (hlines : ∀ line ∈ lines, line ≠ [] ∧ 10 ∉ line) (htorn : 10 ∉ torn) :
    completeLines (terminated lines ++ torn) = lines := by
  unfold completeLines
  by_cases hnil : lines = []
  · subst hnil
    have : terminated [] ++ torn = torn := rfl
    rw [this, beforeLast_torn htorn, if_pos rfl]
  · have hbefore : beforeLast (terminated lines ++ torn) = [10].intercalate lines := by
      rw [terminated_eq hnil, List.append_assoc, List.singleton_append, beforeLast_append htorn]
    have hne : [10].intercalate lines ≠ [] := by
      obtain ⟨line, rest, rfl⟩ := List.exists_cons_of_ne_nil hnil
      have := (hlines line (by simp)).1
      cases rest <;> simp [List.intercalate, List.intersperse, this]
    rw [hbefore, if_neg hne,
      List.splitOn_intercalate 10 (fun l hl => (hlines l hl).2) hnil]

/-- A whole text is its complete lines. -/
theorem whole_terminated : Whole (terminated lines) := by
  by_cases hnil : lines = []
  · exact .inl (by rw [hnil]; rfl)
  · refine .inr ?_
    rw [terminated_eq hnil, List.getLast?_append]
    rfl

theorem tornLength_append {s : Str} (h : 10 ∉ torn) : tornLength (s ++ 10 :: torn) = torn.length := by
  rw [tornLength, List.reverse_append, List.reverse_cons, List.append_assoc,
    List.singleton_append, takeWhile_torn h, List.length_reverse]

theorem not_whole_torn {s : Str} (h : 10 ∉ torn) (hne : torn ≠ []) : ¬Whole (s ++ torn) := by
  rintro (hnil | hlast)
  · exact hne (List.append_eq_nil_iff.1 hnil).2
  · rw [List.getLast?_append_of_ne_nil _ hne] at hlast
    exact h (List.mem_of_getLast? hlast)

/-- A file with a newline in the window is cut behind the last one. -/
theorem repaired_append {s : Str} {bound : ℕ} (h : 10 ∉ torn) (hbound : torn.length < bound) :
    repaired bound (s ++ 10 :: torn) = s ++ [10] := by
  by_cases hne : torn = []
  · subst hne
    rw [repaired, if_pos (.inr (by simp))]
  · have hnot : ¬Whole (s ++ 10 :: torn) := by
      have := not_whole_torn (s := s ++ [10]) h hne
      rwa [List.append_assoc, List.singleton_append] at this
    have hlen : (s ++ 10 :: torn).length = s.length + 1 + torn.length := by
      simp only [List.length_append, List.length_cons]
      omega
    -- the window reaches behind the last newline
    obtain ⟨k, hk, hwindow⟩ : ∃ k, k ≤ s.length ∧
        (s ++ 10 :: torn).length - min (s ++ 10 :: torn).length bound = k := ⟨_, by omega, rfl⟩
    have htail : (s ++ 10 :: torn).drop k = s.drop k ++ 10 :: torn :=
      List.drop_append_of_le_length hk
    have hlast : lastNewline (s.drop k ++ 10 :: torn) = some (s.length - k) := by
      rw [lastNewline, if_pos (by simp), tornLength_append h]
      simp only [List.length_append, List.length_drop, List.length_cons, Option.some.injEq]
      omega
    unfold repaired
    rw [if_neg hnot]
    simp only [hwindow, htail, hlast]
    rw [show k + (s.length - k) + 1 = (s ++ [10]).length by simp; omega]
    have hsplit : s ++ 10 :: torn = (s ++ [10]) ++ torn := by simp
    rw [hsplit]
    exact List.take_left

theorem repaired_torn {bound : ℕ} (h : 10 ∉ torn) : repaired bound torn = [] := by
  by_cases hne : torn = []
  · subst hne
    rfl
  · have hnot : ¬Whole torn := by simpa using not_whole_torn (s := []) h hne
    have hmem : ∀ n, 10 ∉ torn.drop n := fun n hn => h (List.mem_of_mem_drop hn)
    unfold repaired
    rw [if_neg hnot]
    simp [lastNewline, hmem]

/-- **Cutting behind the last newline leaves the complete lines**, when what stands behind it is
shorter than the window. -/
theorem repaired_terminated {bound : ℕ} (htorn : 10 ∉ torn) (hbound : torn.length < bound) :
    repaired bound (terminated lines ++ torn) = terminated lines := by
  by_cases hnil : lines = []
  · subst hnil
    exact repaired_torn htorn
  · rw [terminated_eq hnil, List.append_assoc, List.singleton_append,
      repaired_append htorn hbound]

/-! ## Texts cut behind their last newline -/

/-- The text up to its last newline, and with it. -/
def upToNewline (s : Str) : Str := s.take (s.length - tornLength s)

/-- A text with a newline, split at the last one. -/
theorem exists_lastNewline {s : Str} (h : 10 ∈ s) :
    ∃ before torn, s = before ++ 10 :: torn ∧ 10 ∉ torn := by
  obtain ⟨torn, before, heq, hnot⟩ := List.eq_append_cons_of_mem (List.mem_reverse.2 h)
  refine ⟨before.reverse, torn.reverse, ?_, fun hmem => hnot (List.mem_reverse.1 hmem)⟩
  have := congrArg List.reverse heq
  simpa using this

theorem tornLength_of_notMem {s : Str} (h : 10 ∉ s) : tornLength s = s.length := by
  have hall : s.reverse.takeWhile (· ≠ 10) = s.reverse := by
    rw [List.takeWhile_eq_self_iff]
    intro c hc
    have : c ≠ 10 := fun hc' => h (hc' ▸ List.mem_reverse.1 hc)
    simpa using this
  rw [tornLength, hall, List.length_reverse]

theorem upToNewline_append {s : Str} (h : 10 ∉ torn) : upToNewline (s ++ 10 :: torn) = s ++ [10] := by
  have hlength : (s ++ 10 :: torn).length - torn.length = (s ++ [10]).length := by
    simp only [List.length_append, List.length_cons, List.length_nil]
    omega
  have hsplit : s ++ 10 :: torn = (s ++ [10]) ++ torn := by simp
  rw [upToNewline, tornLength_append h, hlength, hsplit]
  exact List.take_left

theorem upToNewline_of_notMem {s : Str} (h : 10 ∉ s) : upToNewline s = [] := by
  rw [upToNewline, tornLength_of_notMem h, Nat.sub_self, List.take_zero]

theorem upToNewline_whole {s : Str} (h : Whole s) : upToNewline s = s := by
  rcases h with rfl | hlast
  · rfl
  · obtain ⟨before, rfl⟩ : ∃ before, s = before ++ [10] := by
      obtain ⟨t, rfl⟩ := List.getLast?_eq_some_iff.1 hlast
      exact ⟨t, rfl⟩
    exact upToNewline_append (by simp)

/-- A window that begins behind the last newline holds none. -/
theorem lastNewline_short {s : Str} {n : ℕ} (h : 10 ∉ torn) (hn : s.length < n) :
    lastNewline ((s ++ 10 :: torn).drop n) = none := by
  have hmem : 10 ∉ (s ++ 10 :: torn).drop n := by
    obtain ⟨k, rfl⟩ : ∃ k, n = s.length + 1 + k := ⟨n - (s.length + 1), by omega⟩
    have hsplit : s ++ 10 :: torn = (s ++ [10]) ++ torn := by simp
    have hlength : s.length + 1 = (s ++ [10]).length := by simp
    rw [hsplit, hlength, List.drop_length_add_append]
    exact fun hmem => h (List.mem_of_mem_drop hmem)
  rw [lastNewline, if_neg (by simpa using hmem)]

/-- A window that begins before the last newline is cut behind it. -/
theorem lastNewline_long {s : Str} {n : ℕ} (h : 10 ∉ torn) (hn : n ≤ s.length) :
    lastNewline ((s ++ 10 :: torn).drop n) = some (s.length - n) := by
  rw [List.drop_append_of_le_length hn, lastNewline, if_pos (by simp), tornLength_append h]
  simp only [List.length_append, List.length_drop, List.length_cons, Option.some.injEq]
  omega

/-- Where the window begins behind the last newline, the whole text is cut. -/
theorem repaired_long {s : Str} {bound : ℕ} (h : 10 ∉ torn) (hbound : bound ≤ torn.length)
    (hpos : 0 < bound) : repaired bound (s ++ 10 :: torn) = [] := by
  have hne : torn ≠ [] := fun hnil => by
    rw [hnil, List.length_nil] at hbound
    omega
  have hnot : ¬Whole (s ++ 10 :: torn) := by
    have := not_whole_torn (s := s ++ [10]) h hne
    rwa [List.append_assoc, List.singleton_append] at this
  have hlen : (s ++ 10 :: torn).length = s.length + 1 + torn.length := by
    simp only [List.length_append, List.length_cons]
    omega
  unfold repaired
  rw [if_neg hnot]
  simp only
  rw [lastNewline_short h (by omega)]

/-- What is cut is a whole text. -/
theorem repaired_whole {s : Str} {bound : ℕ} (hpos : 0 < bound) : Whole (repaired bound s) := by
  by_cases hmem : 10 ∈ s
  · obtain ⟨before, torn, rfl, htorn⟩ := exists_lastNewline hmem
    by_cases hbound : torn.length < bound
    · rw [repaired_append htorn hbound]
      exact .inr (by simp)
    · rw [repaired_long htorn (by omega) hpos]
      exact .inl rfl
  · rw [repaired_torn hmem]
    exact .inl rfl

/-- **What is cut is what stands behind the last newline, exactly when the window reaches one.** -/
theorem repaired_iff {s : Str} {bound : ℕ} (hpos : 0 < bound) :
    repaired bound s = upToNewline s ↔ (10 ∈ s → tornLength s < bound) := by
  by_cases hmem : 10 ∈ s
  · obtain ⟨before, torn, rfl, htorn⟩ := exists_lastNewline hmem
    rw [tornLength_append htorn, upToNewline_append htorn]
    constructor
    · intro heq _
      by_contra hlong
      rw [repaired_long htorn (by omega) hpos] at heq
      exact absurd heq.symm (by simp)
    · intro hbound
      exact repaired_append htorn (hbound hmem)
  · rw [repaired_torn hmem, upToNewline_of_notMem hmem]
    exact ⟨fun _ h => absurd h hmem, fun _ => rfl⟩

/-- What is cut from lines is complete lines and the beginning of the next one. -/
theorem take_terminated : ∀ {lines : List Str} {k : ℕ}, (∀ line ∈ lines, 10 ∉ line) →
    k < (terminated lines).length →
    ∃ written rest torn, lines = written ++ rest ∧ rest ≠ [] ∧
      (terminated lines).take k = terminated written ++ torn ∧ 10 ∉ torn := by
  intro lines
  induction lines with
  | nil => intro k _ hk; exact absurd hk (Nat.not_lt_zero _)
  | cons line lines ih =>
    intro k hlines hk
    have hline : 10 ∉ line := hlines line (by simp)
    have hsplit : terminated (line :: lines) = (line ++ [10]) ++ terminated lines := by
      simp [terminated]
    by_cases hshort : k ≤ line.length
    · refine ⟨[], line :: lines, line.take k, rfl, by simp, ?_, fun h => hline (List.mem_of_mem_take h)⟩
      rw [hsplit, List.append_assoc, List.take_append_of_le_length hshort]
      rfl
    · have hrest : k - (line.length + 1) < (terminated lines).length := by
        rw [hsplit, List.length_append, List.length_append, List.length_singleton] at hk
        omega
      obtain ⟨written, rest, torn, heq, hne, htake, htorn⟩ :=
        ih (fun l hl => hlines l (by simp [hl])) hrest
      refine ⟨line :: written, rest, torn, by rw [heq]; rfl, hne, ?_, htorn⟩
      have hk' : k = (line ++ [10]).length + (k - (line.length + 1)) := by
        rw [List.length_append, List.length_singleton]
        omega
      rw [hsplit, hk', List.take_length_add_append, htake]
      simp [terminated]

end SayFirst.Py
