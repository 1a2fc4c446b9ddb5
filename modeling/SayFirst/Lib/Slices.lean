import Mathlib.Data.List.Basic

/-!
# A list in slices

`slices n l` is `[l[i:i + n] for i in range(0, len(l), n)]`. The slices are the list
again, and none is empty or longer than `n`.
-/

namespace SayFirst

variable {α : Type*} {n : ℕ} {l : List α}

/-- `range(0, len(l), n)`, and the slice of `n` from each. -/
def slices (n : ℕ) (l : List α) : List (List α) :=
  (List.range ((l.length + n - 1) / n)).map fun k => (l.drop (k * n)).take n

theorem slices_nil : slices n ([] : List α) = [] := by
  cases n with
  | zero => simp [slices]
  | succ n => simp [slices]

theorem flatten_slices_take (n : ℕ) (l : List α) (m : ℕ) :
    ((List.range m).map fun k => (l.drop (k * n)).take n).flatten = l.take (m * n) := by
  induction m with
  | zero => simp
  | succ m ih =>
    rw [List.range_succ, List.map_append, List.flatten_append, ih, Nat.succ_mul, List.take_add]
    simp

/-- **The slices are the list.** -/
theorem flatten_slices (hn : 0 < n) (l : List α) : (slices n l).flatten = l := by
  rw [slices, flatten_slices_take]
  refine List.take_of_length_le ?_
  have := Nat.div_add_mod (l.length + n - 1) n
  have := Nat.mod_lt (l.length + n - 1) hn
  rw [Nat.mul_comm]
  omega

theorem length_of_mem_slices (hn : 0 < n) {s : List α} (h : s ∈ slices n l) :
    1 ≤ s.length ∧ s.length ≤ n := by
  obtain ⟨k, hk, rfl⟩ := List.mem_map.1 h
  have hk := List.mem_range.1 hk
  have hlt : k * n < l.length := by
    have := (Nat.lt_div_iff_mul_lt hn).1 hk
    omega
  rw [List.length_take, List.length_drop]
  omega

/-- A slice is made of what follows one another in the list. -/
theorem sublist_of_mem_slices {s : List α} (h : s ∈ slices n l) : s.Sublist l := by
  obtain ⟨k, -, rfl⟩ := List.mem_map.1 h
  exact (List.take_sublist _ _).trans (List.drop_sublist _ _)

/-- A list no longer than a slice is one slice. -/
theorem slices_of_length_le (hl : l ≠ []) (h : l.length ≤ n) : slices n l = [l] := by
  have hpos : 0 < l.length := List.length_pos_iff.2 hl
  have hone : (l.length + n - 1) / n = 1 := by
    rw [Nat.div_eq_iff (by omega)]
    omega
  rw [slices, hone]
  simp [List.take_of_length_le h]

end SayFirst
