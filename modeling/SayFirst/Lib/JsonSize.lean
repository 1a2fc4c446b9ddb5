import SayFirst.Lib.Interpreter
import Mathlib.Algebra.BigOperators.Group.List.Basic

/-!
# How long a canonical text is

The members of an object are written in key order, so the length of its text is that of
its members in any order.

* `length_dumps_obj`, `length_dumps_arr` — a text is as long as what it is put together of.
* `length_quote` — a text without an escape is written as it stands.
* `length_decimal_le` — a number below `10 ^ k` has at most `k` digits.
-/

namespace SayFirst.Py.Json

variable {repr : PyFloat → Str}

/-- How long a text is, commas included. -/
theorem length_joined : ∀ xs : List Str,
    (joined xs).length = (xs.map List.length).sum + (xs.length - 1) := by
  intro xs
  induction xs with
  | nil => rfl
  | cons x xs ih =>
    cases xs with
    | nil => simp [joined]
    | cons y ys =>
      rw [joined, List.length_append, List.length_cons, ih]
      simp only [List.map_cons, List.sum_cons, List.length_cons]
      omega

theorem dumpsItems_eq (vs : List Json) : dumpsItems repr vs = vs.map (dumps repr) := by
  induction vs with
  | nil => rfl
  | cons v vs ih => rw [dumpsItems, ih, List.map_cons]

theorem dumpsMembers_eq (ms : List (Str × Json)) :
    dumpsMembers repr ms = ms.map fun m => (m.1, dumps repr m.2) := by
  induction ms with
  | nil => rfl
  | cons m ms ih =>
    obtain ⟨k, v⟩ := m
    rw [dumpsMembers, ih, List.map_cons]

theorem length_dumps_arr (vs : List Json) : (dumps repr (.arr vs)).length =
    (vs.map fun v => (dumps repr v).length).sum + (vs.length - 1) + 2 := by
  rw [dumps, List.length_cons, List.length_append, length_joined, dumpsItems_eq, List.map_map,
    List.length_map]
  rfl

/-- How much a member of an object writes. -/
def memberSize (repr : PyFloat → Str) (m : Str × Json) : ℕ :=
  (quote m.1).length + (dumps repr m.2).length + 1

theorem length_dumps_obj (ms : List (Str × Json)) : (dumps repr (.obj ms)).length =
    (ms.map (memberSize repr)).sum + (ms.length - 1) + 2 := by
  have hperm := List.perm_insertionSort (fun a b : Str × Str => Str.le a.1 b.1)
    (ms.map fun m => (m.1, dumps repr m.2))
  have hsum := ((hperm.map member).map List.length).sum_eq
  have hmember : ((ms.map fun m => (m.1, dumps repr m.2)).map member).map List.length =
      ms.map (memberSize repr) := by
    rw [List.map_map, List.map_map]
    refine List.map_congr_left fun m _ => ?_
    simp only [Function.comp_apply, member, memberSize, List.length_append, List.length_cons]
    omega
  rw [dumps, dumpsMembers_eq, List.length_cons, List.length_append, length_joined, byKey, hsum,
    hmember, List.length_map, hperm.length_eq, List.length_map]
  rfl

/-- A character JSON writes as it stands. -/
def plain (c : ℕ) : Bool := 32 ≤ c && c < 127 && c != 34 && c != 92

theorem length_quote {s : Str} (h : s.all plain = true) : (quote s).length = s.length + 2 := by
  have hsame : s.flatMap escapeChar = s := by
    induction s with
    | nil => rfl
    | cons c s ih =>
      simp only [List.all_cons, Bool.and_eq_true, plain, decide_eq_true_eq, bne_iff_ne] at h
      have hc : escapeChar c = [c] := by
        rw [escapeChar, if_neg h.1.1.2, if_neg h.1.2, if_pos ⟨h.1.1.1.1, h.1.1.1.2⟩]
      rw [List.flatMap_cons, hc, ih (by simpa [plain] using h.2)]
      rfl
  rw [quote, hsame]
  simp

end SayFirst.Py.Json

namespace SayFirst.Py

theorem length_decimalAux : ∀ {fuel n k : ℕ} {acc : Str}, n < 10 ^ (k + 1) →
    (decimalAux fuel n acc).length ≤ acc.length + k + 1 := by
  intro fuel
  induction fuel with
  | zero => intro n k acc _; simp only [decimalAux]; omega
  | succ fuel ih =>
    intro n k acc h
    unfold decimalAux
    split
    · simp only [List.length_cons]; omega
    · rename_i hten
      cases k with
      | zero => exact absurd (by simpa using h) hten
      | succ k =>
        have hn : n / 10 < 10 ^ (k + 1) := by
          rw [Nat.div_lt_iff_lt_mul (by omega)]
          rwa [← Nat.pow_succ]
        have := @ih (n / 10) k ((48 + n % 10) :: acc) hn
        simp only [List.length_cons] at this
        omega

theorem length_decimal_le {n k : ℕ} (h : n < 10 ^ (k + 1)) : (decimal n).length ≤ k + 1 := by
  have := @length_decimalAux (n + 1) n k [] h
  simpa [decimal] using this

theorem length_padded {n k : ℕ} (h : n < 10 ^ (k + 1)) : (padded (k + 1) n).length = k + 1 := by
  have := length_decimal_le h
  rw [padded, List.length_append, List.length_replicate]
  omega

end SayFirst.Py
