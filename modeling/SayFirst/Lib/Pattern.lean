import SayFirst.Lib.Text

/-!
# What a pattern matches

* `fullmatch_alt`, `fullmatch_seq`, `fullmatch_star_cls` — how a match is put together.
* `fullmatch_times_cls` — a class repeated matches the texts of that length.
* `avoids_fullmatch` — a match has none of the code points its pattern avoids.
-/

namespace SayFirst.Py

namespace Pattern

theorem fullmatch_alt (a b : Pattern) (s : Str) :
    (alt a b).fullmatch s = (a.fullmatch s || b.fullmatch s) := by
  induction s generalizing a b with
  | nil => rfl
  | cons c s ih => exact ih (a.deriv c) (b.deriv c)

theorem fullmatch_seq {a b : Pattern} {s t : Str} (ha : a.fullmatch s = true)
    (hb : b.fullmatch t = true) : (seq a b).fullmatch (s ++ t) = true := by
  induction s generalizing a with
  | nil =>
    have hnull : a.nullable = true := ha
    cases t with
    | nil =>
      have hb' : b.nullable = true := hb
      change (a.nullable && b.nullable) = true
      rw [hnull, hb', Bool.true_and]
    | cons c t =>
      change (deriv c (seq a b)).fullmatch t = true
      rw [deriv, if_pos hnull, fullmatch_alt, Bool.or_eq_true]
      exact .inr hb
  | cons c s ih =>
    have hrest : (seq (a.deriv c) b).fullmatch (s ++ t) = true := ih ha
    change (deriv c (seq a b)).fullmatch (s ++ t) = true
    rw [deriv]
    split
    · rw [fullmatch_alt, hrest, Bool.true_or]
    · exact hrest

theorem fullmatch_star_cls {p : ℕ → Bool} {s : Str} (h : ∀ c ∈ s, p c = true) :
    (star (cls p)).fullmatch s = true := by
  induction s with
  | nil => rfl
  | cons c s ih =>
    change (deriv c (star (cls p))).fullmatch s = true
    rw [deriv, deriv, if_pos (h c List.mem_cons_self)]
    exact @fullmatch_seq _ _ [] _ rfl (ih fun d hd => h d (List.mem_cons_of_mem _ hd))

theorem fullmatch_none (s : Str) : (none : Pattern).fullmatch s = false := by
  induction s with
  | nil => rfl
  | cons c s ih => exact ih

theorem fullmatch_none_seq (p : Pattern) (s : Str) : (seq none p).fullmatch s = false := by
  induction s with
  | nil => rfl
  | cons c s ih => exact ih

theorem fullmatch_empty_seq (p : Pattern) (s : Str) : (seq empty p).fullmatch s = p.fullmatch s := by
  cases s with
  | nil => rfl
  | cons c s =>
    change (alt (seq none p) (deriv c p)).fullmatch s = (deriv c p).fullmatch s
    rw [fullmatch_alt, fullmatch_none_seq, Bool.false_or]

/-- `p{n}` of a class matches the texts of `n` characters of the class. -/
theorem fullmatch_times_cls {p : ℕ → Bool} : ∀ {n : ℕ} {s : Str},
    (times (cls p) n).fullmatch s = true ↔ s.length = n ∧ s.all p = true := by
  intro n
  induction n with
  | zero =>
    intro s
    cases s with
    | nil => exact iff_of_true rfl ⟨rfl, rfl⟩
    | cons c s =>
      refine iff_of_false ?_ fun h => by cases h.1
      change ¬ (none : Pattern).fullmatch s = true
      rw [fullmatch_none]
      exact Bool.false_ne_true
  | succ n ih =>
    intro s
    cases s with
    | nil => exact iff_of_false Bool.false_ne_true fun h => by cases h.1
    | cons c s =>
      change (deriv c (seq (cls p) (times (cls p) n))).fullmatch s = true ↔ _
      have hd : deriv c (seq (cls p) (times (cls p) n)) =
          seq (deriv c (cls p)) (times (cls p) n) := rfl
      rw [hd, deriv, List.length_cons, List.all_cons, Bool.and_eq_true]
      split
      · rename_i hc
        rw [fullmatch_empty_seq, ih, Nat.add_right_cancel_iff]
        exact ⟨fun h => ⟨h.1, hc, h.2⟩, fun h => ⟨h.1, h.2.2⟩⟩
      · rename_i hc
        refine iff_of_false ?_ fun h => hc h.2.1
        rw [fullmatch_none_seq]
        exact Bool.false_ne_true

/-- No text matches. -/
def dead : Pattern → Bool
  | none => true
  | empty => false
  | cls _ => false
  | seq a b => a.dead || b.dead
  | alt a b => a.dead && b.dead
  | star _ => false

/-- No class of the pattern admits the code point. -/
def avoids (c : ℕ) : Pattern → Bool
  | none => true
  | empty => true
  | cls p => !p c
  | seq a b => a.avoids c && b.avoids c
  | alt a b => a.avoids c && b.avoids c
  | star a => a.avoids c

theorem dead_nullable {p : Pattern} (h : p.dead = true) : p.nullable = false := by
  induction p with
  | none => rfl
  | empty => cases h
  | cls _ => rfl
  | seq a b iha ihb =>
    simp only [dead, Bool.or_eq_true] at h
    rcases h with h | h
    · simp only [nullable, iha h, Bool.false_and]
    · simp only [nullable, ihb h, Bool.and_false]
  | alt a b iha ihb =>
    simp only [dead, Bool.and_eq_true] at h
    simp only [nullable, iha h.1, ihb h.2, Bool.or_false]
  | star _ _ => cases h

theorem dead_deriv {p : Pattern} (c : ℕ) (h : p.dead = true) : (p.deriv c).dead = true := by
  induction p with
  | none => rfl
  | empty => cases h
  | cls _ => cases h
  | seq a b iha ihb =>
    simp only [dead, Bool.or_eq_true] at h
    simp only [deriv]
    rcases h with h | h
    · rw [dead_nullable h]
      simp only [Bool.false_eq_true, if_false, dead, iha h, Bool.true_or]
    · split <;> simp only [dead, ihb h, h, Bool.or_true, Bool.and_true]
  | alt a b iha ihb =>
    simp only [dead, Bool.and_eq_true] at h
    simp only [deriv, dead, iha h.1, ihb h.2, Bool.and_true]
  | star _ _ => cases h

theorem avoids_deriv_dead {p : Pattern} {c : ℕ} (h : p.avoids c = true) :
    (p.deriv c).dead = true := by
  induction p with
  | none => rfl
  | empty => rfl
  | cls q =>
    simp only [avoids, Bool.not_eq_true'] at h
    simp only [deriv, h, Bool.false_eq_true, if_false, dead]
  | seq a b iha ihb =>
    simp only [avoids, Bool.and_eq_true] at h
    simp only [deriv]
    split <;> simp only [dead, iha h.1, ihb h.2, Bool.true_or, Bool.and_true]
  | alt a b iha ihb =>
    simp only [avoids, Bool.and_eq_true] at h
    simp only [deriv, dead, iha h.1, ihb h.2, Bool.and_true]
  | star a iha => simp only [deriv, dead, iha h, Bool.true_or]

theorem avoids_deriv {p : Pattern} {c : ℕ} (d : ℕ) (h : p.avoids c = true) :
    (p.deriv d).avoids c = true := by
  induction p with
  | none => rfl
  | empty => rfl
  | cls q =>
    simp only [deriv]
    split <;> rfl
  | seq a b iha ihb =>
    simp only [avoids, Bool.and_eq_true] at h
    simp only [deriv]
    split <;> simp only [avoids, iha h.1, ihb h.2, h.2, Bool.and_true]
  | alt a b iha ihb =>
    simp only [avoids, Bool.and_eq_true] at h
    simp only [deriv, avoids, iha h.1, ihb h.2, Bool.and_true]
  | star a iha =>
    have ha : a.avoids c = true := h
    simp only [deriv, avoids, iha h, ha, Bool.and_true]

theorem avoids_upTo {p : Pattern} {c : ℕ} (h : p.avoids c = true) :
    ∀ n, (upTo p n).avoids c = true := by
  intro n
  induction n with
  | zero => rfl
  | succ n ih => simp only [upTo, avoids, h, ih, Bool.and_true]

theorem dead_fullmatch {p : Pattern} (h : p.dead = true) (s : Str) : p.fullmatch s = false := by
  unfold fullmatch
  induction s generalizing p with
  | nil => exact dead_nullable h
  | cons c s ih => exact ih (dead_deriv c h)

/-- What a pattern matches has none of the code points it avoids. -/
theorem avoids_fullmatch {p : Pattern} {c : ℕ} (h : p.avoids c = true) {s : Str}
    (hmatch : p.fullmatch s = true) : c ∉ s := by
  induction s generalizing p with
  | nil => exact List.not_mem_nil
  | cons d s ih =>
    have hrest : (p.deriv d).fullmatch s = true := hmatch
    intro hmem
    rcases List.mem_cons.1 hmem with rfl | hmem
    · rw [dead_fullmatch (avoids_deriv_dead h)] at hrest
      cases hrest
    · exact ih (avoids_deriv d h) hrest hmem

end Pattern

end SayFirst.Py
