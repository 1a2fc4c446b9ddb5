import Mathlib.Data.List.Basic

/-!
# Which exceptions a computation raises

`Raises p x`: the computation `x` ends in an exception of the class `p`. The lemmas say
what a composed computation raises by what its parts raise and return, so that the exact
inputs on which an exception leaves a reader are read off its definition.
-/

namespace SayFirst

variable {ε α β : Type} {p : ε → Prop} {x : Except ε α}

def Raises (p : ε → Prop) (x : Except ε α) : Prop := ∃ e, x = .error e ∧ p e

def Returns (x : Except ε α) : Prop := ∃ a, x = .ok a

@[simp] theorem raises_ok {a : α} : Raises p (.ok a : Except ε α) ↔ False := by simp [Raises]

@[simp] theorem raises_pure {a : α} : Raises p (pure a : Except ε α) ↔ False := raises_ok

@[simp] theorem raises_error {e : ε} : Raises p (.error e : Except ε α) ↔ p e := by
  simp [Raises]

@[simp] theorem returns_ok {a : α} : Returns (.ok a : Except ε α) ↔ True := by simp [Returns]

@[simp] theorem returns_pure {a : α} : Returns (pure a : Except ε α) ↔ True := returns_ok

@[simp] theorem returns_error {e : ε} : Returns (.error e : Except ε α) ↔ False := by
  simp [Returns]

theorem raises_bind {f : α → Except ε β} :
    Raises p (x >>= f) ↔ Raises p x ∨ ∃ a, x = .ok a ∧ Raises p (f a) := by
  cases x with
  | error e => simp [Bind.bind, Except.bind]
  | ok a => simp [Bind.bind, Except.bind]

@[simp] theorem raises_map {f : α → β} : Raises p (x.map f) ↔ Raises p x := by
  cases x <;> simp [Except.map]

@[simp] theorem raises_functor_map {f : α → β} : Raises p (f <$> x) ↔ Raises p x := raises_map

theorem bind_ok_iff {f : α → Except ε β} {b : β} :
    (x >>= f) = .ok b ↔ ∃ a, x = .ok a ∧ f a = .ok b := by
  cases x with
  | error e => simp [Bind.bind, Except.bind]
  | ok a => simp [Bind.bind, Except.bind]

theorem returns_bind {f : α → Except ε β} :
    Returns (x >>= f) ↔ ∃ a, x = .ok a ∧ Returns (f a) := by
  cases x with
  | error e => simp [Bind.bind, Except.bind]
  | ok a => simp [Bind.bind, Except.bind]

/-- A computation that returns nothing raises something. -/
theorem returns_or_raises (x : Except ε α) : Returns x ∨ Raises (fun _ => True) x := by
  cases x with
  | error e => exact .inr ⟨e, rfl, trivial⟩
  | ok a => exact .inl ⟨a, rfl⟩

/-- A loop raises at the first item whose step raises. -/
theorem raises_mapM {f : α → Except ε β} {l : List α} :
    Raises p (l.mapM f) ↔
      ∃ before a after, l = before ++ a :: after ∧ (∀ b ∈ before, Returns (f b)) ∧
        Raises p (f a) := by
  induction l with
  | nil => simp
  | cons a l ih =>
    rw [List.mapM_cons, raises_bind]
    constructor
    · rintro (h | ⟨b, hb, h⟩)
      · exact ⟨[], a, l, rfl, by simp, h⟩
      · rw [raises_bind, ih] at h
        obtain ⟨before, c, after, rfl, hbefore, hc⟩ | ⟨bs, -, h⟩ := h
        · refine ⟨a :: before, c, after, rfl, ?_, hc⟩
          intro d hd
          obtain rfl | hd := List.mem_cons.mp hd
          · exact ⟨b, hb⟩
          · exact hbefore d hd
        · exact absurd h (by simp)
    · rintro ⟨before, c, after, heq, hbefore, hc⟩
      cases before with
      | nil =>
        obtain ⟨rfl, rfl⟩ := List.cons.inj heq
        exact .inl hc
      | cons d before =>
        obtain ⟨rfl, rfl⟩ := List.cons.inj heq
        obtain ⟨b, hb⟩ := hbefore a (by simp)
        refine .inr ⟨b, hb, ?_⟩
        rw [raises_bind, ih]
        exact .inl ⟨before, c, after, rfl, fun d hd => hbefore d (by simp [hd]), hc⟩

end SayFirst
