import Mathlib.Data.List.Basic

/-!
# Runs of a step function

`run step s es` takes the events `es` one by one and fails when one of them is
not enabled. A predicate every step preserves holds at the end of every run, one
that steps under a condition preserve at the end of every run of such steps, and
one that only those steps preserve at the end of no other. `watch` keeps the
history of what the steps let see.
-/

namespace SayFirst

variable {σ ε : Type*} (step : σ → ε → Option σ)

/-- The state after the events, when each of them was enabled. -/
def run : σ → List ε → Option σ
  | s, [] => some s
  | s, e :: es => (step s e).bind fun s' => run s' es

/-- `s'` is reached from `s` by some sequence of events. -/
def Reaches (s s' : σ) : Prop := ∃ es, run step s es = some s'

/-- Every event meets the condition in the state it is taken in. -/
def Meets (ok : σ → ε → Prop) : σ → List ε → Prop
  | _, [] => True
  | s, e :: es => ok s e ∧ ∀ s', step s e = some s' → Meets ok s' es

variable {step}

theorem run_append {s : σ} : ∀ {es es' : List ε}, run step s (es ++ es') =
    (run step s es).bind fun s' => run step s' es' := by
  intro es
  induction es generalizing s with
  | nil => intro es'; rfl
  | cons e es ih =>
    intro es'
    simp only [List.cons_append, run]
    cases step s e with
    | none => rfl
    | some s' => exact ih

/-- **The run rule**: what every step preserves, every run preserves. -/
theorem run_preserves {P : σ → Prop} (hstep : ∀ s e s', P s → step s e = some s' → P s') :
    ∀ {es : List ε} {s s' : σ}, P s → run step s es = some s' → P s' := by
  intro es
  induction es with
  | nil => intro s s' hs h; cases h; exact hs
  | cons e es ih =>
    intro s s' hs h
    simp only [run, Option.bind_eq_some_iff] at h
    obtain ⟨t, ht, h⟩ := h
    exact ih (hstep s e t hs ht) h

theorem Reaches.preserves {P : σ → Prop} (hstep : ∀ s e s', P s → step s e = some s' → P s')
    {s s' : σ} (h : Reaches step s s') (hs : P s) : P s' := by
  obtain ⟨es, h⟩ := h
  exact run_preserves hstep hs h

/-- What every step that meets the condition preserves, every run of such steps preserves. -/
theorem Meets.preserves {P : σ → Prop} {ok : σ → ε → Prop}
    (hstep : ∀ s e s', P s → ok s e → step s e = some s' → P s') :
    ∀ {es : List ε} {s s' : σ}, Meets step ok s es → P s → run step s es = some s' → P s' := by
  intro es
  induction es with
  | nil => intro s s' _ hs h; cases h; exact hs
  | cons e es ih =>
    intro s s' hok hs h
    simp only [run, Option.bind_eq_some_iff] at h
    obtain ⟨t, ht, h⟩ := h
    exact ih (hok.2 t ht) (hstep s e t hs hok.1 ht) h

instance Meets.decidable {ok : σ → ε → Prop} [∀ s e, Decidable (ok s e)] :
    ∀ (s : σ) (es : List ε), Decidable (Meets step ok s es)
  | _, [] => .isTrue trivial
  | s, e :: es =>
    have : Decidable (∀ s', step s e = some s' → Meets step ok s' es) :=
      match h : step s e with
      | none => .isTrue fun _ ht => by cases ht
      | some t =>
        have : Decidable (Meets step ok t es) := Meets.decidable t es
        decidable_of_iff (Meets step ok t es) ⟨fun hok _ ht => Option.some.inj ht ▸ hok,
          fun hok => hok t rfl⟩
    inferInstanceAs (Decidable (_ ∧ _))

theorem Meets.cons {ok : σ → ε → Prop} {s s' : σ} {e : ε} {es : List ε} (hstep : step s e = some s')
    (hok : ok s e) (h : Meets step ok s' es) : Meets step ok s (e :: es) :=
  ⟨hok, fun t ht => by rw [hstep] at ht; exact Option.some.inj ht ▸ h⟩

theorem Meets.append {ok : σ → ε → Prop} : ∀ {es es' : List ε} {s : σ}, Meets step ok s es →
    (∀ s', run step s es = some s' → Meets step ok s' es') → Meets step ok s (es ++ es') := by
  intro es
  induction es with
  | nil => intro es' s _ hlast; exact hlast s rfl
  | cons e es ih =>
    intro es' s hok hlast
    refine ⟨hok.1, fun t ht => ih (hok.2 t ht) fun s' h => hlast s' ?_⟩
    simp only [run, ht, Option.bind_some]
    exact h

/-- **The exact condition**: what holds after a step just where it held before and the step meets
the condition, holds after a run just where all its steps do. -/
theorem meets_iff {P Q : σ → Prop} {ok : σ → ε → Prop}
    (hQ : ∀ s e s', Q s → step s e = some s' → Q s')
    (hstep : ∀ s e s', Q s → step s e = some s' → (P s' ↔ P s ∧ ok s e)) :
    ∀ {es : List ε} {s s' : σ}, Q s → run step s es = some s' →
      (P s' ↔ P s ∧ Meets step ok s es) := by
  intro es
  induction es with
  | nil =>
    intro s s' _ h
    cases h
    exact (and_iff_left trivial).symm
  | cons e es ih =>
    intro s s' hs h
    simp only [run, Option.bind_eq_some_iff] at h
    obtain ⟨t, ht, h⟩ := h
    rw [ih (hQ s e t hs ht) h, hstep s e t hs ht, and_assoc]
    refine and_congr_right fun _ => and_congr_right fun _ => ⟨fun h t' ht' => ?_, fun h => h t ht⟩
    rw [ht] at ht'
    cases ht'
    exact h

/-- Every state the events lead through satisfies the predicate. -/
def Throughout (step : σ → ε → Option σ) (P : σ → Prop) : σ → List ε → Prop
  | s, [] => P s
  | s, e :: es => P s ∧ ∀ s', step s e = some s' → Throughout step P s' es

/-- **The exact condition, throughout**: what just the steps that meet the condition preserve
holds throughout a run just where all its steps do. -/
theorem throughout_iff {P Q : σ → Prop} {ok : σ → ε → Prop}
    (hQ : ∀ s e s', Q s → step s e = some s' → Q s')
    (hstep : ∀ s e s', Q s → P s → step s e = some s' → (P s' ↔ ok s e)) :
    ∀ {es : List ε} {s s' : σ}, Q s → P s → run step s es = some s' →
      (Throughout step P s es ↔ Meets step ok s es) := by
  intro es
  induction es with
  | nil => intro s s' _ hP _; exact iff_of_true hP trivial
  | cons e es ih =>
    intro s s' hs hP h
    simp only [run, Option.bind_eq_some_iff] at h
    obtain ⟨t, ht, h⟩ := h
    have hafter := hstep s e t hs hP ht
    constructor
    · intro ⟨_, hrest⟩
      have hthrough := hrest t ht
      have hPt : P t := by
        cases es with
        | nil => exact hthrough
        | cons _ _ => exact hthrough.1
      refine ⟨hafter.1 hPt, fun t' ht' => ?_⟩
      rw [ht] at ht'
      cases ht'
      exact (ih (hQ s e t hs ht) hPt h).1 hthrough
    · intro ⟨hok, hrest⟩
      refine ⟨hP, fun t' ht' => ?_⟩
      rw [ht] at ht'
      cases ht'
      exact (ih (hQ s e t hs ht) (hafter.2 hok) h).2 (hrest t ht)

/-! ## Histories -/

/-- The step function beside the history of what its steps let see. -/
def watch {α : Type*} (step : σ → ε → Option σ) (seen : σ → ε → List α) :
    σ × List α → ε → Option (σ × List α) :=
  fun s e => (step s.1 e).map fun s' => (s', seen s.1 e ++ s.2)

theorem watch_eq {α : Type*} {seen : σ → ε → List α} {s t : σ × List α} {e : ε}
    (h : watch step seen s e = some t) : step s.1 e = some t.1 ∧ t.2 = seen s.1 e ++ s.2 := by
  obtain ⟨s', hs', rfl⟩ := Option.map_eq_some_iff.1 h
  exact ⟨hs', rfl⟩

/-- Every run has its history. -/
theorem watch_run {α : Type*} {seen : σ → ε → List α} : ∀ {es : List ε} {s s' : σ} {l : List α},
    run step s es = some s' → ∃ l', run (watch step seen) (s, l) es = some (s', l') := by
  intro es
  induction es with
  | nil => intro s s' l h; cases h; exact ⟨l, rfl⟩
  | cons e es ih =>
    intro s s' l h
    simp only [run, Option.bind_eq_some_iff] at h
    obtain ⟨t, ht, h⟩ := h
    obtain ⟨l', hl'⟩ := @ih t s' (seen s e ++ l) h
    refine ⟨l', ?_⟩
    simp only [run, watch, ht, Option.map_some, Option.bind_some]
    exact hl'

end SayFirst
