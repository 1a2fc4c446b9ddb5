import Mathlib.Data.List.Basic

/-!
# One machine in terms of another

A machine answers each call and goes on in a new state. One machine is simulated by another when
every call of the first is matched by a sequence of calls of the second that ends in a related state.

* `Machine.run` — the answers to a sequence of calls, and the state behind them.
* `Matched` — calls, and the sequences that match them, one after the other.
* `simulates` — the forward simulation.
-/

namespace SayFirst

/-- What a call answers, and the state behind it. -/
abbrev Machine (σ ε α : Type*) := σ → ε → α × σ

namespace Machine

variable {σ ε α : Type*}

/-- The answers to the calls, and the state behind them. -/
def run (m : Machine σ ε α) : σ → List ε → List α × σ
  | s, [] => ([], s)
  | s, e :: es =>
    let (answers, last) := run m (m s e).2 es
    ((m s e).1 :: answers, last)

variable (m : Machine σ ε α)

theorem run_append (s : σ) : ∀ es es' : List ε, m.run s (es ++ es') =
    ((m.run s es).1 ++ (m.run (m.run s es).2 es').1, (m.run (m.run s es).2 es').2) := by
  intro es
  induction es generalizing s with
  | nil => intro es'; rfl
  | cons e es ih =>
    intro es'
    simp only [List.cons_append, run, ih]

end Machine

variable {σ ε α τ φ β : Type*}

/-- Each call and its answer are matched by the next calls of the other machine and their answers. -/
inductive Matched (M : ε → α → List φ → List β → Prop) :
    List ε → List α → List φ → List β → Prop
  | nil : Matched M [] [] [] []
  | cons {e : ε} {a : α} {fs fs' : List φ} {bs bs' : List β} {es : List ε} {as : List α}
      (h : M e a fs bs) (rest : Matched M es as fs' bs') :
      Matched M (e :: es) (a :: as) (fs ++ fs') (bs ++ bs')

/-- **The forward simulation**: what matches every call matches every run. -/
theorem simulates {m : Machine σ ε α} {n : Machine τ φ β} {R : σ → τ → Prop}
    {M : ε → α → List φ → List β → Prop}
    (hstep : ∀ s t e, R s t →
      ∃ fs, M e (m s e).1 fs (n.run t fs).1 ∧ R (m s e).2 (n.run t fs).2) :
    ∀ (es : List ε) (s : σ) (t : τ), R s t →
      ∃ fs, Matched M es (m.run s es).1 fs (n.run t fs).1 ∧ R (m.run s es).2 (n.run t fs).2 := by
  intro es
  induction es with
  | nil => intro s t h; exact ⟨[], .nil, h⟩
  | cons e es ih =>
    intro s t h
    obtain ⟨fs, hmatch, hrelated⟩ := hstep s t e h
    obtain ⟨fs', hmatched, hlast⟩ := ih _ _ hrelated
    refine ⟨fs ++ fs', ?_, ?_⟩
    · rw [n.run_append]
      exact .cons hmatch hmatched
    · rw [n.run_append]
      exact hlast

end SayFirst
