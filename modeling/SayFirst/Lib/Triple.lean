import Mathlib.Data.List.Basic

/-!
# Calls that may end early

`Triple P m Q E`: begun in `P`, the call `m` returns in `Q` of its answer, or ends early, on an
exception or a crash, in `E`. What it has changed until then stays.

* `Triple.bind` — the parts of a call one after the other.
* `Keeps` — a predicate the call leaves true wherever it ends.
-/

namespace SayFirst

variable {σ ε α β : Type}

def Triple (P : σ → Prop) (m : EStateM ε σ α) (Q : α → σ → Prop) (E : σ → Prop) : Prop :=
  ∀ s, P s →
    match m s with
    | .ok a s' => Q a s'
    | .error _ s' => E s'

/-- The predicate holds wherever the call ends, when it held where it began. -/
def Keeps (P : σ → Prop) (m : EStateM ε σ α) : Prop := Triple P m (fun _ => P) P

variable {P P' E E' : σ → Prop} {Q Q' : α → σ → Prop} {m : EStateM ε σ α}

theorem Triple.ok (h : Triple P m Q E) {s s' : σ} {a : α} (hs : P s) (hm : m s = .ok a s') :
    Q a s' := by
  have := h s hs
  rwa [hm] at this

theorem Triple.error (h : Triple P m Q E) {s s' : σ} {e : ε} (hs : P s) (hm : m s = .error e s') :
    E s' := by
  have := h s hs
  rwa [hm] at this

theorem Triple.weaken (h : Triple P m Q E) (hP : ∀ s, P' s → P s) (hQ : ∀ a s, Q a s → Q' a s)
    (hE : ∀ s, E s → E' s) : Triple P' m Q' E' := by
  intro s hs
  have := h s (hP s hs)
  cases hm : m s with
  | ok a s' =>
    rw [hm] at this
    exact hQ a s' this
  | error e s' =>
    rw [hm] at this
    exact hE s' this

/-- The parts of a call, one after the other. -/
theorem Triple.bind {R : β → σ → Prop} {f : α → EStateM ε σ β} (hm : Triple P m Q E)
    (hf : ∀ a, Triple (Q a) (f a) R E) : Triple P (m >>= f) R E := by
  intro s hs
  have := hm s hs
  change match EStateM.bind m f s with | .ok b s' => R b s' | .error _ s' => E s'
  unfold EStateM.bind
  cases h : m s with
  | ok a s' =>
    rw [h] at this
    exact hf a s' this
  | error e s' =>
    rw [h] at this
    exact this

theorem bind_of_ok {f : α → EStateM ε σ β} {s s' : σ} {a : α} (h : m s = .ok a s') :
    (m >>= f) s = f a s' := by
  change EStateM.bind m f s = f a s'
  unfold EStateM.bind
  rw [h]

theorem bind_of_error {f : α → EStateM ε σ β} {s s' : σ} {e : ε} (h : m s = .error e s') :
    (m >>= f) s = .error e s' := by
  change EStateM.bind m f s = .error e s'
  unfold EStateM.bind
  rw [h]

theorem triple_pure {a : α} (h : ∀ s, P s → Q a s) :
    Triple P (pure a : EStateM ε σ α) Q E := fun s hs => h s hs

theorem triple_throw {e : ε} (h : ∀ s, P s → E s) :
    Triple P (throw e : EStateM ε σ α) Q E := fun s hs => h s hs

theorem triple_get {Q : σ → σ → Prop} (h : ∀ s, P s → Q s s) :
    Triple P (get : EStateM ε σ σ) Q E := fun s hs => h s hs

theorem triple_modify {f : σ → σ} {Q : PUnit → σ → Prop} (h : ∀ s, P s → Q ⟨⟩ (f s)) :
    Triple P (modify f : EStateM ε σ PUnit) Q E := fun s hs => h s hs

/-- What ends early goes on in its handler, from where it ended. -/
theorem Triple.tryCatch {handler : ε → EStateM ε σ α} (hm : Triple P m Q E')
    (hhandler : ∀ e, Triple E' (handler e) Q E) : Triple P (tryCatch m handler) Q E := by
  intro s hs
  have := hm s hs
  change match EStateM.tryCatch m handler s with | .ok a s' => Q a s' | .error _ s' => E s'
  unfold EStateM.tryCatch
  cases h : m s with
  | ok a s' =>
    rw [h] at this
    exact this
  | error e s' =>
    rw [h] at this
    exact hhandler e s' this

theorem Keeps.bind {f : α → EStateM ε σ β} (hm : Keeps P m) (hf : ∀ a, Keeps P (f a)) :
    Keeps P (m >>= f) := Triple.bind hm hf

theorem keeps_pure {a : α} : Keeps P (pure a : EStateM ε σ α) := triple_pure fun _ hs => hs

theorem keeps_throw {e : ε} : Keeps P (throw e : EStateM ε σ α) := triple_throw fun _ hs => hs

theorem keeps_get : Keeps P (get : EStateM ε σ σ) := triple_get fun _ hs => hs

end SayFirst
