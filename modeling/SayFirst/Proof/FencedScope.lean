import SayFirst.Proof.ClientTotal
import SayFirst.Spec.DecisionFile

/-!
# An append to a fenced scope waits for itself

Under the exclusive lock of the file the append of a fenced scope recovers the tail, and reads
the file again: through another description, for which it waits on the lock it holds.

* `Waits` — what a call meets on its way to that read.
* `append_waits` — such a call never ends, and any other ends with the file not read again.
* `append_unblocked_iff` — when a call ends.
-/

namespace SayFirst.Plane.DecisionFile

open Py
open SayFirst.Contract (Decision)
open SayFirst.Client (ClientHost)

variable {α β : Type} {py : ClientHost} {scope epoch : Str} {host : Host} {d : Decision}
  {content : Option Str} {kept : Option ScopeState} {recovered drawn : ℕ}

/-- A call on the file `content` with the index `kept`, before it has taken a lock. -/
def Store.begin (content : Option Str) (kept : Option ScopeState) (recovered drawn : ℕ) : Store where
  content := content
  state := kept
  recoveredBytes := recovered
  drawn := drawn
  locks := []
  opened := 0
  events := []

/-- The index the call finds: the one that is kept, or the one the file gives. -/
def found (py : ClientHost) (scope : Str) (host : Host) (content : Option Str)
    (kept : Option ScopeState) (drawn : ℕ) : Option ScopeState :=
  match kept, content with
  | some state, _ => some state
  | none, none => some ⟨host.storeIds drawn, 1, [], none, false⟩
  | none, some raw => if host.fails .read then none else rebuild py scope (host.storeIds drawn) raw

/-- The call ends, and writes nothing behind a file it has found unusable. -/
structure Unblocked (outcome : EStateM.Result AppendError Store DecisionPosition) : Prop where
  ends : ∀ s, outcome ≠ .error .blocked s
  refuses : ∀ before state after,
    (match outcome with | .ok _ s => s.events | .error _ s => s.events) =
        before ++ .rescanned state :: after →
      state.unusable.isSome → ∀ bytes, .wrote bytes ∉ after

/-- The scope is fenced and usable, the decision is new, and no call on the operating system
fails before the file is read again. -/
structure Waits (py : ClientHost) (scope : Str) (host : Host) (d : Decision) (content : Option Str)
    (kept : Option ScopeState) (drawn : ℕ) : Prop where
  scopeMatches : scopeMatchesContract scope = true
  root : host.fails .root = false
  rootFree : host.rootHeld = false
  directory : host.fails .directory = false
  index : ∃ state, found py scope host content kept drawn = some state ∧ state.unusable = none ∧
    state.holds d.decisionRef = false ∧ state.fenced = true
  opens : host.fails .open_ = false
  creates : content = none → host.fails .chmod = false
  locks : host.fails .lock = false
  cuts : ¬Whole (content.getD []) → host.fails .truncate = false ∧ host.fails .truncateSync = false
  rereads : host.fails .reread = false

/-! ## Calls that wait, and calls that end -/

/-- The file was not read again. -/
def Unread (s : Store) : Prop := ∀ state, Event.rescanned state ∉ s.events

theorem Unread.close {s : Store} {description : ℕ} (h : Unread s) : Unread (s.close description) := h

theorem Unread.setFenced {s : Store} {fenced : Bool} (h : Unread s) : Unread (s.setFenced fenced) := h

theorem Unread.written {s : Store} {bytes : Str} (h : Unread s) : Unread (s.written bytes) := by
  intro state hmem
  rcases List.mem_append.1 hmem with hmem | hmem
  · exact h state hmem
  · simp at hmem

/-- How a call leaves that waits for itself exactly under `W`. -/
def Leaves (W : Prop) (e : AppendError) (s : Store) : Prop :=
  (W ∧ e = .blocked) ∨ (¬W ∧ e ≠ .blocked ∧ Unread s)

/-- Begun in `P` the call returns in `Q`, waits for itself, under `W` only, or raises, with the
file not read again, under `¬W` only. -/
def Ends (W : Prop) (P : Store → Prop) (m : Call α) (Q : α → Store → Prop) : Prop :=
  ∀ s, P s →
    match m s with
    | .ok a s' => Q a s'
    | .error e s' => Leaves W e s'

variable {W : Prop} {P : Store → Prop} {Q : α → Store → Prop} {m : Call α}

theorem Ends.bind {R : β → Store → Prop} {f : α → Call β} (hm : Ends W P m Q)
    (hf : ∀ a, Ends W (Q a) (f a) R) : Ends W P (m >>= f) R := by
  intro s hs
  have h := hm s hs
  cases hres : m s with
  | ok a s' =>
    rw [hres] at h
    rw [bind_of_ok hres]
    exact hf a s' h
  | error e s' =>
    rw [hres] at h
    rw [bind_of_error hres]
    exact h

theorem Ends.weaken {Q' : α → Store → Prop} (h : Ends W P m Q) (hQ : ∀ a s, Q a s → Q' a s) :
    Ends W P m Q' := by
  intro s hs
  have hm := h s hs
  cases hres : m s with
  | ok a s' =>
    rw [hres] at hm
    exact hQ a s' hm
  | error e s' =>
    rw [hres] at hm
    exact hm

/-- A fact about no state is assumed. -/
theorem Ends.of_fact {φ : Prop} (h : φ → Ends W P m Q) : Ends W (fun s => φ ∧ P s) m Q :=
  fun s hs => h hs.1 s hs.2

theorem ends_throw {e : AppendError} (he : e ≠ .blocked) (hW : ¬W) (hP : ∀ s, P s → Unread s) :
    Ends W P (throw e : Call α) Q := fun s hs => .inr ⟨hW, he, hP s hs⟩

theorem ends_pure {a : α} (h : ∀ s, P s → Q a s) : Ends W P (pure a : Call α) Q :=
  fun s hs => h s hs

theorem ends_get {R : β → Store → Prop} {f : Store → Call β}
    (h : ∀ s, P s → Ends W (· = s) (f s) R) : Ends W P (get >>= f) R := fun s hs => h s hs s rfl

/-- A refusal does not happen on the way to the second read. -/
theorem ends_refuseIf {b : Bool} {e : AppendError} (he : e ≠ .blocked) (hW : W → b = false)
    (hP : ∀ s, P s → Unread s) : Ends W P (refuseIf b e) fun _ s => b = false ∧ P s := by
  cases b with
  | true => exact ends_throw he (fun hw => absurd (hW hw) (by simp)) hP
  | false => exact ends_pure fun s hs => ⟨rfl, hs⟩

theorem ends_reach {point : Point} (hW : W → host.fails point = false)
    (hP : ∀ s, P s → Unread s) :
    Ends W P (reach host point) fun _ s => host.fails point = false ∧ P s :=
  ends_refuseIf (by simp) hW hP

theorem ends_modify {f : Store → Store} {Q : Unit → Store → Prop} (h : ∀ s, P s → Q () (f s)) :
    Ends W P (modify f) Q := fun s hs => h s hs

theorem ends_openDescription {Q : ℕ → Store → Prop}
    (h : ∀ s, P s → Q s.opened { s with opened := s.opened + 1 }) : Ends W P openDescription Q :=
  fun s hs => h s hs

theorem Ends.closing {description : ℕ} {R : α → Store → Prop} (h : Ends W P m Q)
    (hR : ∀ a s, Q a s → R a (s.close description)) : Ends W P (closing description m) R := by
  intro s hs
  have hm := h s hs
  unfold DecisionFile.closing
  cases hres : m s with
  | ok a s' =>
    rw [hres] at hm
    exact hR a s' hm
  | error e s' =>
    rw [hres] at hm
    cases e with
    | blocked => exact hm
    | _ =>
      rcases hm with hm | hm
      · exact absurd hm.2 (by simp)
      · exact .inr ⟨hm.1, hm.2.1, hm.2.2.close⟩

/-- No lock stands against the first one a call takes. -/
theorem ends_flock {lock : Lock} (hP : ∀ s, P s → s.locks = []) {Q : Unit → Store → Prop}
    (h : ∀ s, P s → Q () { s with locks := [lock] }) : Ends W P (flock lock) Q := by
  refine ends_get fun s hs => ?_
  rw [hP s hs]
  refine Ends.bind (Q := fun _ s' => s' = s) (ends_pure fun s' hs' => hs') fun _ => ?_
  refine ends_modify fun s' hs' => ?_
  subst hs'
  have hlocks : lock :: s'.locks.filter (·.description != lock.description) = [lock] := by
    rw [hP s' hs, List.filter_nil]
  rw [hlocks]
  exact h s' hs

/-- A lock that is held through another description is waited for. -/
theorem ends_flock_held {lock held : Lock} (hW : W) (hP : ∀ s, P s → s.locks = [held])
    (hexcludes : lock.excludes held = true) {Q : Unit → Store → Prop} :
    Ends W P (flock lock) Q := by
  refine ends_get fun s hs => ?_
  have hany : s.locks.any lock.excludes = true := by simp [hP s hs, hexcludes]
  rw [hany]
  exact Ends.bind (Q := fun _ _ => False) (fun _ _ => .inl ⟨hW, rfl⟩) fun _ _ hs => hs.elim

/-! ## The index -/

/-- The state a call is in before it takes the lock of the file. -/
structure Fresh (content : Option Str) (s : Store) : Prop where
  content_eq : s.content = content
  locks : s.locks = []
  unread : Unread s

theorem fresh_begin : Fresh content (.begin content kept recovered drawn) :=
  ⟨rfl, rfl, by simp [Unread, Store.begin]⟩

theorem ends_prepare (hW : W → host.fails .root = false ∧ host.rootHeld = false ∧
      host.fails .directory = false) (hP : ∀ s, P s → Unread s) :
    Ends W P (prepare host) fun _ s =>
      (host.fails .root = false ∧ host.rootHeld = false ∧ host.fails .directory = false) ∧ P s := by
  refine Ends.bind (ends_reach (fun hw => (hW hw).1) hP) fun _ => Ends.of_fact fun hroot => ?_
  refine Ends.bind (ends_refuseIf (by simp) (fun hw => (hW hw).2.1) hP) fun _ =>
    Ends.of_fact fun hheld => ?_
  exact (ends_reach (fun hw => (hW hw).2.2) hP).weaken fun _ _ hs => ⟨⟨hroot, hheld, hs.1⟩, hs.2⟩

/-- The index is the one that was found. -/
theorem ends_stateLocked
    (hW : W → ∃ state, found py scope host content kept drawn = some state) :
    Ends W (· = .begin content kept recovered drawn) (stateLocked py scope host) fun state s =>
      found py scope host content kept drawn = some state ∧ Fresh content s := by
  refine ends_get fun s hs => ?_
  subst hs
  cases kept with
  | some state => exact ends_pure fun s hs => hs ▸ ⟨by simp [found], fresh_begin⟩
  | none =>
    refine ends_get fun s hs => ?_
    subst hs
    cases content with
    | none =>
      intro s hs
      subst hs
      exact ⟨rfl, fresh_begin.content_eq, fresh_begin.locks, fresh_begin.unread⟩
    | some raw =>
      have hread : W → host.fails .read = false := fun hw => by
        obtain ⟨state, hstate⟩ := hW hw
        by_contra hfails
        simp [found, hfails] at hstate
      refine Ends.bind (ends_reach hread fun s hs => hs ▸ fresh_begin.unread) fun _ =>
        Ends.of_fact fun hread => ?_
      have hfound : found py scope host (some raw) none drawn =
          rebuild py scope (host.storeIds drawn) raw := by simp [found, hread]
      refine Ends.bind (Q := fun _ s => s.drawn = drawn ∧ Fresh (some raw) s) ?_ fun description => ?_
      · refine ends_openDescription fun s hs => ?_
        subst hs
        exact ⟨rfl, rfl, rfl, by simp [Unread, Store.begin]⟩
      · refine Ends.bind (Q := fun _ s => s.drawn = drawn ∧ Fresh (some raw) s) ?_ fun _ => ?_
        · refine Ends.closing (Q := fun _ s => s.drawn = drawn ∧ s.content = some raw ∧
            s.locks = [⟨description, .shared⟩] ∧ Unread s) ?_ ?_
          · exact ends_flock (fun s hs => hs.2.locks)
              fun s hs => ⟨hs.1, hs.2.content_eq, rfl, hs.2.unread⟩
          · rintro _ s ⟨hdrawn, hcontent, hlocks, hunread⟩
            exact ⟨hdrawn, hcontent, by simp [Store.close, hlocks], hunread⟩
        · refine ends_get fun s hs => ?_
          rw [hs.1, hfound]
          cases hrebuild : rebuild py scope (host.storeIds drawn) raw with
          | none =>
            refine ends_throw (by simp) (fun hw => ?_) fun s' hs' => hs' ▸ hs.2.unread
            obtain ⟨state, hstate⟩ := hW hw
            simp [hfound, hrebuild] at hstate
          | some state =>
            intro s' hs'
            subst hs'
            exact ⟨rfl, hs.2.content_eq, hs.2.locks, hs.2.unread⟩

/-! ## Under the lock of the file -/

/-- The state a call is in under the lock of the file. -/
structure Locked (description : ℕ) (raw : Str) (s : Store) : Prop where
  content_eq : s.content = some raw
  locks : s.locks = [⟨description, .exclusive⟩]
  opened : description < s.opened
  unread : Unread s

theorem ends_openTarget {s : Store} (hs : Fresh content s)
    (hW : W → host.fails .open_ = false ∧ (content = none → host.fails .chmod = false)) :
    Ends W (· = s) (openTarget host s.content.isNone) fun description s' =>
      (host.fails .open_ = false ∧ (content = none → host.fails .chmod = false)) ∧
        description < s'.opened ∧ Fresh (some (content.getD [])) s' := by
  refine Ends.bind (ends_reach (fun hw => (hW hw).1) fun s' hs' => hs' ▸ hs.unread) fun _ =>
    Ends.of_fact fun hopen => ?_
  refine Ends.bind (Q := fun _ s' => Fresh (some (content.getD [])) s') ?_ fun _ => ?_
  · refine ends_modify fun s' hs' => ?_
    subst hs'
    exact ⟨by rw [hs.content_eq], hs.locks, hs.unread⟩
  · have hchmod : W → (s.content.isNone && host.fails .chmod) = false := fun hw => by
      rw [hs.content_eq]
      cases hcontent : content with
      | none => exact (hW hw).2 hcontent
      | some raw => rfl
    refine Ends.bind (ends_refuseIf (by simp) hchmod fun s' hs' => hs'.unread) fun _ =>
      Ends.of_fact fun hchmod => ?_
    refine ends_openDescription fun s' hs' => ⟨⟨hopen, fun hnone => ?_⟩, ?_, ?_⟩
    · simpa [hs.content_eq, hnone] using hchmod
    · exact Nat.lt_succ_self _
    · exact ⟨hs'.content_eq, hs'.locks, hs'.unread⟩

theorem ends_recoverTail {description : ℕ} {raw : Str} (hW : W → ¬Whole raw →
      host.fails .truncate = false ∧ host.fails .truncateSync = false) :
    Ends W (Locked description raw) (recoverTail host) fun _ s =>
      (¬Whole raw → host.fails .truncate = false ∧ host.fails .truncateSync = false) ∧
        ∃ raw', Locked description raw' s := by
  refine ends_get fun s hs => ?_
  rw [hs.content_eq]
  by_cases hwhole : Whole raw
  · simp only [Option.getD_some, if_pos hwhole]
    refine Ends.bind (Q := fun _ s' => ∃ raw', Locked description raw' s') ?_ fun _ => ?_
    · exact ends_modify fun s' hs' => hs' ▸ ⟨raw, hs.content_eq, hs.locks, hs.opened, hs.unread⟩
    · exact ends_pure fun s' hs' => ⟨fun h => absurd hwhole h, hs'⟩
  · have hkeep : ∀ f : Store → Store, (∀ s', (f s').content = s'.content ∧
        (f s').locks = s'.locks ∧ (f s').opened = s'.opened ∧ (f s').events = s'.events) →
        Ends W (fun s' => ∃ raw', Locked description raw' s') (modify f) fun _ s' =>
          ∃ raw', Locked description raw' s' := by
      rintro f hf
      refine ends_modify fun s' ⟨raw', hs'⟩ => ?_
      obtain ⟨hcontent, hlocks, hopened, hevents⟩ := hf s'
      exact ⟨raw', hcontent.trans hs'.content_eq, hlocks.trans hs'.locks, hopened ▸ hs'.opened,
        by rw [Unread, hevents]; exact hs'.unread⟩
    simp only [Option.getD_some, if_neg hwhole]
    refine Ends.bind (ends_reach (fun hw => (hW hw hwhole).1) fun s' hs' => hs' ▸ hs.unread)
      fun _ => Ends.of_fact fun htruncate => ?_
    refine Ends.bind (Q := fun _ s' => ∃ raw', Locked description raw' s') ?_ fun _ => ?_
    · exact ends_modify fun s' hs' => hs' ▸ ⟨_, rfl, hs.locks, hs.opened, hs.unread⟩
    · refine Ends.bind (ends_reach (fun hw => (hW hw hwhole).2) fun s' hs' => hs'.choose_spec.unread)
        fun _ => Ends.of_fact fun hsync => ?_
      refine Ends.bind (hkeep _ fun _ => ⟨rfl, rfl, rfl, rfl⟩) fun _ => ?_
      refine Ends.bind (hkeep _ fun _ => ⟨rfl, rfl, rfl, rfl⟩) fun _ => ?_
      exact ends_pure fun s' hs' => ⟨fun _ => ⟨htruncate, hsync⟩, hs'⟩

/-- **The file cannot be read again under the lock of the call**: either it is not opened, or the
shared lock waits for the exclusive one. -/
theorem ends_rescan {description : ℕ} {raw : Str} (hW : host.fails .reread = false ↔ W) :
    Ends W (Locked description raw) (rescan py scope host) fun _ _ => False := by
  refine Ends.bind (Q := fun _ _ => False) (ends_get fun s hs => ?_) fun _ s hs => hs.elim
  rw [hs.content_eq]
  refine Ends.bind (ends_reach hW.2 fun s' hs' => hs' ▸ hs.unread) fun _ =>
    Ends.of_fact fun hreread => ?_
  refine Ends.bind (Q := fun second s' => s'.locks = [⟨description, .exclusive⟩] ∧
    description ≠ second) ?_ fun second => ?_
  · exact ends_openDescription fun s' hs' => hs' ▸ ⟨hs.locks, Nat.ne_of_lt hs.opened⟩
  · refine Ends.bind (Q := fun _ _ => False) ?_ fun _ s hs => hs.elim
    refine Ends.closing (Q := fun _ _ => False) ?_ fun _ _ hs => hs.elim
    intro s' hs'
    refine ends_flock_held (hW.1 hreread) (fun _ h => h ▸ hs'.1) ?_ s' rfl
    simpa [Lock.excludes] using Ne.symm hs'.2

theorem ends_writeHeader (hW : ¬W) {storeId : Str} :
    Ends W Unread (writeHeader py scope host storeId) fun _ => Unread := by
  unfold writeHeader
  simp only
  split
  · exact Ends.bind (Q := fun _ => Unread) (ends_modify fun s hs => hs.written)
      fun _ => ends_throw (by simp) hW fun _ hs => hs
  · exact Ends.bind (Q := fun _ => Unread) (ends_modify fun s hs => hs.written)
      fun _ => (ends_reach (fun hw => absurd hw hW) fun _ hs => hs).weaken fun _ _ hs => hs.2

theorem ends_writeAll (hW : ¬W) {payload : Str} :
    Ends W Unread (writeAll host payload) fun _ => Unread := by
  have hfence : Ends W Unread (modify (Store.setFenced true)) fun _ => Unread :=
    ends_modify fun s hs => hs.setFenced
  unfold writeAll
  split
  · refine Ends.bind (Q := fun _ => Unread) (ends_modify fun s hs => hs.written) fun _ => ?_
    exact Ends.bind hfence fun _ => ends_throw (by simp) hW fun _ hs => hs
  · refine Ends.bind (Q := fun _ => Unread) (ends_modify fun s hs => hs.written) fun _ => ?_
    split
    · exact Ends.bind hfence fun _ => ends_throw (by simp) hW fun _ hs => hs
    · exact ends_pure fun _ hs => hs

theorem ends_write (hW : ¬W) {created : Bool} {state : ScopeState} :
    Ends W Unread (write py scope host epoch d created state) fun _ => Unread := by
  have hrefuse : ∀ {b : Bool} {e : AppendError}, e ≠ .blocked →
      Ends W Unread (refuseIf b e) fun _ => Unread := fun he =>
    (ends_refuseIf he (fun hw => absurd hw hW) fun _ hs => hs).weaken fun _ _ hs => hs.2
  refine Ends.bind (Q := fun _ => Unread) ?_ fun _ => ?_
  · refine ends_get fun s hs => ?_
    split
    · exact fun s' hs' => ends_writeHeader hW s' (hs' ▸ hs)
    · exact ends_pure fun s' hs' => hs' ▸ hs
  · refine Ends.bind (hrefuse (by simp)) fun _ => ends_get fun s hs => ?_
    refine Ends.bind (Q := fun _ => Unread) (fun s' hs' => ends_writeAll hW s' (hs' ▸ hs)) fun _ => ?_
    exact Ends.bind (hrefuse (by simp)) fun _ => ends_pure fun _ hs => hs

/-! ## The append -/

/-- An append waits for itself exactly when it comes to the second read. -/
theorem append_waits :
    Ends (Waits py scope host d content kept drawn) (· = .begin content kept recovered drawn)
      (append py scope host epoch d) fun _ s =>
        ¬Waits py scope host d content kept drawn ∧ Unread s := by
  refine Ends.bind (ends_refuseIf (by simp) (fun hw => by simp [hw.scopeMatches])
    fun s hs => hs ▸ fresh_begin.unread) fun _ => Ends.of_fact fun hscope => ?_
  refine Ends.bind (ends_prepare (fun hw => ⟨hw.root, hw.rootFree, hw.directory⟩)
    fun s hs => hs ▸ fresh_begin.unread) fun _ => Ends.of_fact fun hprepare => ?_
  refine Ends.bind (ends_stateLocked fun hw => hw.index.imp fun _ h => h.1) fun state =>
    Ends.of_fact fun hfound => ?_
  -- the index the condition speaks of is the one that was found
  have hindex : ∀ hw : Waits py scope host d content kept drawn,
      state.unusable = none ∧ state.holds d.decisionRef = false ∧ state.fenced = true := by
    intro hw
    obtain ⟨state', hfound', h⟩ := hw.index
    rw [hfound, Option.some.injEq] at hfound'
    exact hfound' ▸ h
  cases hunusable : state.unusable with
  | some reason =>
    refine ends_throw (by simp) (fun hw => ?_) fun s hs => hs.unread
    simpa [hunusable] using (hindex hw).1
  | none =>
    refine Ends.bind (ends_refuseIf (by simp) (fun hw => (hindex hw).2.1) fun s hs => hs.unread)
      fun _ => Ends.of_fact fun hnew => ?_
    refine ends_get fun s hs => ?_
    refine Ends.bind (ends_openTarget hs fun hw => ⟨hw.opens, hw.creates⟩) fun description =>
      Ends.of_fact fun hopen => ?_
    refine Ends.bind (Q := fun _ s => ¬Waits py scope host d content kept drawn ∧ Unread s) ?_
      fun _ => Ends.of_fact fun hno => Ends.bind (Q := fun _ => Unread) (ends_modify fun s hs => hs)
        fun _ => ends_pure fun s hs => ⟨hno, hs⟩
    refine Ends.closing (Q := fun _ s => ¬Waits py scope host d content kept drawn ∧ Unread s) ?_
      fun _ s hs => ⟨hs.1, hs.2.close⟩
    refine Ends.bind (ends_reach (fun hw => hw.locks) fun s hs => hs.2.unread) fun _ =>
      Ends.of_fact fun hlock => ?_
    refine Ends.bind (Q := fun _ => Locked description (content.getD []))
      (ends_flock (fun s hs => hs.2.locks) fun s hs => ⟨hs.2.content_eq, rfl, hs.1, hs.2.unread⟩)
      fun _ => ?_
    cases hfenced : state.fenced with
    | false =>
      have hno : ¬Waits py scope host d content kept drawn := fun hw => by
        simpa [hfenced] using (hindex hw).2.2
      rw [refreshed, hfenced]
      exact Ends.bind (Q := fun _ => Unread) (ends_pure fun s hs => hs.unread) fun _ =>
        (ends_write hno).weaken fun _ _ hs => ⟨hno, hs⟩
    | true =>
      rw [refreshed, hfenced]
      refine Ends.bind (Q := fun _ _ => False) ?_ fun _ s hs => hs.elim
      refine Ends.bind (Q := fun _ s => _ ∧ ∃ raw', Locked description raw' s)
        (Ends.bind (ends_recoverTail fun hw => hw.cuts) fun _ => ends_pure fun _ hs => hs) fun _ =>
          Ends.of_fact fun hcuts => ?_
      rintro s ⟨raw', hs⟩
      refine Ends.bind (ends_rescan ⟨fun hreread => ?_, fun hw => hw.rereads⟩) (fun _ s hs => hs.elim)
        s hs
      exact ⟨by simpa using hscope, hprepare.1, hprepare.2.1, hprepare.2.2,
        ⟨state, hfound, hunusable, hnew, hfenced⟩, hopen.1, hopen.2, hlock, hcuts, hreread⟩

/-- **An append ends, and writes nothing behind a file it found unusable, exactly when it does
not come to read the file again under its own lock.** -/
theorem append_unblocked_iff (py : ClientHost) (scope epoch : Str) (host : Host) (d : Decision)
    (content : Option Str) (kept : Option ScopeState) (recovered drawn : ℕ) :
    Unblocked (append py scope host epoch d (.begin content kept recovered drawn)) ↔
      ¬Waits py scope host d content kept drawn := by
  have h := @append_waits py scope epoch host d content kept recovered drawn
    (.begin content kept recovered drawn) rfl
  have hnever : ∀ s : Store, Unread s → ∀ before state after,
      s.events = before ++ .rescanned state :: after →
        state.unusable.isSome → ∀ bytes, .wrote bytes ∉ after := by
    intro s hs before state after hevents
    exact absurd (hevents ▸ by simp) (hs state)
  cases hres : append py scope host epoch d (.begin content kept recovered drawn) with
  | ok at_ s =>
    rw [hres] at h
    exact ⟨fun _ => h.1, fun _ => ⟨by simp, hnever s h.2⟩⟩
  | error e s =>
    rw [hres] at h
    rcases h with ⟨hw, rfl⟩ | ⟨hw, hne, hunread⟩
    · exact ⟨fun hends => absurd rfl (hends.ends s), fun hno => absurd hw hno⟩
    · exact ⟨fun _ => hw, fun _ => ⟨fun s' => by simp [hne], hnever s hunread⟩⟩

/-- A host on which every call works. -/
def workingHost : Host where
  fails _ := false
  written := 0
  rootHeld := false
  storeIds _ := lit "store:1"

/-- A decision of scope `s`. -/
def someDecision : Decision where
  decisionRef := lit "decision:1"
  scope := lit "s"
  capability := lit "c"
  outcome := .allow
  reason := lit "policy_allows"
  policyVersion := none
  approvalRef := none
  decidedAt := lit "2026-01-01T00:00:00Z"
  correlation := none
  contractGeneration := 1
  extra := []

/-- A store begun over a file that holds the first byte of a header never ends its append. -/
theorem append_blocked :
    ¬Unblocked (append Client.plainHost (lit "s") workingHost (lit "epoch:1") someDecision
      (.begin (some [123]) none 0 0)) :=
  fun h => h.ends _ rfl

end SayFirst.Plane.DecisionFile
