import SayFirst.Spec.Grants

/-!
# The record of a grant

One thread writes the event of a grant's registration and one that of its end, and
each is written once; an ender is told apart by whether it found the connection
still registered.

* `perform_cases`, `call_cases` — what one section, and one call, can do.
* `Booked` — every event of a grant is recorded, or one thread is about to.
* `step_booked` — every step keeps the book.
-/

namespace SayFirst.Plane

open Py

/-- The grant a section is about. -/
def GrantSection.about : GrantSection → Option Str
  | .compare g _ | .visit g _ _ | .stop g | .endGrant g _ _ _ | .peerLost g _ | .write g _
  | .append g _ | .heard g _ => some g
  | .stopAll => none
  | .record e => some e.grantId

/-- What a section hands on outside the lock is a heartbeat. -/
def GrantSection.Beats : GrantSection → Prop
  | .write _ signal | .append _ signal => signal.kind = .heartbeat
  | _ => True

/-- The event a section records. -/
def GrantSection.event : GrantSection → Option GrantEvent
  | .record e => some e
  | _ => none

namespace GrantService

variable {s s' : GrantService} {t u : ℕ} {g : Str} {b : Bool} {now : ℤ} {taken : Bool}
  {x y : GrantSection} {new rest : List GrantSection} {c c' : GrantConnection}

/-- The event a thread is about to record. -/
def due (s : GrantService) (t : ℕ) : Option GrantEvent := (s.thread t).head?.bind (·.event)

/-- A thread is about to record the registration of a grant, or its end. -/
def Due (s : GrantService) (g : Str) (b : Bool) (t : ℕ) : Prop :=
  ∃ e, s.due t = some e ∧ e.grantId = g ∧ e.isEnd = b

/-- How often the registration of a grant, or its end, is recorded. -/
def recorded (s : GrantService) (g : Str) (b : Bool) : ℕ :=
  s.events.countP fun e => e.grantId == g && e.isEnd == b

/-- Not recorded, and no thread is about to. -/
def Unsaid (s : GrantService) (g : Str) (b : Bool) : Prop :=
  s.recorded g b = 0 ∧ ∀ t, ¬ s.Due g b t

/-- Recorded once, or one thread is about to. -/
def SaidOnce (s : GrantService) (g : Str) (b : Bool) : Prop :=
  (s.recorded g b = 1 ∧ ∀ t, ¬ s.Due g b t) ∨
    (s.recorded g b = 0 ∧ ∃ t, s.Due g b t ∧ ∀ u, s.Due g b u → u = t)

@[simp] theorem setThread_registry {l : List GrantSection} :
    (s.setThread t l).registry = s.registry := rfl

@[simp] theorem setThread_events {l : List GrantSection} :
    (s.setThread t l).events = s.events := rfl

theorem setThread_due {l : List GrantSection} :
    (s.setThread t l).due u = if u = t then l.head?.bind (·.event) else s.due u := by
  unfold due setThread
  dsimp only
  split
  · rfl
  · rfl

/-- What every thread satisfies, and its new sections do, every thread satisfies. -/
theorem setThread_all {P : List GrantSection → Prop} {l : List GrantSection}
    (hs : ∀ u, P (s.thread u)) (hl : P l) (u : ℕ) : P ((s.setThread t l).thread u) := by
  unfold setThread
  dsimp only
  split
  · exact hl
  · exact hs u

/-! ## What a section does -/

/-- What no section touches; and a connection, once made, stays one. -/
structure Framed (s s' : GrantService) : Prop where
  thread : s'.thread = s.thread
  known : ∀ g, (s'.registry.connection g).isSome = (s.registry.connection g).isSome

theorem Framed.refl (s : GrantService) : Framed s s := ⟨rfl, fun _ => rfl⟩

theorem change_known (r : GrantConnections) (g : Str) (f : GrantConnection → GrantConnection)
    (g' : Str) : ((r.change g f).connection g').isSome = (r.connection g').isSome := by
  unfold GrantConnections.change
  dsimp only
  split
  · exact Option.isSome_map
  · rfl

/-- What a section that records nothing leads to. -/
structure Leads (s : GrantService) (x : GrantSection) (new : List GrantSection) : Prop where
  event : x.event = none
  plain : ∀ y ∈ new, y.event = none ∧
    ∀ g, y.about = some g → x.about = some g ∨ g ∈ s.registry.registered
  beats : x.Beats → ∀ y ∈ new, y.Beats

theorem Leads.nothing (hx : x.event = none) : Leads s x [] :=
  ⟨hx, fun _ hy => by (cases hy), fun _ _ hy => by cases hy⟩

theorem Leads.next (hx : x.event = none) (hxg : x.about = some g) (hy : y.event = none)
    (hyg : y.about = some g) (hb : x.Beats → y.Beats) : Leads s x [y] := by
  refine ⟨hx, fun z hz => ?_, fun hxb z hz => ?_⟩
  · rw [List.mem_singleton.1 hz]
    exact ⟨hy, fun g' hg' => .inl (by rw [hxg, ← hyg, hg'])⟩
  · rw [List.mem_singleton.1 hz]
    exact hb hxb

/-- What one section can do. -/
inductive Performing (s : GrantService) (now : ℤ) (taken : Bool) :
    GrantSection → List GrantSection → GrantService → Prop
  | leads {x : GrantSection} {new : List GrantSection} (h : Leads s x new) :
      Performing s now taken x new s
  | ends (g : Str) (reason : GrantEndReason) (policyVersion : Str) (at_ : ℤ)
      (h : g ∈ s.registry.registered) :
      Performing s now taken (.endGrant g reason policyVersion at_)
        [.record (.ended g reason.value at_)]
        { s with registry := (s.registry.pop g).change g (·.write
            { kind := .grantEnded, grantId := g, policyVersion, at_, reason := some reason } taken) }
  | loses (g reason : Str) (h : g ∈ s.registry.registered) :
      Performing s now taken (.peerLost g reason) [.record (.ended g reason now)]
        { s with registry := s.registry.pop g }
  | writes (g : Str) (signal : GrantSignal) (c : GrantConnection)
      (hc : s.registry.connection g = some c) (hw : c.signalWriter = true) (ht : taken = true) :
      Performing s now taken (.write g signal) [.append g signal]
        { s with registry :=
            s.registry.change g fun c => { c with written := c.written ++ [signal] } }
  | appends (g : Str) (signal : GrantSignal) :
      Performing s now taken (.append g signal) [.heard g signal.at_]
        { s with registry :=
            s.registry.change g fun c => { c with signals := c.signals ++ [signal] } }
  | hears (g : Str) (at_ : ℤ) :
      Performing s now taken (.heard g at_) []
        { s with registry := s.registry.change g ({ · with lastSignalAt := at_ }) }
  | records (e : GrantEvent) :
      Performing s now taken (.record e) [] { s with events := s.events ++ [e] }

theorem perform_cases (h : s.perform now taken x = (new, s')) :
    Performing s now taken x new s' := by
  cases x with
  | compare g policyVersion =>
    simp only [perform] at h
    split at h
    · cases h
      exact .leads (.nothing rfl)
    · split at h
      · cases h
        exact .leads (.next rfl rfl rfl rfl fun _ => trivial)
      · cases h
        exact .leads (.nothing rfl)
  | visit g at_ currentPolicyVersion =>
    simp only [perform] at h
    split at h
    · cases h
      exact .leads (.nothing rfl)
    · split at h
      · cases h
        exact .leads (.next rfl rfl rfl rfl fun _ => trivial)
      · split at h
        · cases h
          exact .leads (.next rfl rfl rfl rfl fun _ => rfl)
        · cases h
          exact .leads (.nothing rfl)
  | stopAll =>
    cases h
    refine .leads ⟨rfl, fun y hy => ?_, fun _ y hy => ?_⟩
    · obtain ⟨g, hg, rfl⟩ := List.mem_map.1 hy
      refine ⟨rfl, fun g' hg' => .inr ?_⟩
      cases hg'
      exact hg
    · obtain ⟨g, -, rfl⟩ := List.mem_map.1 hy
      trivial
  | stop g =>
    simp only [perform] at h
    split at h
    · cases h
      exact .leads (.nothing rfl)
    · cases h
      exact .leads (.next rfl rfl rfl rfl fun _ => trivial)
  | endGrant g reason policyVersion at_ =>
    simp only [perform] at h
    split at h
    · rename_i hreg
      cases h
      exact .ends g reason policyVersion at_ hreg
    · cases h
      exact .leads (.nothing rfl)
  | peerLost g reason =>
    simp only [perform] at h
    split at h
    · rename_i hreg
      cases h
      exact .loses g reason hreg
    · cases h
      exact .leads (.nothing rfl)
  | write g signal =>
    simp only [perform] at h
    split at h
    · cases h
      exact .leads (.nothing rfl)
    · rename_i c hc
      split at h
      · rename_i hw
        split at h
        · rename_i ht
          cases h
          exact .writes g signal c hc hw ht
        · cases h
          exact .leads (.next rfl rfl rfl rfl fun _ => trivial)
      · cases h
        exact .leads (.next rfl rfl rfl rfl fun hb => hb)
  | append g signal =>
    cases h
    exact .appends g signal
  | heard g at_ =>
    cases h
    exact .hears g at_
  | record e =>
    cases h
    exact .records e

/-- What one section does to the record: nothing, or it is a record, or it takes a connection out
of the registry and leads to the record of its end. -/
theorem perform_record (h : s.perform now taken x = (new, s')) :
    Framed s s' ∧
    ((Leads s x new ∧ s'.events = s.events ∧ s'.registry.registered = s.registry.registered) ∨
      (∃ e, x = .record e ∧ new = [] ∧ s'.registry = s.registry ∧ s'.events = s.events ++ [e]) ∨
      ∃ g reason at_, g ∈ s.registry.registered ∧ x.event = none ∧
        new = [.record (.ended g reason at_)] ∧ s'.events = s.events ∧
        s'.registry.registered = s.registry.registered.erase g) := by
  cases perform_cases h with
  | leads hleads => exact ⟨.refl s, .inl ⟨hleads, rfl, rfl⟩⟩
  | ends g reason policyVersion at_ hreg =>
    refine ⟨⟨rfl, fun g' => ?_⟩, .inr (.inr ⟨g, reason.value, at_, hreg, rfl, rfl, rfl, rfl⟩)⟩
    exact (change_known _ _ _ _).trans (change_known _ _ _ _)
  | loses g reason hreg =>
    exact ⟨⟨rfl, change_known _ _ _⟩, .inr (.inr ⟨g, reason, now, hreg, rfl, rfl, rfl, rfl⟩)⟩
  | writes g signal c =>
    exact ⟨⟨rfl, change_known _ _ _⟩, .inl ⟨.next rfl rfl rfl rfl fun hb => hb, rfl, rfl⟩⟩
  | appends g signal =>
    exact ⟨⟨rfl, change_known _ _ _⟩, .inl ⟨.next rfl rfl rfl rfl fun _ => trivial, rfl, rfl⟩⟩
  | hears g at_ => exact ⟨⟨rfl, change_known _ _ _⟩, .inl ⟨.nothing rfl, rfl, rfl⟩⟩
  | records e => exact ⟨⟨rfl, fun _ => rfl⟩, .inr (.inl ⟨e, rfl, rfl, rfl, rfl⟩)⟩

/-! ## Every event once -/

/-- Every connection the sections are about was made. -/
def Known (s : GrantService) (l : List GrantSection) : Prop :=
  ∀ x ∈ l, ∀ g, x.about = some g → (s.registry.connection g).isSome

/-- A thread that is about to record does nothing before it. -/
def HeadOnly (l : List GrantSection) : Prop := ∀ x ∈ l.tail, x.event = none

/-- Every connection has its registration recorded once, or about to be, and its end where it is
no longer registered. -/
structure Booked (s : GrantService) : Prop where
  nodup : s.registry.registered.Nodup
  known : ∀ g ∈ s.registry.registered, (s.registry.connection g).isSome
  sections : ∀ t, s.Known (s.thread t)
  heads : ∀ t, HeadOnly (s.thread t)
  unknown : ∀ g b, (s.registry.connection g).isSome = false → s.Unsaid g b
  issue : ∀ g, (s.registry.connection g).isSome → s.SaidOnce g false
  standing : ∀ g ∈ s.registry.registered, s.Unsaid g true
  ending : ∀ g, (s.registry.connection g).isSome → g ∉ s.registry.registered → s.SaidOnce g true

theorem initial_booked (limits : GrantLimits) : (initial limits).Booked where
  nodup := List.nodup_nil
  known _ h := by cases h
  sections _ _ h _ _ := by cases h
  heads _ _ h := by cases h
  unknown _ _ _ := ⟨rfl, fun _ ⟨_, h, _⟩ => by cases h⟩
  issue _ h := by cases h
  standing _ h := by cases h
  ending _ h := by cases h

theorem Due.of_eq (hdue : s'.due u = s.due u) : s'.Due g b u ↔ s.Due g b u := by
  unfold Due
  rw [hdue]

theorem Unsaid.of_eq (h : s.Unsaid g b) (hrec : s'.recorded g b = s.recorded g b)
    (hdue : ∀ u, s'.Due g b u ↔ s.Due g b u) : s'.Unsaid g b :=
  ⟨hrec.trans h.1, fun u hu => h.2 u ((hdue u).1 hu)⟩

theorem SaidOnce.of_eq (h : s.SaidOnce g b) (hrec : s'.recorded g b = s.recorded g b)
    (hdue : ∀ u, s'.Due g b u ↔ s.Due g b u) : s'.SaidOnce g b := by
  rcases h with ⟨hone, hno⟩ | ⟨hzero, t, ht, honly⟩
  · exact .inl ⟨hrec.trans hone, fun u hu => hno u ((hdue u).1 hu)⟩
  · exact .inr ⟨hrec.trans hzero, t, (hdue t).2 ht, fun u hu => honly u ((hdue u).1 hu)⟩

/-- The events of every grant stand as they did: so does the book. -/
theorem Booked.of_eq (h : s.Booked) (hrec : ∀ g b, s'.recorded g b = s.recorded g b)
    (hdue : ∀ g b u, s'.Due g b u ↔ s.Due g b u)
    (hreg : s'.registry.registered = s.registry.registered)
    (hknown : ∀ g, (s'.registry.connection g).isSome = (s.registry.connection g).isSome)
    (hsections : ∀ t, s.Known (s'.thread t)) (hheads : ∀ t, HeadOnly (s'.thread t)) :
    s'.Booked where
  nodup := by rw [hreg]; exact h.nodup
  known g hg := by rw [hknown]; exact h.known g (hreg ▸ hg)
  sections t x hx g hg := by rw [hknown]; exact hsections t x hx g hg
  heads := hheads
  unknown g b hg := (h.unknown g b (by rw [← hknown]; exact hg)).of_eq (hrec g b) (hdue g b)
  issue g hg := (h.issue g (by rw [← hknown]; exact hg)).of_eq (hrec g _) (hdue g _)
  standing g hg := (h.standing g (hreg ▸ hg)).of_eq (hrec g _) (hdue g _)
  ending g hg hno := (h.ending g (by rw [← hknown]; exact hg) (hreg ▸ hno)).of_eq (hrec g _)
    (hdue g _)

theorem head_event_none {l : List GrantSection} (h : ∀ x ∈ l, x.event = none) :
    l.head?.bind (·.event) = none := by
  cases l with
  | nil => rfl
  | cons x l => exact h x List.mem_cons_self

theorem due_cons (ht : s.thread t = x :: rest) : s.due t = x.event := by
  unfold due
  rw [ht]
  rfl

/-- The threads after a section of one of them. -/
theorem turn_thread {s₁ : GrantService} (hthread : s₁.thread = s.thread)
    {l : List GrantSection} (hu : u ≠ t) : (s₁.setThread t l).thread u = s.thread u := by
  unfold setThread
  dsimp only
  rw [if_neg hu, hthread]

theorem turn_due {s₁ : GrantService} (hthread : s₁.thread = s.thread)
    {l : List GrantSection} (hu : u ≠ t) : (s₁.setThread t l).due u = s.due u := by
  unfold due
  rw [turn_thread hthread hu]

/-- The record of an event is the last the thread has to do with it. -/
theorem turn_recorded {e : GrantEvent} {s₁ : GrantService} (hthread : s₁.thread = s.thread)
    (hevents : s₁.events = s.events ++ [e]) (hdue : s.due t = some e)
    (hrest : ∀ x ∈ rest, x.event = none) :
    (∀ g b, s.Unsaid g b → (s₁.setThread t rest).Unsaid g b) ∧
      ∀ g b, s.SaidOnce g b → (s₁.setThread t rest).SaidOnce g b := by
  have hover : (s₁.setThread t rest).due t = none := by
    rw [setThread_due, if_pos rfl]
    exact head_event_none hrest
  have hafter : ∀ g b u, (s₁.setThread t rest).Due g b u ↔ u ≠ t ∧ s.Due g b u := by
    intro g b u
    by_cases hu : u = t
    · subst hu
      refine iff_of_false (fun ⟨_, hd, _⟩ => ?_) fun hd => hd.1 rfl
      rw [hover] at hd
      cases hd
    · exact (Due.of_eq (turn_due hthread hu)).trans (iff_and_self.2 fun _ => hu)
  have hrec : ∀ g b, (s₁.setThread t rest).recorded g b =
      s.recorded g b + if e.grantId = g ∧ e.isEnd = b then 1 else 0 := by
    intro g b
    unfold recorded
    rw [setThread_events, hevents, List.countP_append, List.countP_singleton]
    simp only [Bool.and_eq_true, beq_iff_eq]
  refine ⟨fun g b h => ?_, fun g b h => ?_⟩
  · have hno : ¬ (e.grantId = g ∧ e.isEnd = b) := fun heq => h.2 t ⟨e, hdue, heq⟩
    refine ⟨?_, fun u hu => h.2 u ((hafter g b u).1 hu).2⟩
    rw [hrec, if_neg hno, h.1]
  · rcases h with ⟨hone, hno⟩ | ⟨hzero, v, hv, honly⟩
    · refine .inl ⟨?_, fun u hu => hno u ((hafter g b u).1 hu).2⟩
      rw [hrec, if_neg fun heq => hno t ⟨e, hdue, heq⟩, hone]
    · by_cases heq : e.grantId = g ∧ e.isEnd = b
      · refine .inl ⟨by rw [hrec, if_pos heq, hzero], fun u hu => ?_⟩
        obtain ⟨hne, hu⟩ := (hafter g b u).1 hu
        exact hne ((honly u hu).trans (honly t ⟨e, hdue, heq⟩).symm)
      · have hvt : v ≠ t := by
          rintro rfl
          obtain ⟨e', he', hmine⟩ := hv
          rw [hdue] at he'
          cases he'
          exact heq hmine
        refine .inr ⟨by rw [hrec, if_neg heq, hzero], v, (hafter g b v).2 ⟨hvt, hv⟩, fun u hu => ?_⟩
        exact honly u ((hafter g b u).1 hu).2

/-- A thread that comes to a record says what nobody said. -/
theorem turn_leads {e : GrantEvent} {s₁ : GrantService} (hthread : s₁.thread = s.thread)
    (hevents : s₁.events = s.events) (hdue : s.due t = none) {rest : List GrantSection} :
    (∀ g b, ¬ (e.grantId = g ∧ e.isEnd = b) → s.Unsaid g b →
      (s₁.setThread t (.record e :: rest)).Unsaid g b) ∧
    (∀ g b, ¬ (e.grantId = g ∧ e.isEnd = b) → s.SaidOnce g b →
      (s₁.setThread t (.record e :: rest)).SaidOnce g b) ∧
    (s.Unsaid e.grantId e.isEnd →
      (s₁.setThread t (.record e :: rest)).SaidOnce e.grantId e.isEnd) := by
  have hmine : (s₁.setThread t (.record e :: rest)).due t = some e := by
    rw [setThread_due, if_pos rfl]
    rfl
  have hother : ∀ g b, ¬ (e.grantId = g ∧ e.isEnd = b) → ∀ u,
      (s₁.setThread t (.record e :: rest)).Due g b u ↔ s.Due g b u := by
    intro g b hne u
    by_cases hu : u = t
    · subst hu
      refine iff_of_false (fun ⟨e', he', hgb⟩ => ?_) fun ⟨e', he', _⟩ => ?_
      · rw [hmine] at he'
        cases he'
        exact hne hgb
      · rw [hdue] at he'
        cases he'
    · exact Due.of_eq (turn_due hthread hu)
  have hrec : ∀ g b, (s₁.setThread t (.record e :: rest)).recorded g b = s.recorded g b := by
    intro g b
    unfold recorded
    rw [setThread_events, hevents]
  refine ⟨fun g b hne h => h.of_eq (hrec g b) (hother g b hne), fun g b hne h =>
    h.of_eq (hrec g b) (hother g b hne), fun h => .inr ⟨(hrec _ _).trans h.1, t,
      ⟨e, hmine, rfl, rfl⟩, fun u hu => ?_⟩⟩
  by_contra hne
  obtain ⟨e', he', hgb⟩ := hu
  rw [turn_due hthread hne] at he'
  exact h.2 u ⟨e', he', hgb⟩

/-- **One section** keeps the book. -/
theorem turn_booked (h : s.Booked) (ht : s.thread t = x :: rest)
    (hp : s.perform now taken x = (new, s')) : (s'.setThread t (new ++ rest)).Booked := by
  have hrest : ∀ y ∈ rest, y.event = none := fun y hy => h.heads t y (by rw [ht]; exact hy)
  have hmine : ∀ y ∈ x :: rest, ∀ g, y.about = some g → (s.registry.connection g).isSome :=
    fun y hy => h.sections t y (by rw [ht]; exact hy)
  obtain ⟨hframed, ⟨hleads, hevents, hregistered⟩ | ⟨e, rfl, rfl, hregistry, hevents⟩ |
    ⟨g₀, reason, at_, hg₀, hx, rfl, hevents, hreg⟩⟩ := perform_record hp
  all_goals
    have hsections : ∀ u, s.Known (s'.thread u) := by
      rw [hframed.thread]
      exact h.sections
    have hheads : ∀ u, HeadOnly (s'.thread u) := by
      rw [hframed.thread]
      exact h.heads
  · have hnew : ∀ y ∈ new ++ rest, y.event = none ∧
        ∀ g, y.about = some g → (s.registry.connection g).isSome := by
      intro y hy
      rcases List.mem_append.1 hy with hy | hy
      · refine ⟨(hleads.plain y hy).1, fun g hg => ?_⟩
        rcases (hleads.plain y hy).2 g hg with hxg | hreg
        · exact hmine x List.mem_cons_self g hxg
        · exact h.known g hreg
      · exact ⟨hrest y hy, hmine y (List.mem_cons_of_mem _ hy)⟩
    have hdue : ∀ u, (s'.setThread t (new ++ rest)).due u = s.due u := by
      intro u
      by_cases hu : u = t
      · subst hu
        rw [setThread_due, if_pos rfl, due_cons ht, hleads.event]
        exact head_event_none fun y hy => (hnew y hy).1
      · exact turn_due hframed.thread hu
    refine h.of_eq (fun g b => ?_) (fun _ _ u => Due.of_eq (hdue u)) hregistered hframed.known
      (setThread_all hsections fun y hy => (hnew y hy).2)
      (setThread_all hheads fun y hy => (hnew y (List.mem_of_mem_tail hy)).1)
    unfold recorded
    rw [setThread_events, hevents]
  · obtain ⟨hunsaid, hsaid⟩ := turn_recorded hframed.thread hevents (due_cons ht) hrest
    rw [List.nil_append]
    refine ⟨by rw [setThread_registry, hregistry]; exact h.nodup, fun g hg => ?_,
      setThread_all (P := Known _) (fun u y hy g hg => ?_) fun y hy g hg => ?_,
      setThread_all hheads fun y hy => hrest y (List.mem_of_mem_tail hy),
      fun g b hg => hunsaid g b (h.unknown g b ?_), fun g hg => hsaid g _ (h.issue g ?_),
      fun g hg => hunsaid g _ (h.standing g ?_), fun g hg hno => hsaid g _ (h.ending g ?_ ?_)⟩
    · rw [setThread_registry, hregistry] at hg ⊢
      exact h.known g hg
    · rw [setThread_registry, hregistry]
      exact hsections u y hy g hg
    · rw [setThread_registry, hregistry]
      exact hmine y (List.mem_cons_of_mem _ hy) g hg
    · rwa [setThread_registry, hregistry] at hg
    · rwa [setThread_registry, hregistry] at hg
    · rwa [setThread_registry, hregistry] at hg
    · rwa [setThread_registry, hregistry] at hg
    · rwa [setThread_registry, hregistry] at hno
  · have hdue : s.due t = none := (due_cons ht).trans hx
    obtain ⟨hunsaid, hsaid, hleads⟩ :=
      @turn_leads s t (.ended g₀ reason at_) s' hframed.thread hevents hdue rest
    have hended := hleads (h.standing g₀ hg₀)
    have herased : ∀ g, g ∈ s'.registry.registered ↔ g ≠ g₀ ∧ g ∈ s.registry.registered := by
      intro g
      rw [hreg]
      exact h.nodup.mem_erase_iff
    have hknown : ∀ g, (s'.registry.connection g).isSome → (s.registry.connection g).isSome :=
      fun g hg => by rw [← hframed.known]; exact hg
    have hfalse : ∀ g, ¬ (GrantEvent.grantId (.ended g₀ reason at_) = g ∧
        GrantEvent.isEnd (.ended g₀ reason at_) = false) := fun g hg => by cases hg.2
    have hother : ∀ g, g ≠ g₀ → ∀ b, ¬ (GrantEvent.grantId (.ended g₀ reason at_) = g ∧
        GrantEvent.isEnd (.ended g₀ reason at_) = b) := fun g hne b hg => hne hg.1.symm
    rw [List.singleton_append]
    refine ⟨?_, fun g hg => ?_, setThread_all (fun u y hy g hg => ?_) fun y hy g hg => ?_,
      setThread_all hheads hrest,
      fun g b hg => hunsaid g b (hother g ?_ b) (h.unknown g b ?_),
      fun g hg => hsaid g _ (hfalse g) (h.issue g (hknown g hg)), fun g hg => ?_, fun g hg hno => ?_⟩
    · rw [setThread_registry, hreg]
      exact h.nodup.erase _
    · rw [setThread_registry, hframed.known]
      exact h.known g ((herased g).1 hg).2
    · rw [setThread_registry, hframed.known]
      exact hsections u y hy g hg
    · rw [setThread_registry, hframed.known]
      rcases List.mem_cons.1 hy with rfl | hy
      · cases hg
        exact h.known g₀ hg₀
      · exact hmine y (List.mem_cons_of_mem _ hy) g hg
    · rintro rfl
      rw [setThread_registry, hframed.known, h.known g hg₀] at hg
      cases hg
    · rw [setThread_registry, hframed.known] at hg
      exact hg
    · obtain ⟨hne, hg⟩ := (herased g).1 hg
      exact hunsaid g true (hother g hne true) (h.standing g hg)
    · by_cases hne : g = g₀
      · subst hne
        exact hended
      · refine hsaid g true (hother g hne true) (h.ending g (hknown g hg) fun hreg' => ?_)
        exact hno ((herased g).2 ⟨hne, hreg'⟩)

/-! ## The calls -/

/-- The connections of two registries are the same. -/
structure SameConnections (r r' : GrantConnections) : Prop where
  registered : r'.registered = r.registered
  connection : r'.connection = r.connection

theorem release_same {r : GrantConnections} {uid : ℕ} :
    SameConnections r (r.releaseReservation uid).2 := by
  unfold GrantConnections.releaseReservation
  dsimp only
  split
  · exact ⟨rfl, rfl⟩
  · split
    · exact ⟨rfl, rfl⟩
    · exact ⟨rfl, rfl⟩

theorem reserve_same {r : GrantConnections} {uid : ℕ} :
    SameConnections r (r.reserve uid).2 := by
  unfold GrantConnections.reserve
  split
  · exact ⟨rfl, rfl⟩
  · exact ⟨rfl, rfl⟩

theorem cancel_same {r : GrantConnections} {reservation : ℕ} :
    SameConnections r (r.cancel reservation) := by
  unfold GrantConnections.cancel
  split
  · exact ⟨release_same.registered, release_same.connection⟩
  · exact ⟨rfl, rfl⟩

/-- A reservation that is opened registers its grant, or changes no connection. -/
theorem openReserved_cases {r r' : GrantConnections} {reservation : ℕ} {grant : Grant}
    {signalWriter opened : Bool} (h : r.openReserved reservation grant signalWriter = (opened, r')) :
    (opened = false ∧ SameConnections r r') ∨
      ∃ uid, opened = true ∧ r.reservations[reservation]? = some ⟨uid, true⟩ ∧
        r' = ((r.spent reservation uid).releaseReservation uid).2.register
          (.made grant uid signalWriter) := by
  unfold GrantConnections.openReserved at h
  split at h
  · rename_i uid hactive
    split at h
    · rename_i s' hrelease
      cases h
      have hsame := @release_same (r.spent reservation uid) uid
      rw [hrelease] at hsame
      exact .inl ⟨rfl, hsame.registered, hsame.connection⟩
    · rename_i s' hrelease
      cases h
      refine .inr ⟨uid, rfl, hactive, ?_⟩
      rw [hrelease]
  · cases h
    exact .inl ⟨rfl, rfl, rfl⟩

/-- A section a call begins with. -/
structure Plain (s : GrantService) (x : GrantSection) : Prop where
  event : x.event = none
  beats : x.Beats
  known : ∀ g, x.about = some g →
    (s.registry.connection g).isSome ∨ g ∈ s.registry.registered

/-- What a call does that is no section of a thread: it begins with sections that record nothing
and hand nothing on, or it registers a connection. -/
inductive Calling (s s' : GrantService) : Prop
  | reserves (r : GrantConnections) (same : SameConnections s.registry r)
      (eq : s' = { s with registry := r })
  | begins (t : ℕ) (l : List GrantSection) (r : GrantConnections) (idle : s.thread t = [])
      (same : SameConnections s.registry r) (plain : ∀ x ∈ l, s.Plain x)
      (eq : s' = { s.setThread t l with registry := r })
  | registers (t : ℕ) (l : List GrantSection) (r : GrantConnections) (grant : Grant) (uid : ℕ)
      (signalWriter : Bool) (idle : s.thread t = [])
      (fresh : s.registry.connection grant.grantId = none)
      (registered : r.registered = if grant.grantId ∈ s.registry.registered
        then s.registry.registered else s.registry.registered ++ [grant.grantId])
      (connection : r.connection = fun g => if g = grant.grantId
        then some (.made grant uid signalWriter) else s.registry.connection g)
      (plain : ∀ x ∈ l, x = .stop grant.grantId)
      (eq : s' = { s.setThread t (.record (.ofGrant grant) :: l) with registry := r })

theorem begin_cases {l : List GrantSection} (h : s.begin t l = some s') :
    s.thread t = [] ∧ s' = s.setThread t l := by
  unfold begin at h
  split at h
  · rename_i hidle
    cases h
    exact ⟨hidle, rfl⟩
  · cases h

/-- A turn over the registered connections. -/
theorem calling_turns {f : Str → GrantSection} (h : s.begin t (s.registry.registered.map f) = some s')
    (hf : ∀ g, (f g).event = none ∧ (f g).Beats ∧ (f g).about = some g) : Calling s s' := by
  obtain ⟨hidle, rfl⟩ := begin_cases h
  refine .begins t _ _ hidle ⟨rfl, rfl⟩ (fun x hx => ?_) rfl
  obtain ⟨g, hg, rfl⟩ := List.mem_map.1 hx
  obtain ⟨hevent, hbeats, habout⟩ := hf g
  refine ⟨hevent, hbeats, fun g' hg' => .inr ?_⟩
  rw [habout] at hg'
  cases hg'
  exact hg

/-- A connection that ends itself leaves the registry to a section of its thread. -/
theorem calling_endItself {f : GrantConnection → GrantSection}
    (h : s.endItself t g f = some s')
    (hf : ∀ c, (f c).event = none ∧ (f c).Beats ∧ (f c).about = some g) :
    Calling s s' := by
  unfold endItself at h
  split at h
  · cases h
  · rename_i c hc
    obtain ⟨hidle, rfl⟩ := begin_cases h
    refine .begins t _ _ hidle ⟨rfl, rfl⟩ (fun x hx => ?_) rfl
    split at hx
    · rw [List.mem_singleton.1 hx]
      obtain ⟨hevent, hbeats, habout⟩ := hf c
      refine ⟨hevent, hbeats, fun g' hg' => .inl ?_⟩
      rw [habout] at hg'
      cases hg'
      rw [hc]
      rfl
    · cases hx

theorem calling_opens {reservation : ℕ} {grant : Grant} {signalWriter : Bool}
    (hfresh : s.registry.connection grant.grantId = none)
    (h : s.openReserved t reservation grant signalWriter = some s') : Calling s s' := by
  unfold openReserved at h
  split at h
  · rename_i r hr
    obtain ⟨s₁, hb, rfl⟩ := Option.map_eq_some_iff.1 h
    obtain ⟨hidle, rfl⟩ := begin_cases hb
    obtain ⟨-, hsame⟩ | ⟨_, hopened, -⟩ := openReserved_cases hr
    · exact .begins t [] r hidle hsame (fun _ hx => by cases hx) rfl
    · cases hopened
  · rename_i r hr
    obtain ⟨s₁, hb, rfl⟩ := Option.map_eq_some_iff.1 h
    obtain ⟨hidle, rfl⟩ := begin_cases hb
    obtain ⟨hopened, -⟩ | ⟨uid, -, -, hregister⟩ := openReserved_cases hr
    · cases hopened
    have hsame := @release_same (s.registry.spent reservation uid) uid
    refine .registers t _ r grant uid signalWriter hidle hfresh ?_ ?_ (fun x hx => ?_) rfl
    · rw [hregister]
      unfold GrantConnections.register
      dsimp only
      rw [hsame.registered]
      rfl
    · rw [hregister]
      unfold GrantConnections.register
      dsimp only
      rw [hsame.connection]
      rfl
    · split at hx
      · exact List.mem_singleton.1 hx
      · cases hx

/-- The calls, by what they do to the connections and the threads. -/
theorem call_cases {c : GrantCall} (hs : s.step c = some s') :
    (∃ t now taken, c = .turn t now taken) ∨ Calling s s' := by
  cases c with
  | reserve uid =>
    cases hs
    exact .inr (.reserves _ reserve_same rfl)
  | openReserved t reservation grant signalWriter =>
    simp only [step] at hs
    split at hs
    · rename_i hfresh
      exact .inr (calling_opens hfresh hs)
    · cases hs
  | cancel reservation =>
    cases hs
    exact .inr (.reserves _ cancel_same rfl)
  | policyVersionChanged t policyVersion =>
    exact .inr (calling_turns hs fun _ => ⟨rfl, trivial, rfl⟩)
  | tick t now currentPolicyVersion => exact .inr (calling_turns hs fun _ => ⟨rfl, trivial, rfl⟩)
  | shutdown t =>
    obtain ⟨s₁, hb, rfl⟩ := Option.map_eq_some_iff.1 hs
    obtain ⟨hidle, rfl⟩ := begin_cases hb
    refine .inr (.begins t _ { s.registry with stopping := true } hidle ⟨rfl, rfl⟩
      (fun x hx => ?_) rfl)
    rw [List.mem_singleton.1 hx]
    exact ⟨rfl, trivial, fun _ hg => by cases hg⟩
  | peerClosed t g =>
    exact .inr (calling_endItself (f := fun _ => .peerLost g _) hs fun _ => ⟨rfl, trivial, rfl⟩)
  | peerWrote t g =>
    exact .inr (calling_endItself (f := fun _ => .peerLost g _) hs fun _ => ⟨rfl, trivial, rfl⟩)
  | reachedItsLifetime t now g =>
    exact .inr (calling_endItself (f := fun c => .endGrant g .expired c.grant.policyVersion now) hs
      fun _ => ⟨rfl, trivial, rfl⟩)
  | turn t now taken => exact .inl ⟨t, now, taken, rfl⟩

/-- **One call** keeps the book: a registration leads to its record. -/
theorem Calling.booked (h : s.Booked) (hs : Calling s s') : s'.Booked := by
  cases hs with
  | reserves r hsame heq =>
    subst heq
    refine h.of_eq (fun _ _ => rfl) (fun _ _ _ => .rfl) hsame.registered ?_ h.sections h.heads
    dsimp only
    rw [hsame.connection]
    exact fun _ => rfl
  | begins t l r hidle hsame hplain heq =>
    subst heq
    have hdue : ∀ u, (s.setThread t l).due u = s.due u := by
      intro u
      rw [setThread_due]
      split
      · rename_i hu
        subst hu
        rw [head_event_none fun x hx => (hplain x hx).event]
        unfold due
        rw [hidle]
        rfl
      · rfl
    refine h.of_eq (fun _ _ => rfl) (fun _ _ u => Due.of_eq (hdue u)) hsame.registered ?_
      (setThread_all h.sections fun x hx g hg => ?_)
      (setThread_all (P := HeadOnly) h.heads fun x hx =>
        (hplain x (List.mem_of_mem_tail hx)).event)
    · dsimp only
      rw [hsame.connection]
      exact fun _ => rfl
    · exact ((hplain x hx).known g hg).elim id (h.known g)
  | registers t l r grant uid signalWriter hidle hfresh hreg hconn hplain heq =>
    subst heq
    have hnone : (s.registry.connection grant.grantId).isSome = false := by rw [hfresh]; rfl
    have hnew : grant.grantId ∉ s.registry.registered := fun hmem => by
      rw [h.known _ hmem] at hnone
      cases hnone
    rw [if_neg hnew] at hreg
    have hconnection : ∀ g, (r.connection g).isSome ↔
        g = grant.grantId ∨ (s.registry.connection g).isSome := by
      intro g
      rw [hconn]
      dsimp only
      split
      · rename_i hg
        exact iff_of_true rfl (.inl hg)
      · rename_i hg
        exact (or_iff_right hg).symm
    have hdue : s.due t = none := by
      unfold due
      rw [hidle]
      rfl
    obtain ⟨hunsaid, hsaid, hleads⟩ :=
      @turn_leads s t (.ofGrant grant) { s with registry := r } rfl rfl hdue l
    have hother : ∀ g, g ≠ grant.grantId → ∀ b, ¬ ((GrantEvent.ofGrant grant).grantId = g ∧
        (GrantEvent.ofGrant grant).isEnd = b) := fun g hne b hg => hne hg.1.symm
    have hmem : ∀ g, g ∈ r.registered ↔ g = grant.grantId ∨ g ∈ s.registry.registered := by
      intro g
      rw [hreg, List.mem_append, List.mem_singleton]
      exact or_comm
    refine ⟨?_, fun g hg => ?_, setThread_all (P := Known _) (fun u y hy g hg => ?_) fun y hy g hg => ?_,
      setThread_all (P := HeadOnly) h.heads fun y hy => ?_,
      fun g b hg => ?_, fun g hg => ?_, fun g hg => ?_, fun g hg hno => ?_⟩
    · rw [hreg]
      refine List.nodup_append.2 ⟨h.nodup, List.nodup_singleton _, fun g hg g' hg' heq => ?_⟩
      rw [List.mem_singleton.1 hg'] at heq
      exact hnew (heq ▸ hg)
    · exact (hconnection g).2 (((hmem g).1 hg).imp_right (h.known g))
    · exact (hconnection g).2 (.inr (h.sections u y hy g hg))
    · refine (hconnection g).2 (.inl ?_)
      rcases List.mem_cons.1 hy with rfl | hy
      · cases hg
        rfl
      · rw [hplain y hy] at hg
        cases hg
        rfl
    · rw [hplain y hy]
      rfl
    · have hne : g ≠ grant.grantId ∧ (s.registry.connection g).isSome = false := by
        have hno := mt (hconnection g).2 (by rw [hg]; decide)
        exact ⟨fun heq => hno (.inl heq), Bool.eq_false_iff.2 fun heq => hno (.inr heq)⟩
      exact hunsaid g b (hother g hne.1 b) (h.unknown g b hne.2)
    · by_cases heq : g = grant.grantId
      · subst heq
        exact hleads (h.unknown _ _ hnone)
      · exact hsaid g false (hother g heq _) (h.issue g (((hconnection g).1 hg).resolve_left heq))
    · by_cases heq : g = grant.grantId
      · subst heq
        exact hunsaid _ true (fun hb => by cases hb.2) (h.unknown _ _ hnone)
      · exact hunsaid g true (hother g heq _) (h.standing g (((hmem g).1 hg).resolve_left heq))
    · have hne : g ≠ grant.grantId := fun heq => hno ((hmem g).2 (.inl heq))
      exact hsaid g true (hother g hne _) (h.ending g (((hconnection g).1 hg).resolve_left hne)
        fun hg' => hno ((hmem g).2 (.inr hg')))

/-- **One step** keeps the book. -/
theorem step_booked (h : s.Booked) {c : GrantCall} (hs : s.step c = some s') : s'.Booked := by
  obtain ⟨t, now, taken, rfl⟩ | hcall := call_cases hs
  · simp only [step] at hs
    split at hs
    · cases hs
    · rename_i x rest ht
      cases hs
      exact turn_booked h ht rfl
  · exact hcall.booked h

end GrantService

end SayFirst.Plane
