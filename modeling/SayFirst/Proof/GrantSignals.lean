import SayFirst.Proof.GrantRecord

/-!
# The signals of a grant, and the order of its record

What no lock orders is an end recorded before its registration was, and a heartbeat
handed on after the end.

* `perform_signals` — what one section does to the signals of a connection.
* `InTime` — the sections that keep the order.
* `signals_in_order` — the law, over every run.
-/

namespace SayFirst.Plane

open Py

namespace GrantService

variable {s s' : GrantService} {t u : ℕ} {g : Str} {b : Bool} {now : ℤ} {taken : Bool}
  {x y : GrantSection} {new rest : List GrantSection} {c c' : GrantConnection}

/-! ## What a section does to the signals of a connection -/

/-- What one section does to the signals of one connection: nothing, or it tells the end of a
connection it takes out of the registry, or it hands a heartbeat on. -/
inductive Signalling (s s' : GrantService) (taken : Bool) (x : GrantSection) (g : Str)
    (c c' : GrantConnection) : Prop
  | quiet (written : c'.written = c.written) (signals : c'.signals = c.signals)
  | ended (registered : g ∈ s.registry.registered)
      (gone : s'.registry.registered = s.registry.registered.erase g) (signal : GrantSignal)
      (kind : signal.kind = .grantEnded)
      (written : c'.written = c.written ∨ c'.written = c.written ++ [signal])
      (signals : c'.signals = c.signals ∨ c'.signals = c.signals ++ [signal])
  | wrote (signal : GrantSignal) (section_ : x = .write g signal) (writer : c.signalWriter = true)
      (took : taken = true) (written : c'.written = c.written ++ [signal])
      (signals : c'.signals = c.signals)
  | appended (signal : GrantSignal) (section_ : x = .append g signal)
      (written : c'.written = c.written) (signals : c'.signals = c.signals ++ [signal])

theorem change_cases {r : GrantConnections} {g g' : Str} {f : GrantConnection → GrantConnection}
    (h : (r.change g f).connection g' = some c') :
    ∃ c, r.connection g' = some c ∧ ((g' = g ∧ c' = f c) ∨ c' = c) := by
  unfold GrantConnections.change at h
  dsimp only at h
  split at h
  · rename_i hg
    obtain ⟨c, hc, rfl⟩ := Option.map_eq_some_iff.1 h
    exact ⟨c, hc, .inl ⟨hg, rfl⟩⟩
  · exact ⟨c', h, .inr rfl⟩

/-- `_write` of the end appends its signal, or nothing. -/
theorem write_cases (c : GrantConnection) (signal : GrantSignal) (taken : Bool) :
    ((c.write signal taken).written = c.written ∨
      (c.write signal taken).written = c.written ++ [signal]) ∧
    ((c.write signal taken).signals = c.signals ∨
      (c.write signal taken).signals = c.signals ++ [signal]) := by
  unfold GrantConnection.write
  split
  · split
    · exact ⟨.inr rfl, .inr rfl⟩
    · exact ⟨.inl rfl, .inl rfl⟩
  · exact ⟨.inl rfl, .inr rfl⟩

theorem perform_signals (h : s.perform now taken x = (new, s'))
    (hc : s'.registry.connection g = some c') :
    ∃ c, s.registry.connection g = some c ∧ Signalling s s' taken x g c c' := by
  cases perform_cases h with
  | leads _ => exact ⟨c', hc, .quiet rfl rfl⟩
  | ends g₀ reason policyVersion at_ hreg =>
    obtain ⟨c₁, hc₁, hlast⟩ := change_cases hc
    obtain ⟨c, hold, hfirst⟩ := change_cases hc₁
    refine ⟨c, hold, ?_⟩
    have hsame : c₁.written = c.written ∧ c₁.signals = c.signals := by
      rcases hfirst with ⟨-, rfl⟩ | rfl
      · exact ⟨rfl, rfl⟩
      · exact ⟨rfl, rfl⟩
    rcases hlast with ⟨rfl, rfl⟩ | rfl
    · obtain ⟨hwritten, hsignals⟩ := write_cases c₁
        { kind := .grantEnded, grantId := g, policyVersion, at_, reason := some reason } taken
      rw [hsame.1] at hwritten
      rw [hsame.2] at hsignals
      exact .ended hreg rfl _ rfl hwritten hsignals
    · exact .quiet hsame.1 hsame.2
  | loses g₀ reason hreg =>
    obtain ⟨c, hold, ⟨-, rfl⟩ | rfl⟩ := change_cases hc
    · exact ⟨c, hold, .quiet rfl rfl⟩
    · exact ⟨_, hold, .quiet rfl rfl⟩
  | writes g₀ signal c₀ hc₀ hw ht =>
    obtain ⟨c, hold, ⟨rfl, rfl⟩ | rfl⟩ := change_cases hc
    · rw [hc₀] at hold
      cases hold
      exact ⟨c₀, hc₀, .wrote signal rfl hw ht rfl rfl⟩
    · exact ⟨_, hold, .quiet rfl rfl⟩
  | appends g₀ signal =>
    obtain ⟨c, hold, ⟨rfl, rfl⟩ | rfl⟩ := change_cases hc
    · exact ⟨c, hold, .appended signal rfl rfl rfl⟩
    · exact ⟨_, hold, .quiet rfl rfl⟩
  | hears g₀ at_ =>
    obtain ⟨c, hold, ⟨-, rfl⟩ | rfl⟩ := change_cases hc
    · exact ⟨c, hold, .quiet rfl rfl⟩
    · exact ⟨_, hold, .quiet rfl rfl⟩
  | records e => exact ⟨c', hc, .quiet rfl rfl⟩

/-! ## The order of the signals and of the record -/

/-- Heartbeats, then at most one end, and nothing after it. -/
def EndsLast (l : List GrantSignal) : Prop :=
  ∃ beats ends, l = beats ++ ends ∧ (∀ y ∈ beats, y.kind = .heartbeat) ∧
    (∀ y ∈ ends, y.kind = .grantEnded) ∧ ends.length ≤ 1

/-- The end is among the signals. -/
def Told (l : List GrantSignal) : Prop := ∃ y ∈ l, y.kind = .grantEnded

theorem endsLast_untold {l : List GrantSignal} (h : ¬ Told l) : EndsLast l := by
  refine ⟨l, [], (List.append_nil l).symm, fun y hy => ?_, fun _ hy => by (cases hy), Nat.zero_le _⟩
  cases hk : y.kind with
  | heartbeat => rfl
  | grantEnded => exact absurd ⟨y, hy, hk⟩ h

theorem endsLast_end {l : List GrantSignal} {signal : GrantSignal} (h : ¬ Told l)
    (hk : signal.kind = .grantEnded) : EndsLast (l ++ [signal]) := by
  refine ⟨l, [signal], rfl, fun y hy => ?_, fun y hy => ?_, le_refl 1⟩
  · cases hb : y.kind with
    | heartbeat => rfl
    | grantEnded => exact absurd ⟨y, hy, hb⟩ h
  · rw [List.mem_singleton.1 hy]
    exact hk

theorem told_append {l : List GrantSignal} {signal : GrantSignal} (hk : signal.kind = .heartbeat) :
    Told (l ++ [signal]) ↔ Told l := by
  refine ⟨fun ⟨y, hy, hend⟩ => ?_, fun ⟨y, hy, hend⟩ => ⟨y, List.mem_append_left _ hy, hend⟩⟩
  rcases List.mem_append.1 hy with hy | hy
  · exact ⟨y, hy, hend⟩
  · rw [List.mem_singleton.1 hy, hk] at hend
    cases hend

/-- A heartbeat is in order just where no end was told. -/
theorem endsLast_beat {l : List GrantSignal} {signal : GrantSignal}
    (hk : signal.kind = .heartbeat) : EndsLast (l ++ [signal]) ↔ ¬ Told l := by
  constructor
  · rintro ⟨beats, ends, heq, hbeats, hends, -⟩ ⟨y, hy, hend⟩
    have hlast : ends = [] := by
      rcases List.eq_nil_or_concat ends with h | ⟨front, last, rfl⟩
      · exact h
      · rw [List.concat_eq_append, ← List.append_assoc] at heq
        obtain ⟨-, hsame⟩ := List.append_inj' heq rfl
        cases hsame
        have hkind := hends signal (by simp)
        rw [hk] at hkind
        cases hkind
    rw [hlast, List.append_nil] at heq
    have hbeat := hbeats y (by rw [← heq]; exact List.mem_append_left _ hy)
    rw [hend] at hbeat
    cases hbeat
  · intro h
    exact endsLast_untold (mt (told_append hk).1 h)

/-- What is recorded of a grant, in order: whether it is an end. -/
def recordsOf (s : GrantService) (g : Str) : List Bool :=
  (s.events.filter (·.grantId == g)).map (·.isEnd)

theorem recordsOf_count : (s.recordsOf g).count b = s.recorded g b := by
  unfold recordsOf recorded
  rw [List.count, List.countP_map, List.countP_filter]
  refine List.countP_congr fun e _ => ?_
  simp only [Function.comp_apply, Bool.and_eq_true, beq_iff_eq]
  exact and_comm

/-- Nothing is delivered after the end, and nothing is recorded of a grant but its registration
and then its end, each once. -/
structure Orderly (s : GrantService) : Prop where
  written : ∀ g c, s.registry.connection g = some c → EndsLast c.written
  signals : ∀ g c, s.registry.connection g = some c → EndsLast c.signals
  records : ∀ g, s.recordsOf g <+: [false, true]
  /-- Once no thread is about to record anything of it. -/
  settled : ∀ g, (s.registry.connection g).isSome → (∀ t b, ¬ s.Due g b t) →
    s.recordsOf g = if g ∈ s.registry.registered then [false] else [false, true]

theorem SaidOnce.settled (h : s.SaidOnce g b) (hno : ∀ t b, ¬ s.Due g b t) :
    s.recorded g b = 1 := by
  rcases h with ⟨hone, -⟩ | ⟨-, t, ht, -⟩
  · exact hone
  · exact absurd ht (hno t b)

theorem prefix_cases {l : List Bool} (h : l <+: [false, true]) :
    l = [] ∨ l = [false] ∨ l = [false, true] := by
  obtain ⟨m, hm⟩ := h
  match l with
  | [] => exact .inl rfl
  | [x] =>
    cases hm
    exact .inr (.inl rfl)
  | [x, y] =>
    cases hm
    exact .inr (.inr rfl)
  | x :: y :: z :: l => cases hm

/-- With the book, the order is all that is left to see to. -/
theorem Booked.orderly (h : s.Booked)
    (hwritten : ∀ g c, s.registry.connection g = some c → EndsLast c.written)
    (hsignals : ∀ g c, s.registry.connection g = some c → EndsLast c.signals)
    (hrecords : ∀ g, s.recordsOf g <+: [false, true]) : s.Orderly := by
  refine ⟨hwritten, hsignals, hrecords, fun g hg hno => ?_⟩
  have hissued := (h.issue g hg).settled hno
  rw [← recordsOf_count] at hissued
  split
  · rename_i hreg
    have hunsaid := (h.standing g hreg).1
    rw [← recordsOf_count] at hunsaid
    rcases prefix_cases (hrecords g) with heq | heq | heq
    · rw [heq] at hissued
      cases hissued
    · exact heq
    · rw [heq] at hunsaid
      cases hunsaid
  · rename_i hreg
    have hended := (h.ending g hg hreg).settled hno
    rw [← recordsOf_count] at hended
    rcases prefix_cases (hrecords g) with heq | heq | heq
    · rw [heq] at hissued
      cases hissued
    · rw [heq] at hended
      cases hended
    · exact heq

/-! ## One step -/

/-- The book is kept, and no end is told on a connection that is registered. -/
structure Standing (s : GrantService) : Prop where
  booked : s.Booked
  beats : ∀ t, ∀ x ∈ s.thread t, x.Beats
  untold : ∀ g ∈ s.registry.registered, ∀ c, s.registry.connection g = some c →
    ¬ Told c.written ∧ ¬ Told c.signals

theorem initial_standing (limits : GrantLimits) : (initial limits).Standing where
  booked := initial_booked limits
  beats _ _ h := by cases h
  untold _ h := by cases h

theorem setThread_beats {l : List GrantSection} (h : ∀ u, ∀ x ∈ s.thread u, x.Beats)
    (hl : ∀ x ∈ l, x.Beats) : ∀ u, ∀ x ∈ (s.setThread t l).thread u, x.Beats :=
  setThread_all (P := fun l => ∀ x ∈ l, x.Beats) h hl

theorem turn_cases {t : ℕ} (hs : s.step (.turn t now taken) = some s') :
    ∃ x rest new s₁, s.thread t = x :: rest ∧ s.perform now taken x = (new, s₁) ∧
      s' = s₁.setThread t (new ++ rest) := by
  simp only [step] at hs
  split at hs
  · cases hs
  · rename_i x rest ht
    cases hs
    exact ⟨x, rest, _, _, ht, rfl, rfl⟩

/-- **One step** tells no end on a connection that is registered. -/
theorem step_standing (h : s.Standing) {c : GrantCall} (hs : s.step c = some s') :
    s'.Standing := by
  have hbooked := step_booked h.booked hs
  obtain ⟨t, now, taken, rfl⟩ | hcall := call_cases hs
  · obtain ⟨x, rest, new, s₁, ht, hp, rfl⟩ := turn_cases hs
    have hbeats : ∀ y ∈ x :: rest, y.Beats := fun y hy => h.beats t y (by rw [ht]; exact hy)
    obtain ⟨hframed, hrecord⟩ := perform_record hp
    have hregistered : ∀ g ∈ s₁.registry.registered, g ∈ s.registry.registered := by
      intro g hg
      rcases hrecord with ⟨-, -, hreg⟩ | ⟨_, -, -, hregistry, -⟩ | ⟨_, _, _, -, -, -, -, hreg⟩
      · rwa [hreg] at hg
      · rwa [hregistry] at hg
      · rw [hreg] at hg
        exact List.mem_of_mem_erase hg
    have hnew : ∀ y ∈ new, y.Beats := by
      rcases hrecord with ⟨hleads, -⟩ | ⟨_, -, rfl, -⟩ | ⟨_, _, _, -, -, rfl, -⟩
      · exact hleads.beats (hbeats x List.mem_cons_self)
      · exact fun _ hy => by cases hy
      · intro y hy
        rw [List.mem_singleton.1 hy]
        trivial
    refine ⟨hbooked, setThread_beats (by rw [hframed.thread]; exact h.beats) fun y hy => ?_,
      fun g hg c hc => ?_⟩
    · rcases List.mem_append.1 hy with hy | hy
      · exact hnew y hy
      · exact hbeats y (List.mem_cons_of_mem _ hy)
    · obtain ⟨c₀, hc₀, hsignal⟩ := perform_signals hp hc
      have huntold := h.untold g (hregistered g hg) c₀ hc₀
      have hhead := hbeats x List.mem_cons_self
      cases hsignal with
      | quiet hwritten hsignals => rwa [hwritten, hsignals]
      | ended _ hgone =>
        rw [setThread_registry, hgone] at hg
        exact absurd rfl (h.booked.nodup.mem_erase_iff.1 hg).1
      | wrote signal hx _ _ hwritten hsignals =>
        subst hx
        rw [hwritten, hsignals, told_append hhead]
        exact huntold
      | appended signal hx hwritten hsignals =>
        subst hx
        rw [hwritten, hsignals, told_append hhead]
        exact huntold
  · cases hcall with
    | reserves r hsame heq =>
      subst heq
      exact ⟨hbooked, h.beats, by
        dsimp only
        rw [hsame.registered, hsame.connection]
        exact h.untold⟩
    | begins t l r _ hsame hplain heq =>
      subst heq
      exact ⟨hbooked, setThread_beats h.beats fun x hx => (hplain x hx).beats, by
        dsimp only
        rw [hsame.registered, hsame.connection]
        exact h.untold⟩
    | registers t l r grant uid signalWriter _ hfresh hreg hconn hplain heq =>
      subst heq
      refine ⟨hbooked, setThread_beats h.beats fun x hx => ?_, fun g hg c hc => ?_⟩
      · rcases List.mem_cons.1 hx with rfl | hx
        · trivial
        · rw [hplain x hx]
          trivial
      · dsimp only at hg hc
        rw [hconn] at hc
        dsimp only at hc
        split at hc
        · cases hc
          exact ⟨fun ⟨_, hy, _⟩ => by (cases hy), fun ⟨_, hy, _⟩ => by cases hy⟩
        · rename_i hne
          refine h.untold g ?_ c hc
          rw [hreg] at hg
          split at hg
          · exact hg
          · exact (List.mem_append.1 hg).resolve_right fun hg => hne (List.mem_singleton.1 hg)

/-- A heartbeat is handed to the writer, and noted, before an ender told the end; an end is recorded
behind the registration of its grant. -/
def InTime (s : GrantService) : GrantCall → Prop
  | .turn t _ taken =>
    match s.thread t with
    | .write g _ :: _ => taken = true → ∀ c, s.registry.connection g = some c →
        c.signalWriter = true → ¬ Told c.written
    | .append g _ :: _ => ∀ c, s.registry.connection g = some c → ¬ Told c.signals
    | .record e :: _ => e.isEnd = true → ∀ u, ¬ s.Due e.grantId false u
    | _ => True
  | _ => True

theorem recordsOf_append {e : GrantEvent} (h : s'.events = s.events ++ [e]) :
    s'.recordsOf g = s.recordsOf g ++ if e.grantId = g then [e.isEnd] else [] := by
  unfold recordsOf
  rw [h, List.filter_append, List.map_append]
  congr 1
  by_cases hg : e.grantId = g
  · rw [if_pos hg, List.filter_cons_of_pos (by simpa using hg)]
    rfl
  · rw [if_neg hg, List.filter_cons_of_neg (by simpa using hg)]
    rfl

theorem recordsOf_same (h : s'.events = s.events) : s'.recordsOf g = s.recordsOf g := by
  unfold recordsOf
  rw [h]

/-- An event about to be recorded is in order just where it is a registration, or finds its own
registration recorded. -/
theorem records_step (h : s.Booked) (ho : ∀ g, s.recordsOf g <+: [false, true]) {e : GrantEvent}
    (hdue : s.due t = some e) (hevents : s'.events = s.events ++ [e]) :
    (∀ g, s'.recordsOf g <+: [false, true]) ↔
      (e.isEnd = true → ∀ u, ¬ s.Due e.grantId false u) := by
  have hmine : s.Due e.grantId e.isEnd t := ⟨e, hdue, rfl, rfl⟩
  have hknown : (s.registry.connection e.grantId).isSome := by
    cases hk : (s.registry.connection e.grantId).isSome with
    | true => rfl
    | false => exact absurd hmine ((h.unknown _ _ hk).2 t)
  have hafter : s'.recordsOf e.grantId = s.recordsOf e.grantId ++ [e.isEnd] := by
    rw [recordsOf_append hevents, if_pos rfl]
  have hothers : ∀ g, g ≠ e.grantId → s'.recordsOf g = s.recordsOf g := by
    intro g hne
    rw [recordsOf_append hevents, if_neg (Ne.symm hne), List.append_nil]
  have hzero : (s.recordsOf e.grantId).count e.isEnd = 0 := by
    rw [recordsOf_count]
    cases hend : e.isEnd with
    | false =>
      rcases h.issue _ hknown with ⟨-, hno⟩ | ⟨hzero, -⟩
      · exact absurd (hend ▸ hmine) (hno t)
      · exact hzero
    | true =>
      by_cases hreg : e.grantId ∈ s.registry.registered
      · exact (h.standing _ hreg).1
      · rcases h.ending _ hknown hreg with ⟨-, hno⟩ | ⟨hzero, -⟩
        · exact absurd (hend ▸ hmine) (hno t)
        · exact hzero
  have hall : (∀ g, s'.recordsOf g <+: [false, true]) ↔
      s.recordsOf e.grantId ++ [e.isEnd] <+: [false, true] := by
    refine ⟨fun hs => hafter ▸ hs e.grantId, fun hs g => ?_⟩
    by_cases hg : g = e.grantId
    · rw [hg, hafter]
      exact hs
    · rw [hothers g hg]
      exact ho g
  rw [hall]
  have hissued := h.issue _ hknown
  cases hend : e.isEnd with
  | false =>
    refine iff_of_true ?_ fun hf => by cases hf
    rw [hend] at hzero
    rcases prefix_cases (ho e.grantId) with heq | heq | heq
    · rw [heq]
      exact ⟨[true], rfl⟩
    · rw [heq] at hzero
      cases hzero
    · rw [heq] at hzero
      cases hzero
  | true =>
    rw [hend] at hzero
    constructor
    · intro hprefix _ u hu
      rcases hissued with ⟨-, hno⟩ | ⟨hnot, -⟩
      · exact hno u hu
      · rw [← recordsOf_count] at hnot
        rcases prefix_cases (ho e.grantId) with heq | heq | heq
        · rw [heq] at hprefix
          obtain ⟨_, hbad⟩ := hprefix
          cases hbad
        · rw [heq] at hnot
          cases hnot
        · rw [heq] at hnot
          cases hnot
    · intro hno
      rcases hissued with ⟨hone, -⟩ | ⟨-, u, hu, -⟩
      · rw [← recordsOf_count] at hone
        rcases prefix_cases (ho e.grantId) with heq | heq | heq
        · rw [heq] at hone
          cases hone
        · rw [heq]
          exact List.prefix_rfl
        · rw [heq] at hzero
          cases hzero
      · exact absurd hu (hno rfl u)

theorem change_self {r : GrantConnections} {f : GrantConnection → GrantConnection}
    (h : r.connection g = some c) : (r.change g f).connection g = some (f c) := by
  unfold GrantConnections.change
  dsimp only
  rw [if_pos rfl, h]
  rfl

/-- **One section**: the order is kept just where the section is in time. -/
theorem turn_orderly (h : s.Standing) (ho : s.Orderly) (ht : s.thread t = x :: rest)
    (hp : s.perform now taken x = (new, s')) :
    (s'.setThread t (new ++ rest)).Orderly ↔ s.InTime (.turn t now taken) := by
  have hhead : x.Beats := h.beats t x (by rw [ht]; exact List.mem_cons_self)
  constructor
  · intro ho'
    simp only [InTime, ht]
    cases x with
    | write g signal =>
      intro htaken c hc hwriter
      simp only [perform, hc, hwriter, htaken, if_true] at hp
      cases hp
      exact (endsLast_beat hhead).1 (ho'.written g _ (change_self hc))
    | append g signal =>
      intro c hc
      cases hp
      exact (endsLast_beat hhead).1 (ho'.signals g _ (change_self hc))
    | record e =>
      cases hp
      exact (records_step h.booked ho.records (due_cons ht) rfl).1 ho'.records
    | _ => trivial
  · intro hok
    simp only [InTime, ht] at hok
    refine (turn_booked h.booked ht hp).orderly (fun g c' hc' => ?_) (fun g c' hc' => ?_) ?_
    · obtain ⟨c, hc, hsignal⟩ := perform_signals hp hc'
      cases hsignal with
      | quiet hwritten => exact hwritten ▸ ho.written g c hc
      | ended hreg _ signal hkind hwritten =>
        rcases hwritten with heq | heq
        · exact heq ▸ ho.written g c hc
        · exact heq ▸ endsLast_end (h.untold g hreg c hc).1 hkind
      | wrote signal hx hwriter htaken hwritten =>
        subst hx
        exact hwritten ▸ (endsLast_beat hhead).2 (hok htaken c hc hwriter)
      | appended _ _ hwritten => exact hwritten ▸ ho.written g c hc
    · obtain ⟨c, hc, hsignal⟩ := perform_signals hp hc'
      cases hsignal with
      | quiet _ hsignals => exact hsignals ▸ ho.signals g c hc
      | ended hreg _ signal hkind _ hsignals =>
        rcases hsignals with heq | heq
        · exact heq ▸ ho.signals g c hc
        · exact heq ▸ endsLast_end (h.untold g hreg c hc).2 hkind
      | wrote _ _ _ _ _ hsignals => exact hsignals ▸ ho.signals g c hc
      | appended signal hx _ hsignals =>
        subst hx
        exact hsignals ▸ (endsLast_beat hhead).2 (hok c hc)
    · have hsame : ∀ {s₁ : GrantService}, s₁.events = s.events →
          ∀ g, s₁.recordsOf g <+: [false, true] := fun heq g => by
        rw [recordsOf_same heq]
        exact ho.records g
      obtain ⟨-, ⟨-, hevents, -⟩ | ⟨e, rfl, -, -, hevents⟩ | ⟨_, _, _, -, -, -, hevents, -⟩⟩ :=
        perform_record hp
      · exact hsame hevents
      · exact (records_step h.booked ho.records (due_cons ht) hevents).2 hok
      · exact hsame hevents

/-- A call delivers nothing and records nothing. -/
theorem Calling.orderly (h : s.Booked) (ho : s.Orderly) (hs : Calling s s') : s'.Orderly := by
  have hconns : s'.events = s.events ∧ ∀ g c, s'.registry.connection g = some c →
      s.registry.connection g = some c ∨ (c.written = [] ∧ c.signals = []) := by
    cases hs with
    | reserves r hsame heq =>
      subst heq
      exact ⟨rfl, fun g c hc => .inl (by rw [← hsame.connection]; exact hc)⟩
    | begins t l r _ hsame _ heq =>
      subst heq
      exact ⟨rfl, fun g c hc => .inl (by rw [← hsame.connection]; exact hc)⟩
    | registers t l r grant uid signalWriter _ _ _ hconn _ heq =>
      subst heq
      refine ⟨rfl, fun g c hc => ?_⟩
      dsimp only at hc
      rw [hconn] at hc
      dsimp only at hc
      split at hc
      · cases hc
        exact .inr ⟨rfl, rfl⟩
      · exact .inl hc
  have hempty : EndsLast [] := endsLast_untold fun ⟨_, hy, _⟩ => by cases hy
  refine (hs.booked h).orderly (fun g c hc => ?_) (fun g c hc => ?_) fun g => ?_
  · rcases hconns.2 g c hc with hold | ⟨hnew, -⟩
    · exact ho.written g c hold
    · exact hnew ▸ hempty
  · rcases hconns.2 g c hc with hold | ⟨-, hnew⟩
    · exact ho.signals g c hold
    · exact hnew ▸ hempty
  · rw [recordsOf_same hconns.1]
    exact ho.records g

/-- **One step**: the order is kept just where the step is in time. -/
theorem step_orderly (h : s.Standing) (ho : s.Orderly) {c : GrantCall}
    (hs : s.step c = some s') : s'.Orderly ↔ s.InTime c := by
  have hcalm : (∃ t now taken, c = .turn t now taken) ∨ s.InTime c := by
    cases c with
    | turn t now taken => exact .inl ⟨t, now, taken, rfl⟩
    | _ => exact .inr trivial
  obtain ⟨t, now, taken, rfl⟩ | hcall := call_cases hs
  · obtain ⟨x, rest, new, s₁, ht, hp, rfl⟩ := turn_cases hs
    exact turn_orderly h ho ht hp
  · rcases hcalm with ⟨t, now, taken, rfl⟩ | hok
    · obtain ⟨x, rest, new, s₁, ht, hp, rfl⟩ := turn_cases hs
      exact turn_orderly h ho ht hp
    · exact iff_of_true (hcall.orderly h.booked ho) hok

theorem initial_orderly (limits : GrantLimits) : (initial limits).Orderly :=
  (initial_booked limits).orderly (fun _ _ hc => by (cases hc)) (fun _ _ hc => by (cases hc))
    fun _ => ⟨[false, true], rfl⟩

/-- **The signals and the record of a grant.** Throughout a run every connection is delivered
heartbeats and then at most one end, and every grant is recorded as issued and then as ended, once
each, just where every heartbeat is handed on before the end is told and every end is recorded
behind its registration. In every run each of the two is recorded once when its threads are done,
and a thread that has sections to take can take the next. -/
theorem signals_in_order {limits : GrantLimits} {calls : List GrantCall}
    (h : run step (initial limits) calls = some s) :
    (Throughout step Orderly (initial limits) calls ↔ Meets step InTime (initial limits) calls) ∧
    (∀ g, (s.registry.connection g).isSome → (∀ t b, ¬ s.Due g b t) →
      (s.recordsOf g).count false = 1 ∧
        (s.recordsOf g).count true = if g ∈ s.registry.registered then 0 else 1) ∧
    ∀ t now taken, s.thread t ≠ [] → ∃ s', s.step (.turn t now taken) = some s' := by
  have hstep : ∀ s c s', Standing s → step s c = some s' → Standing s' :=
    fun _ _ _ hs hc => step_standing hs hc
  have hinitial := initial_standing limits
  have hstanding : s.Standing := run_preserves hstep hinitial h
  refine ⟨throughout_iff hstep (fun _ _ _ hs ho hc => step_orderly hs ho hc) hinitial
    (initial_orderly limits) h, fun g hg hno => ⟨?_, ?_⟩, fun t now taken ht => ?_⟩
  · rw [recordsOf_count]
    exact (hstanding.booked.issue g hg).settled hno
  · rw [recordsOf_count]
    split
    · rename_i hreg
      exact (hstanding.booked.standing g hreg).1
    · rename_i hreg
      exact (hstanding.booked.ending g hg hreg).settled hno
  · simp only [step]
    split
    · rename_i hidle
      exact absurd hidle ht
    · exact ⟨_, rfl⟩

/-! ### A heartbeat behind the end, and an end in front of its registration -/

/-- A grant of thirty seconds, with a heartbeat every five. -/
def mailGrant : Grant where
  grantId := lit "g0"
  decisionRef := lit "d0"
  policyVersion := lit "v1"
  issuedAt := 0
  lifetimeSeconds := 30
  expiresAt := 30000000
  heartbeatSeconds := 5
  conditions := ⟨lit "local", lit "mail.send", lit "user:build", none⟩
  held := by decide

/-- The grant is registered, recorded as issued and due a heartbeat, which thread 1 comes to. -/
def heartbeatDue : List GrantCall :=
  [.reserve 1001, .openReserved 0 0 mailGrant true, .turn 0 0 true,
    .tick 1 5000000 (lit "v1"), .turn 1 5000000 true]

/-- The policy version changes before thread 1 hands the heartbeat on. -/
def lateHeartbeat : List GrantCall :=
  heartbeatDue ++ [.policyVersionChanged 2 (lit "v2"), .turn 2 5000000 true, .turn 2 5000000 true,
    .turn 1 5000000 true]

/-- The peer closes before the thread that registered the grant records it. -/
def earlyEnd : List GrantCall :=
  [.reserve 1001, .openReserved 0 0 mailGrant true, .peerClosed 1 (lit "g0"), .turn 1 0 true,
    .turn 1 0 true, .turn 0 0 true]

theorem signals_out_of_order :
    (∃ s, run step (initial {}) lateHeartbeat = some s ∧ ¬ s.Orderly) ∧
      ∃ s, run step (initial {}) earlyEnd = some s ∧ ¬ s.Orderly := by
  constructor
  · have hrun : (run step (initial {}) lateHeartbeat).map (fun s =>
        (s.registry.connection (lit "g0")).map (·.written)) =
        some (some [⟨.grantEnded, lit "g0", lit "v2", 5000000, some .policyVersionChanged⟩,
          ⟨.heartbeat, lit "g0", lit "v1", 5000000, none⟩]) := by decide +kernel
    obtain ⟨s, hs, hread⟩ := Option.map_eq_some_iff.1 hrun
    obtain ⟨c, hc, hwritten⟩ := Option.map_eq_some_iff.1 hread
    refine ⟨s, hs, fun ho => ?_⟩
    have hends := ho.written _ c hc
    rw [hwritten] at hends
    exact (endsLast_beat (l := [_]) rfl).1 hends ⟨_, List.mem_singleton_self _, rfl⟩
  · have hrun : (run step (initial {}) earlyEnd).map (fun s => s.recordsOf (lit "g0")) =
        some [true, false] := by decide +kernel
    obtain ⟨s, hs, hread⟩ := Option.map_eq_some_iff.1 hrun
    refine ⟨s, hs, fun ho => ?_⟩
    have hprefix := ho.records (lit "g0")
    rw [hread] at hprefix
    exact absurd hprefix (by decide)

/-- The registration is recorded and the heartbeat handed on before the peer closes. -/
def beforeTheEnd : List GrantCall :=
  heartbeatDue ++ [.turn 1 5000000 true, .turn 1 5000000 true, .turn 1 5000000 true,
    .peerClosed 2 (lit "g0"), .turn 2 6000000 true]

theorem signals_in_order_closed : ∃ s,
    run step (initial {}) (beforeTheEnd ++ [.turn 2 6000000 true]) = some s ∧
    Throughout step Orderly (initial {}) (beforeTheEnd ++ [.turn 2 6000000 true]) := by
  have hbefore : (run step (initial {}) beforeTheEnd).map (fun s =>
      (s.thread 2, s.recordsOf (lit "g0"))) =
      some ([.record (.ended (lit "g0") (lit "connection_lost") 6000000)], [false]) := by
    decide +kernel
  have hrun : ((run step (initial {}) (beforeTheEnd ++ [.turn 2 6000000 true])).map fun s =>
      s.recordsOf (lit "g0")) = some [false, true] := by decide +kernel
  obtain ⟨s, hs, -⟩ := Option.map_eq_some_iff.1 hrun
  obtain ⟨hthroughout, -⟩ := signals_in_order hs
  refine ⟨s, hs, hthroughout.2 (Meets.append ?_ fun mid hmid => ⟨?_, fun _ _ => trivial⟩)⟩
  · have huntold : ¬ Told [] := fun ⟨_, hy, _⟩ => by cases hy
    refine ⟨trivial, fun _ h => ?_⟩
    cases h
    refine ⟨trivial, fun _ h => ?_⟩
    cases h
    refine ⟨fun hend => by (cases hend), fun _ h => ?_⟩
    cases h
    refine ⟨trivial, fun _ h => ?_⟩
    cases h
    refine ⟨trivial, fun _ h => ?_⟩
    cases h
    refine ⟨fun _ c hc _ => ?_, fun _ h => ?_⟩
    · cases hc
      exact huntold
    cases h
    refine ⟨fun c hc => ?_, fun _ h => ?_⟩
    · cases hc
      exact huntold
    cases h
    refine ⟨trivial, fun _ h => ?_⟩
    cases h
    refine ⟨trivial, fun _ h => ?_⟩
    cases h
    exact ⟨trivial, fun _ _ => trivial⟩
  · rw [hmid] at hbefore
    obtain ⟨hthread, hrecords⟩ := Prod.mk.inj (Option.some.inj hbefore)
    have hbooked : mid.Booked := run_preserves (fun _ _ _ hb hc => step_booked hb hc)
      (initial_booked {}) hmid
    have hknown : (mid.registry.connection (lit "g0")).isSome :=
      hbooked.sections 2 _ (by rw [hthread]; exact List.mem_singleton_self _) _ rfl
    simp only [InTime, hthread]
    intro _ u hu
    rcases hbooked.issue _ hknown with ⟨-, hno⟩ | ⟨hzero, -⟩
    · exact hno u hu
    · rw [← recordsOf_count, hrecords] at hzero
      cases hzero

end GrantService

end SayFirst.Plane
