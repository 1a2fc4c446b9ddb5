import SayFirst.Spec.PolicyService

/-!
# The order of the policies in force

A load, the comparison and the change are statements of their own, so a call can put
into force what it read before another call read, and settled, something newer.

* `policy_in_order` — when no call puts a policy into force that a settled read has
  overtaken, the policy in force is the one read last, and every change goes from an
  older read to a newer one.
* `policy_overtaken` — two calls whose reads and changes are in opposite orders.
-/

namespace SayFirst.Plane

open Py

/-- The read a call still has to settle: to find its version in force, or to put it into force. -/
def LoadStage.unsettled : LoadStage → Option Answered
  | .clearing _ answered => some answered
  | .comparing _ answered => some answered
  | .changing _ answered => some answered
  | .assigning _ answered _ => some answered
  | _ => none

/-- The change a call has made, and is about to record. -/
def LoadStage.change : LoadStage → Option (Str × Answered)
  | .rebuilding _ answered previous => some (previous, answered)
  | .announcing _ answered previous => some (previous, answered)
  | _ => none

namespace PolicyService

variable {s s' : PolicyService} {reloadSeconds : ℤ} {t : ℕ}

/-! ## Reads and what became of them -/

/-- A read some call still has to settle. -/
def Unsettled (s : PolicyService) (n : ℕ) : Prop :=
  ∃ t a, (s.stage t).unsettled = some a ∧ a.number = n

/-- The version a read answered. -/
def readVersion (s : PolicyService) (n : ℕ) : Option Str := s.reads[n]?.map (·.policyVersion)

/-- No read that came after it has been settled. -/
def Newest (s : PolicyService) (n : ℕ) : Prop := ∀ k, n < k → k < s.reads.length → s.Unsettled k

/-- A call puts a policy into force only while no later read has been settled. -/
def InOrder (s : PolicyService) : PolicyAct → Prop
  | .next t _ _ => ∀ d a previous, s.stage t = .assigning d a previous → s.Newest a.number
  | _ => True

/-- A version an earlier read answered, and one a later read answered. -/
def Advances (s : PolicyService) (previous version : Str) : Prop :=
  ∃ i j, i < j ∧ s.readVersion i = some previous ∧ s.readVersion j = some version

/-- What the calls keep while each change is in order. -/
structure Ordered (s : PolicyService) : Prop where
  /-- The policy in force was read, the read is settled, and no later one is. -/
  force : ∃ n, s.readVersion n = some s.currentVersion ∧ ¬ s.Unsettled n ∧ s.Newest n
  /-- What a call holds is what it read, and no other call holds it. -/
  held : ∀ t a, (s.stage t).unsettled = some a → s.reads[a.number]? = some a.loaded ∧
    ∀ u b, (s.stage u).unsettled = some b → b.number = a.number → u = t
  /-- What a change replaces was read, and the read is settled. -/
  replaced : ∀ t d a previous, s.stage t = .assigning d a previous →
    ∃ n, s.readVersion n = some previous ∧ ¬ s.Unsettled n
  changed : ∀ t previous a, (s.stage t).change = some (previous, a) →
    s.Advances previous a.loaded.policyVersion
  recorded : ∀ previous version count reason at_,
    .versionChanged previous version count reason at_ ∈ s.events → s.Advances previous version

theorem started_ordered (loaded : LoadedPolicy) (now : ℤ) : (started loaded now).Ordered where
  force := by
    refine ⟨0, rfl, fun ⟨_, _, h, _⟩ => (by cases h), fun k hk hlen => ?_⟩
    change k < 1 at hlen
    omega
  held _ _ h := by cases h
  replaced _ _ _ _ h := by cases h
  changed _ _ _ h := by cases h
  recorded _ _ _ _ _ h := by cases h

theorem readVersion_lt {n : ℕ} {v : Str} (h : s.readVersion n = some v) : n < s.reads.length := by
  obtain ⟨loaded, hloaded, -⟩ := Option.map_eq_some_iff.1 h
  exact (List.getElem?_eq_some_iff.1 hloaded).1

/-! ## Statements that settle nothing -/

/-- A statement that reads, settles and changes nothing. -/
theorem Ordered.frame (h : s.Ordered) (hreads : s'.reads = s.reads)
    (hcurrent : s'.current = s.current)
    (hunsettled : ∀ u, (s'.stage u).unsettled = (s.stage u).unsettled)
    (hassigning : ∀ u d a p, s'.stage u = .assigning d a p →
      s.stage u = .assigning d a p ∨ p = s.currentVersion)
    (hchange : ∀ u, (s'.stage u).change = (s.stage u).change ∨ (s'.stage u).change = none)
    (hevents : ∀ p v c r i, .versionChanged p v c r i ∈ s'.events →
      .versionChanged p v c r i ∈ s.events ∨ s.Advances p v) : s'.Ordered := by
  have hopen : ∀ n, s'.Unsettled n ↔ s.Unsettled n := fun n => by
    simp only [Unsettled, hunsettled]
  have hversion : ∀ n, s'.readVersion n = s.readVersion n := fun n => by
    rw [readVersion, readVersion, hreads]
  have hadvances : ∀ {p v}, s.Advances p v → s'.Advances p v := by
    rintro p v ⟨i, j, hij, hi, hj⟩
    exact ⟨i, j, hij, by rw [hversion]; exact hi, by rw [hversion]; exact hj⟩
  obtain ⟨n, hn, hsettled, hnewest⟩ := h.force
  refine ⟨⟨n, ?_, ?_, fun k hk hlen => ?_⟩, fun u a ha => ?_, fun u d a p hu => ?_, fun u p a ha => ?_,
    fun p v c r i hmem => ?_⟩
  · rw [hversion, currentVersion, hcurrent]
    exact hn
  · rw [hopen]
    exact hsettled
  · rw [hreads] at hlen
    rw [hopen]
    exact hnewest k hk hlen
  · rw [hunsettled] at ha
    obtain ⟨hread, hunique⟩ := h.held u a ha
    rw [hreads]
    refine ⟨hread, fun v b hb hnumber => ?_⟩
    rw [hunsettled] at hb
    exact hunique v b hb hnumber
  · simp only [hversion, hopen]
    rcases hassigning u d a p hu with hold | rfl
    · exact h.replaced u d a p hold
    · exact ⟨n, hn, hsettled⟩
  · rcases hchange u with hu | hu
    · rw [hu] at ha
      exact hadvances (h.changed u p a ha)
    · rw [hu] at ha
      cases ha
  · rcases hevents p v c r i hmem with hold | hnew
    · exact hadvances (h.recorded p v c r i hold)
    · exact hadvances hnew

/-- A thread moves on, and settles and changes nothing. -/
theorem Ordered.move {stage : LoadStage} (h : s.Ordered) (hreads : s'.reads = s.reads)
    (hcurrent : s'.current = s.current)
    (hstage : s'.stage = fun u => if u = t then stage else s.stage u)
    (hunsettled : stage.unsettled = (s.stage t).unsettled)
    (hassigning : ∀ d a p, stage = .assigning d a p → p = s.currentVersion)
    (hchange : stage.change = (s.stage t).change ∨ stage.change = none)
    (hevents : ∀ p v c r i, .versionChanged p v c r i ∈ s'.events →
      .versionChanged p v c r i ∈ s.events ∨ s.Advances p v) : s'.Ordered := by
  refine h.frame hreads hcurrent (fun u => ?_) (fun u d a p hu => ?_) (fun u => ?_) hevents
  · rw [hstage]
    by_cases hut : u = t
    · subst hut
      simp only [if_true]
      exact hunsettled
    · simp only [if_neg hut]
  · rw [hstage] at hu
    by_cases hut : u = t
    · simp only [if_pos hut] at hu
      exact .inr (hassigning d a p hu)
    · simp only [if_neg hut] at hu
      exact .inl hu
  · rw [hstage]
    by_cases hut : u = t
    · subst hut
      simp only [if_true]
      exact hchange
    · simp only [if_neg hut, true_or]

/-! ## Statements that settle a read -/

/-- A load answers a policy. -/
theorem Ordered.reads {decision : Bool} {loaded : LoadedPolicy} (h : s.Ordered)
    (ht : (s.stage t).unsettled = none) :
    ({ s with reads := s.reads ++ [loaded] }.setStage t
      (.clearing decision ⟨loaded, s.reads.length⟩)).Ordered := by
  have hversion : ∀ {n v}, s.readVersion n = some v →
      ({ s with reads := s.reads ++ [loaded] }.setStage t
        (.clearing decision ⟨loaded, s.reads.length⟩)).readVersion n = some v := by
    intro n v hn
    change ((s.reads ++ [loaded])[n]?).map _ = some v
    rw [List.getElem?_append_left (readVersion_lt hn)]
    exact hn
  have hadvances : ∀ {p v}, s.Advances p v → Advances ({ s with reads := s.reads ++ [loaded]
      }.setStage t (.clearing decision ⟨loaded, s.reads.length⟩)) p v := by
    rintro p v ⟨i, j, hij, hi, hj⟩
    exact ⟨i, j, hij, hversion hi, hversion hj⟩
  have hother : ∀ u, u ≠ t → ({ s with reads := s.reads ++ [loaded] }.setStage t
      (.clearing decision ⟨loaded, s.reads.length⟩)).stage u = s.stage u := fun u hu => if_neg hu
  have hown : ({ s with reads := s.reads ++ [loaded] }.setStage t
      (.clearing decision ⟨loaded, s.reads.length⟩)).stage t =
        .clearing decision ⟨loaded, s.reads.length⟩ := if_pos rfl
  have hlater : ∀ u a, (s.stage u).unsettled = some a → a.number < s.reads.length :=
    fun u a ha => (List.getElem?_eq_some_iff.1 (h.held u a ha).1).1
  have hopen : ∀ n, n < s.reads.length → (Unsettled ({ s with reads := s.reads ++ [loaded]
      }.setStage t (.clearing decision ⟨loaded, s.reads.length⟩)) n ↔ s.Unsettled n) := by
    intro n hn
    constructor
    · rintro ⟨u, a, ha, rfl⟩
      by_cases hu : u = t
      · subst hu
        rw [hown] at ha
        cases ha
        exact absurd hn (Nat.lt_irrefl _)
      · exact ⟨u, a, by rw [← hother u hu]; exact ha, rfl⟩
    · rintro ⟨u, a, ha, rfl⟩
      refine ⟨u, a, ?_, rfl⟩
      rw [hother u fun hu => by subst hu; rw [ht] at ha; cases ha]
      exact ha
  generalize hs' : { s with reads := s.reads ++ [loaded] }.setStage t
    (.clearing decision ⟨loaded, s.reads.length⟩) = s' at *
  have hreads : s'.reads = s.reads ++ [loaded] := by subst hs'; rfl
  have hcurrent : s'.currentVersion = s.currentVersion := by subst hs'; rfl
  have hevents : s'.events = s.events := by subst hs'; rfl
  obtain ⟨n, hn, hsettled, hnewest⟩ := h.force
  refine ⟨⟨n, by rw [hcurrent]; exact hversion hn, ?_, fun k hk hlen => ?_⟩, fun u a ha => ?_,
    fun u d a p hu => ?_, fun u p a ha => ?_, fun p v c r i hmem => ?_⟩
  · rw [hopen n (readVersion_lt hn)]
    exact hsettled
  · rw [hreads, List.length_append] at hlen
    by_cases hlast : k = s.reads.length
    · exact ⟨t, ⟨loaded, s.reads.length⟩, by rw [hown]; rfl, hlast.symm⟩
    · have hlt : k < s.reads.length := by simp at hlen; omega
      rw [hopen k hlt]
      exact hnewest k hk hlt
  · by_cases hu : u = t
    · subst hu
      rw [hown] at ha
      cases ha
      refine ⟨by rw [hreads]; simp, fun v b hb hnumber => ?_⟩
      by_contra hv
      rw [hother v hv] at hb
      exact absurd (hlater v b hb) (by rw [hnumber]; exact Nat.lt_irrefl _)
    · rw [hother u hu] at ha
      obtain ⟨hread, hunique⟩ := h.held u a ha
      have hlt := hlater u a ha
      refine ⟨by rw [hreads, List.getElem?_append_left hlt]; exact hread, fun v b hb hnumber => ?_⟩
      by_cases hv : v = t
      · rw [hv, hown] at hb
        cases hb
        exact absurd hlt (by rw [← hnumber]; exact Nat.lt_irrefl _)
      · rw [hother v hv] at hb
        exact hunique v b hb hnumber
  · by_cases hut : u = t
    · subst hut
      rw [hown] at hu
      cases hu
    · rw [hother u hut] at hu
      obtain ⟨m, hm, hms⟩ := h.replaced u d a p hu
      exact ⟨m, hversion hm, by rw [hopen m (readVersion_lt hm)]; exact hms⟩
  · by_cases hut : u = t
    · subst hut
      rw [hown] at ha
      cases ha
    · rw [hother u hut] at ha
      exact hadvances (h.changed u p a ha)
  · rw [hevents] at hmem
    exact hadvances (h.recorded p v c r i hmem)

/-- A call settles what it read, and the policy in force is of that version. -/
theorem Ordered.settles {a : Answered} {stage : LoadStage} {current : LoadedPolicy} (h : s.Ordered)
    (ht : (s.stage t).unsettled = some a) (hstage : stage.unsettled = none)
    (hcurrent : current.policyVersion = a.loaded.policyVersion)
    (hforce : s.Newest a.number ∨ current.policyVersion = s.currentVersion)
    (hchange : ∀ p b, stage.change = some (p, b) → s.Advances p b.loaded.policyVersion) :
    ({ s with current }.setStage t stage).Ordered := by
  obtain ⟨hread, hunique⟩ := h.held t a ht
  have hversion : s.readVersion a.number = some current.policyVersion := by
    rw [readVersion, hread, hcurrent]
    rfl
  have hother : ∀ u, u ≠ t → ({ s with current }.setStage t stage).stage u = s.stage u :=
    fun u hu => if_neg hu
  have hown : ({ s with current }.setStage t stage).stage t = stage := if_pos rfl
  generalize hs' : { s with current }.setStage t stage = s' at *
  have hreads : s'.reads = s.reads := by subst hs'; rfl
  have hsame : ∀ n, s'.readVersion n = s.readVersion n := fun n => by
    rw [readVersion, readVersion, hreads]
  have hevents : s'.events = s.events := by subst hs'; rfl
  have hopen : ∀ n, s'.Unsettled n ↔ s.Unsettled n ∧ n ≠ a.number := by
    intro n
    constructor
    · rintro ⟨u, b, hb, rfl⟩
      by_cases hu : u = t
      · subst hu
        rw [hown, hstage] at hb
        cases hb
      · rw [hother u hu] at hb
        exact ⟨⟨u, b, hb, rfl⟩, fun heq => hu (hunique u b hb heq)⟩
    · rintro ⟨⟨u, b, hb, rfl⟩, hne⟩
      refine ⟨u, b, ?_, rfl⟩
      rw [hother u fun hu => by subst hu; rw [ht] at hb; cases hb; exact hne rfl]
      exact hb
  obtain ⟨n, hn, hsettled, hnewest⟩ := h.force
  refine ⟨?_, fun u b hb => ?_, fun u d b p hu => ?_, fun u p b hb => ?_, fun p v c r i hmem => ?_⟩
  · have hnow : s'.currentVersion = current.policyVersion := by subst hs'; rfl
    rw [hnow]
    -- the newest settled read: this one, or one of the same version
    have hcases : s.Newest a.number ∨ (a.number < n ∧ s.readVersion n = some current.policyVersion) := by
      rcases hforce with hforce | hforce
      · exact .inl hforce
      · rcases Nat.lt_or_ge a.number n with hlt | hge
        · exact .inr ⟨hlt, by rw [hforce]; exact hn⟩
        · exact .inl fun k hk hlen => hnewest k (by omega) hlen
    rcases hcases with hcase | ⟨hlt, hsameVersion⟩
    · refine ⟨a.number, by rw [hsame]; exact hversion, by rw [hopen]; exact fun hh => hh.2 rfl,
        fun k hk hlen => ?_⟩
      rw [hreads] at hlen
      rw [hopen]
      exact ⟨hcase k hk hlen, by omega⟩
    · refine ⟨n, by rw [hsame]; exact hsameVersion, by rw [hopen]; exact fun hh => hsettled hh.1,
        fun k hk hlen => ?_⟩
      rw [hreads] at hlen
      rw [hopen]
      exact ⟨hnewest k hk hlen, by omega⟩
  · have hu : u ≠ t := by
      rintro rfl
      rw [hown, hstage] at hb
      cases hb
    rw [hother u hu] at hb
    obtain ⟨hread', hunique'⟩ := h.held u b hb
    refine ⟨by rw [hreads]; exact hread', fun v c hc hnumber => ?_⟩
    have hv : v ≠ t := by
      rintro rfl
      rw [hown, hstage] at hc
      cases hc
    rw [hother v hv] at hc
    exact hunique' v c hc hnumber
  · have hut : u ≠ t := by
      rintro rfl
      rw [hown] at hu
      subst hu
      cases hstage
    rw [hother u hut] at hu
    obtain ⟨m, hm, hms⟩ := h.replaced u d b p hu
    exact ⟨m, by rw [hsame]; exact hm, by rw [hopen]; exact fun hh => hms hh.1⟩
  · have hadvances : s.Advances p b.loaded.policyVersion := by
      by_cases hut : u = t
      · subst hut
        rw [hown] at hb
        exact hchange p b hb
      · rw [hother u hut] at hb
        exact h.changed u p b hb
    obtain ⟨i, j, hij, hi, hj⟩ := hadvances
    exact ⟨i, j, hij, by rw [hsame]; exact hi, by rw [hsame]; exact hj⟩
  · rw [hevents] at hmem
    obtain ⟨i, j, hij, hi, hj⟩ := h.recorded p v c r i hmem
    exact ⟨i, j, hij, by rw [hsame]; exact hi, by rw [hsame]; exact hj⟩

/-! ## Steps and runs -/

/-- A settled read that a call replaces came before the read the call puts into force. -/
theorem Ordered.advances {d : Bool} {a : Answered} {p : Str} (h : s.Ordered)
    (ht : s.stage t = .assigning d a p) (hnewest : s.Newest a.number) :
    s.Advances p a.loaded.policyVersion := by
  obtain ⟨n, hn, hsettled⟩ := h.replaced t d a p ht
  have hopen : (s.stage t).unsettled = some a := by rw [ht]; rfl
  obtain ⟨hread, -⟩ := h.held t a hopen
  refine ⟨n, a.number, ?_, hn, by rw [readVersion, hread]; rfl⟩
  have hne : n ≠ a.number := by
    rintro rfl
    exact hsettled ⟨t, a, hopen, rfl⟩
  have hle : n ≤ a.number := by
    by_contra hlt
    exact hsettled (hnewest n (by omega) (readVersion_lt hn))
  omega

theorem perform_ordered {now : ℤ} {failed : List (Str × Str)} (h : s.Ordered)
    (horder : s.InOrder (.next t now failed)) (hs : s.perform reloadSeconds t now failed = some s') :
    s'.Ordered := by
  rw [perform] at hs
  cases ht : s.stage t with
  | idle => rw [ht] at hs; cases hs
  | given loaded => rw [ht] at hs; cases hs
  | aging at_ =>
    rw [ht] at hs
    cases hs
    refine h.move rfl rfl rfl ?_ (fun d a p hd => ?_) ?_ (fun _ _ _ _ _ hm => .inl hm)
    · rw [ht]
      split_ifs <;> rfl
    · split_ifs at hd
    · right
      split_ifs <;> rfl
  | checking d at_ =>
    rw [ht] at hs
    cases hs
    exact h.move rfl rfl rfl (by rw [ht]; rfl) (fun _ _ _ hd => by cases hd) (.inr rfl)
      fun _ _ _ _ _ hm => .inl hm
  | reading d =>
    rw [ht] at hs
    cases hanswer : s.authority with
    | error unavailable =>
      rw [hanswer] at hs
      cases hs
      exact h.move rfl rfl rfl (by rw [ht]; rfl) (fun _ _ _ hd => by cases hd) (.inr rfl)
        fun _ _ _ _ _ hm => .inl hm
    | ok loaded =>
      rw [hanswer] at hs
      cases hs
      rw [← hanswer]
      exact h.reads (by rw [ht]; rfl)
  | failing unavailable =>
    rw [ht] at hs
    cases hs
    refine h.move rfl rfl rfl ?_ (fun d a p hd => ?_) ?_ (fun _ _ _ _ _ hm => .inl hm)
    · rw [ht]
      split_ifs <;> rfl
    · split_ifs at hd
    · right
      split_ifs <;> rfl
  | noting unavailable =>
    rw [ht] at hs
    cases hs
    exact h.move rfl rfl rfl (by rw [ht]; rfl) (fun _ _ _ hd => by cases hd) (.inr rfl)
      fun _ _ _ _ _ hm => .inl hm
  | reporting unavailable =>
    rw [ht] at hs
    cases hs
    refine h.move rfl rfl rfl (by rw [ht]; rfl) (fun _ _ _ hd => by cases hd) (.inr rfl)
      fun p v c r i hm => ?_
    rcases List.mem_append.1 hm with hold | hnew
    · exact .inl hold
    · simp at hnew
  | clearing d a =>
    rw [ht] at hs
    cases hs
    exact h.move rfl rfl rfl (by rw [ht]; rfl) (fun _ _ _ hd => by cases hd) (.inr rfl)
      fun _ _ _ _ _ hm => .inl hm
  | comparing d a =>
    rw [ht] at hs
    dsimp only at hs
    by_cases hne : a.loaded.policyVersion ≠ s.current.policyVersion
    · rw [if_pos hne] at hs
      cases hs
      exact h.move rfl rfl rfl (by rw [ht]; rfl) (fun _ _ _ hd => by cases hd) (.inr rfl)
        fun _ _ _ _ _ hm => .inl hm
    · rw [if_neg hne] at hs
      cases hs
      -- the version is in force already
      refine h.settles (by rw [ht]; rfl) ?_ (not_not.1 hne).symm (.inr rfl) (fun p b hb => ?_)
      · cases d <;> rfl
      · cases d <;> cases hb
  | changing d a =>
    rw [ht] at hs
    cases hs
    refine h.move rfl rfl rfl (by rw [ht]; rfl) (fun d' b p hd => ?_) (.inr rfl)
      fun _ _ _ _ _ hm => .inl hm
    cases hd
    rfl
  | assigning d a p =>
    rw [ht] at hs
    cases hs
    have hnewest : s.Newest a.number := horder d a p ht
    refine h.settles (by rw [ht]; rfl) rfl rfl (.inl hnewest) (fun q b hb => ?_)
    cases hb
    exact h.advances ht hnewest
  | rebuilding d a p =>
    rw [ht] at hs
    cases hs
    refine h.move rfl rfl rfl (by rw [ht]; rfl) (fun _ _ _ hd => by cases hd) (.inl ?_)
      fun q v c r i hm => ?_
    · rw [ht]
      rfl
    · rcases List.mem_append.1 hm with hold | hnew
      · exact .inl hold
      · simp at hnew
  | announcing d a p =>
    rw [ht] at hs
    cases hs
    refine h.move rfl rfl rfl (by rw [ht]; rfl) (fun _ _ _ hd => by cases hd) (.inr rfl)
      fun q v c r i hm => ?_
    rcases List.mem_append.1 hm with hold | hnew
    · exact .inl hold
    · cases List.mem_singleton.1 hnew
      exact .inr (h.changed t p a (by rw [ht]; rfl))
  | signalling d a =>
    rw [ht] at hs
    cases hs
    refine h.move rfl rfl rfl ?_ (fun d' b p hd => ?_) ?_ (fun _ _ _ _ _ hm => .inl hm)
    · rw [ht]
      cases d <;> rfl
    · cases d <;> cases hd
    · cases d <;> exact .inr rfl

theorem begin_ordered {stage : LoadStage} (h : s.Ordered) (hunsettled : stage.unsettled = none)
    (hchange : stage.change = none) (hs : s.begin t stage = some s') : s'.Ordered := by
  rw [begin] at hs
  split_ifs at hs with hbusy
  cases hs
  refine h.move rfl rfl rfl ?_ (fun d a p hd => ?_) (.inr hchange) (fun _ _ _ _ _ hm => .inl hm)
  · rw [hunsettled]
    cases ht : s.stage t with
    | idle => rfl
    | given loaded => rfl
    | _ => rw [ht] at hbusy; exact absurd rfl hbusy
  · rw [hd] at hunsettled
    cases hunsettled

theorem step_ordered {act : PolicyAct} (h : s.Ordered) (horder : s.InOrder act)
    (hs : s.step reloadSeconds act = some s') : s'.Ordered := by
  cases act with
  | edit answer =>
    cases hs
    exact h.frame rfl rfl (fun _ => rfl) (fun _ _ _ _ hd => .inl hd) (fun _ => .inl rfl)
      fun _ _ _ _ _ hm => .inl hm
  | loadForDecision t now => exact begin_ordered h rfl rfl hs
  | reloadIfDue t now => exact begin_ordered h rfl rfl hs
  | next t now failed => exact perform_ordered h horder hs

theorem Ordered.last (h : s.Ordered) (hquiet : ∀ t, (s.stage t).inProgress = false) :
    s.reads.getLast?.map (·.policyVersion) = some s.currentVersion := by
  obtain ⟨n, hn, -, hnewest⟩ := h.force
  have hnone : ∀ k, ¬ s.Unsettled k := by
    rintro k ⟨t, a, ha, -⟩
    have hidle := hquiet t
    cases ht : s.stage t <;> rw [ht] at ha hidle <;> cases ha <;> cases hidle
  have hlast : n = s.reads.length - 1 := by
    by_contra hne
    have hlt := readVersion_lt hn
    exact hnone (n + 1) (hnewest (n + 1) (by omega) (by omega))
  rw [List.getLast?_eq_getElem?, ← hlast]
  exact hn

/-- **The policy in force never goes backwards** in a run whose calls put a policy into force only
while no later read is settled: with no call in progress the policy in force is the one read last,
and each change goes from what an older read answered to what a newer one did. -/
theorem policy_in_order {loaded : LoadedPolicy} {now : ℤ} {es : List PolicyAct}
    (h : run (step reloadSeconds) (started loaded now) es = some s)
    (hmeets : Meets (step reloadSeconds) InOrder (started loaded now) es) :
    ((∀ t, (s.stage t).inProgress = false) →
      s.reads.getLast?.map (·.policyVersion) = some s.currentVersion) ∧
    ∀ previous version count reason at_,
      .versionChanged previous version count reason at_ ∈ s.events →
        s.Advances previous version := by
  have hinv : s.Ordered := hmeets.preserves (fun _ _ _ hP hok hs => step_ordered hP hok hs)
    (started_ordered loaded now) h
  exact ⟨hinv.last, hinv.recorded⟩

/-! ## Two calls that overtake one another -/

def sampleLoaded (version : String) : LoadedPolicy := ⟨⟨1, lit "reason", []⟩, lit version, 0⟩

/-- All a thread still has to do, in so many statements. -/
def finishing (t n : ℕ) : List PolicyAct := List.replicate n (.next t 0 [])

/-- The authority changes, and one ask loads it. -/
def oneChange : List PolicyAct :=
  [.edit (.ok (sampleLoaded "v2")), .loadForDecision 0 5] ++ finishing 0 9

theorem oneChange_meets : Meets (step 2) InOrder (started (sampleLoaded "v1") 0) oneChange := by
  refine ⟨trivial, fun s hs => ⟨trivial, fun s' hs' => ?_⟩⟩
  cases hs
  cases hs'
  -- only the eighth statement puts a policy into force, the one of the last read
  iterate 9
    refine ⟨fun d a p hd => ?_, fun s hs => ?_⟩
    · cases hd <;> exact fun k hk hlen => absurd hlen (Nat.not_lt.2 hk)
    cases hs
  trivial

theorem policy_in_order_once : ∃ s, run (step 2) (started (sampleLoaded "v1") 0) oneChange = some s ∧
    (∀ t, (s.stage t).inProgress = false) ∧ s.currentVersion = lit "v2" ∧
    s.reads.getLast?.map (·.policyVersion) = some s.currentVersion := by
  have hrun : ((run (step 2) (started (sampleLoaded "v1") 0) oneChange).map fun s =>
      s.currentVersion) = some (lit "v2") := by decide +kernel
  obtain ⟨s, hs, hversion⟩ := Option.map_eq_some_iff.1 hrun
  refine ⟨s, hs, ?_⟩
  have hquiet : ∀ t, (s.stage t).inProgress = false := by
    intro t
    cases hs
    cases t <;> rfl
  exact ⟨hquiet, hversion, (policy_in_order hs oneChange_meets).1 hquiet⟩

/-- An ask reads the second policy, and then a reload reads the third and puts it into force;
the ask does last. -/
def overtaking : List PolicyAct :=
  [.edit (.ok (sampleLoaded "v2")), .loadForDecision 0 5, .next 0 5 [], .next 0 5 [],
    .edit (.ok (sampleLoaded "v3")), .reloadIfDue 1 9000000] ++ finishing 1 10 ++ finishing 0 7

theorem policy_overtaken : ∃ s, run (step 2) (started (sampleLoaded "v1") 0) overtaking = some s ∧
    (∀ t, (s.stage t).inProgress = false) ∧
    s.reads.getLast?.map (·.policyVersion) ≠ some s.currentVersion ∧
    ∃ previous version count reason at_,
      .versionChanged previous version count reason at_ ∈ s.events ∧
        ¬ s.Advances previous version := by
  have hrun : ((run (step 2) (started (sampleLoaded "v1") 0) overtaking).map fun s =>
      (s.currentVersion, s.reads.map (·.policyVersion))) =
        some (lit "v2", [lit "v1", lit "v2", lit "v3"]) := by decide +kernel
  have hevents : ((run (step 2) (started (sampleLoaded "v1") 0) overtaking).map fun s => s.events) =
      some [.versionChanged (lit "v1") (lit "v3") 0 (lit "reason") 0,
        .versionChanged (lit "v3") (lit "v2") 0 (lit "reason") 0] := rfl
  obtain ⟨s, hs, heq⟩ := Option.map_eq_some_iff.1 hrun
  rw [hs, Option.map_some, Option.some.injEq] at hevents
  obtain ⟨hversion, hreads⟩ := Prod.mk.injEq .. ▸ heq
  refine ⟨s, hs, fun t => ?_, ?_, lit "v3", lit "v2", 0, lit "reason", 0, ?_, ?_⟩
  · cases hs
    rcases t with _ | _ | t <;> rfl
  · rw [hversion, ← List.getLast?_map, hreads]
    decide
  · rw [hevents]
    exact .tail _ (.head _)
  · -- the read of the third policy came last
    rintro ⟨i, j, hij, hi, hj⟩
    have hread : ∀ n, s.readVersion n = [lit "v1", lit "v2", lit "v3"][n]? := fun n => by
      rw [readVersion, ← List.getElem?_map, hreads]
    rw [hread] at hi hj
    have hlt : j < 3 := (List.getElem?_eq_some_iff.1 hj).1
    obtain ⟨rfl, rfl⟩ | ⟨rfl, rfl⟩ | ⟨rfl, rfl⟩ : (i = 0 ∧ j = 1) ∨ (i = 0 ∧ j = 2) ∨ (i = 1 ∧ j = 2) := by
      omega
    · exact absurd hi (by decide)
    · exact absurd hi (by decide)
    · exact absurd hi (by decide)

end PolicyService

end SayFirst.Plane
