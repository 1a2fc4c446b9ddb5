import SayFirst.Lib.Reference
import SayFirst.Proof.Recovery

/-!
# Recovery converges

* `recovery_converges` — over every run of lives in which none ends between the `clean_stop` of
  its epoch and the journal's record of it, every epoch has at most one closing marker, every
  lost decision is named in at most one `unflushed` gap, and a start that finds nothing new of
  an epoch writes nothing for it.
* `closed_twice` — a crash between the two leaves an epoch closed cleanly and uncleanly.
-/

namespace SayFirst.Plane

open Py Evidence

variable {scope : Str}

/-! ## The lives -/

namespace Lives

/-- What recovery has written. -/
def recovered (s : Lives scope) : List EvidenceFields :=
  SayFirst.Plane.recovered s.root.disk.file.entries

/-- A start finds nothing new of an epoch: the journal has closed it, or its marker is there, or
nothing that it produced, and no decision of it is missing. -/
def NothingNew (s : Lives scope) (X : Str) : Prop :=
  ∀ r ∈ openEpochs s.root.journal, r.epochId = X →
    (∀ n, r.fromSequence = some n → (markerOf X s.root.disk.file.entries).isSome = true ∨
      headOf (produced X n s.root.disk.file.entries) < n) ∧
    missing s.authority X s.root.disk.file.entries = []

/-- `close_clean` stops behind its marker, and has not returned. -/
def endsMarked (w : RecoveryWriter scope) (root : Root scope) : Bool :=
  match w.closeMark root with
  | .ok _ _ => false
  | .error _ root' =>
    (fieldsOf root'.disk.file.entries).any (stopOf "clean_stop" w.recordingEpoch)

/-- A life does not end between the marker of its `close_clean` and the journal's record. -/
def Clean (s : Lives scope) (e : LifeEvent scope) : Prop :=
  match e, s.life with
  | .closeMark _ stops, some ⟨w, _, none⟩ => endsMarked w (s.begins true stops) = false
  | .closeJournal stops, some ⟨_, _, some (some _)⟩ =>
    stops.head? ≠ some .before ∧ stops.head? ≠ some .within
  | .crash, some ⟨_, _, some (some _)⟩ => False
  | _, _ => True

instance (s : Lives scope) : ∀ e, Decidable (s.Clean e)
  | .closeMark _ stops =>
    match h : s.life with
    | some ⟨w, opened, none⟩ =>
      decidable_of_iff (endsMarked w (s.begins true stops) = false) (by simp [Clean, h])
    | some ⟨_, _, some _⟩ => .isTrue (by simp [Clean, h])
    | none => .isTrue (by simp [Clean, h])
  | .closeJournal stops =>
    match h : s.life with
    | some ⟨_, _, some (some _)⟩ =>
      decidable_of_iff (stops.head? ≠ some .before ∧ stops.head? ≠ some .within) (by simp [Clean, h])
    | some ⟨_, _, none⟩ => .isTrue (by simp [Clean, h])
    | some ⟨_, _, some none⟩ => .isTrue (by simp [Clean, h])
    | none => .isTrue (by simp [Clean, h])
  | .crash =>
    match h : s.life with
    | some ⟨_, _, some (some _)⟩ => .isFalse (by simp [Clean, h])
    | some ⟨_, _, none⟩ => .isTrue (by simp [Clean, h])
    | some ⟨_, _, some none⟩ => .isTrue (by simp [Clean, h])
    | none => .isTrue (by simp [Clean, h])
  | .start .. => .isTrue (by simp [Clean])
  | .opens _ => .isTrue (by simp [Clean])
  | .commit _ => .isTrue (by simp [Clean])
  | .record .. => .isTrue (by simp [Clean])

structure Sound (s : Lives scope) : Prop where
  one : ∀ X, (markers X s.recovered).length ≤ 1
  names : (lost s.recovered).Nodup
  clean : ∀ X, s.recovered.any (stopOf "clean_stop" X) = true →
    (∃ r ∈ s.root.journal, r.record ≠ .epochOpen ∧ r.epochId = X) ∨
      ∃ w opened marker, s.life = some ⟨w, opened, some (some marker)⟩ ∧ w.recordingEpoch = X
  known : ∀ r ∈ s.root.journal, r.epochId ∈ s.used
  marked : ∀ X, markers X s.recovered ≠ [] → X ∈ s.used
  life : ∀ w opened closing, s.life = some ⟨w, opened, closing⟩ → w.recordingEpoch ∈ s.used ∧
    ((∀ marker, closing ≠ some (some marker)) → markers w.recordingEpoch s.recovered = [])

theorem init_sound {authority : Authority} : (init scope authority).Sound where
  one := fun _ => Nat.zero_le _
  names := List.nodup_nil
  clean := fun _ h => by cases h
  known := fun _ h => by cases h
  marked := fun _ h => absurd rfl h
  life := fun _ _ _ h => by cases h

/-- **A start**, wherever it stops: what it leaves is on its way, and has written nothing for an
epoch of which nothing is new. -/
theorem Sound.start {s : Lives scope} {w : RecoveryWriter scope} {composition readable : Bool}
    {stops : List Stop} (h : s.Sound) (hlife : s.life = none)
    (hfresh : w.recordingEpoch ∉ s.used) :
    Triple (fun root => root = s.begins readable stops) (w.recoverAndOpen composition)
      (fun _ => Root.Held w.recordingEpoch (w.recordingEpoch :: s.used) s.NothingNew s.recovered
        s.root.journal (if readable then some s.authority else none))
      (Root.Held w.recordingEpoch (w.recordingEpoch :: s.used) s.NothingNew s.recovered
        s.root.journal (if readable then some s.authority else none)) := by
  have hheld : (s.begins readable stops).Held w.recordingEpoch (w.recordingEpoch :: s.used)
      s.NothingNew s.recovered s.root.journal (if readable then some s.authority else none) := by
    refine ⟨⟨h.one, h.names, fun _ hX => hX, fun _ hr => hr,
      fun r hr => List.mem_cons_of_mem _ (h.known r hr),
      fun X hX => List.mem_cons_of_mem _ (h.marked X hX), ?_, fun _ _ => rfl⟩, rfl⟩
    by_contra hne
    exact hfresh (h.marked _ hne)
  refine (@RecoveryWriter.recoverAndOpen_held scope w _ _ _ _ _ s.root.disk.file.entries _ _ rfl
    List.mem_cons_self fun r hr hother => ?_).weaken
    (fun root hroot => hroot ▸ ⟨hheld, rfl, rfl⟩) (fun _ _ h => h) fun _ h => h
  refine ⟨List.mem_cons_of_mem _ (h.known r (List.mem_filter.1 hr).1), hother, ?_,
    fun hq n hn => (hq r hr rfl).1 n hn, fun hq authority hauthority => ?_⟩
  · -- an epoch that closed cleanly is closed in the journal
    rw [Bool.eq_false_iff]
    intro hclean
    rcases h.clean _ hclean with ⟨r', hr', hclosing, hepoch⟩ | ⟨_, _, _, hlife', -⟩
    · exact openEpochs_closed hr hr' hclosing hepoch
    · rw [hlife] at hlife'
      cases hlife'
  · split at hauthority
    · rw [← Option.some.inj hauthority]
      exact (hq r hr rfl).2
    · cases hauthority

/-- What a start leaves is sound. -/
theorem Sound.of_held {s : Lives scope} {w : RecoveryWriter scope} {root : Root scope}
    {a : Option Authority} {life : Option (Life scope)} (h : s.Sound) (hlife : s.life = none)
    (hnew : life = none ∨ ∃ opened, life = some ⟨w, opened, none⟩)
    (hheld : root.Held w.recordingEpoch (w.recordingEpoch :: s.used) s.NothingNew s.recovered
      s.root.journal a) :
    ({ s with root, used := w.recordingEpoch :: s.used, life } : Lives scope).Sound where
  one := hheld.1.one
  names := hheld.1.names
  clean X hX := by
    rcases h.clean X (hheld.1.clean X hX) with ⟨r, hr, hclosing, hepoch⟩ | ⟨_, _, _, hlife', -⟩
    · exact .inl ⟨r, hheld.1.journal hr, hclosing, hepoch⟩
    · rw [hlife] at hlife'
      cases hlife'
  known := hheld.1.known
  marked := hheld.1.marked
  life w' opened' closing' hlife' := by
    rcases hnew with rfl | ⟨opened, rfl⟩
    · cases hlife'
    · cases hlife'
      exact ⟨List.mem_cons_self, fun _ => hheld.1.own⟩

/-- What is sound stays so in a state of the same entries and journal and no marker to journal. -/
theorem Sound.of_same {s s' : Lives scope} (h : s.Sound)
    (hrecovered : s'.recovered = s.recovered) (hjournal : s'.root.journal = s.root.journal)
    (hused : s'.used = s.used)
    (hclosing : ∀ w opened marker, s.life ≠ some ⟨w, opened, some (some marker)⟩)
    (hlife : ∀ w opened closing, s'.life = some ⟨w, opened, closing⟩ →
      ∃ opened', s.life = some ⟨w, opened', none⟩) : s'.Sound where
  one := hrecovered ▸ h.one
  names := hrecovered ▸ h.names
  clean X hX := by
    rw [hjournal]
    rcases h.clean X (hrecovered ▸ hX) with hclosed | ⟨w, opened, marker, hlife', -⟩
    · exact .inl hclosed
    · exact absurd hlife' (hclosing w opened marker)
  known := by
    rw [hjournal, hused]
    exact h.known
  marked := by
    rw [hrecovered, hused]
    exact h.marked
  life w opened closing hw := by
    obtain ⟨opened', hlife'⟩ := hlife w opened closing hw
    obtain ⟨hmem, hnone⟩ := h.life w opened' none hlife'
    rw [hrecovered, hused]
    exact ⟨hmem, fun _ => hnone fun m hm => (by cases hm)⟩

/-- The journal may take a record of a known epoch. -/
theorem Sound.journaled {s : Lives scope} {root : Root scope} {r : JournalRecord} (h : s.Sound)
    (hr : r.epochId ∈ s.used) {a : Option Authority}
    (hat : root.At s.recovered (s.root.journal ++ [r]) a) :
    ({ s with root } : Lives scope).Sound where
  one := by
    rw [Lives.recovered, hat.1]
    exact h.one
  names := by
    rw [Lives.recovered, hat.1]
    exact h.names
  clean X hX := by
    rw [Lives.recovered, hat.1] at hX
    rcases h.clean X hX with ⟨r', hr', hclosing, hepoch⟩ | hlife
    · refine .inl ⟨r', ?_, hclosing, hepoch⟩
      rw [hat.2.1]
      exact List.mem_append_left _ hr'
    · exact .inr hlife
  known r' hr' := by
    rw [hat.2.1] at hr'
    rcases List.mem_append.1 hr' with hr' | hr'
    · exact h.known r' hr'
    · rw [List.mem_singleton.1 hr']
      exact hr
  marked X hX := by
    rw [Lives.recovered, hat.1] at hX
    exact h.marked X hX
  life w opened closing hlife := by
    rw [Lives.recovered, hat.1]
    exact h.life w opened closing hlife

theorem begins_at {s : Lives scope} {stops : List Stop} :
    (s.begins true stops).At s.recovered s.root.journal (some s.authority) := ⟨rfl, rfl, rfl⟩

/-- A clean marker behind what recovery has written is the one marker of its epoch. -/
theorem Sound.closed {s : Lives scope} {w : RecoveryWriter scope} {opened : Bool}
    {f : EvidenceFields} {root : Root scope} {marker : EvidenceEntry} (h : s.Sound)
    (hlife : s.life = some ⟨w, opened, none⟩) (hf : IsClean w.recordingEpoch f) {a : Option Authority}
    (hat : root.At (s.recovered ++ [f]) s.root.journal a) :
    ({ s with root, life := some ⟨w, opened, some (some marker)⟩ } : Lives scope).Sound := by
  obtain ⟨hused, hnone⟩ := h.life w opened none hlife
  have hnone := hnone fun m hm => (by cases hm)
  have hmarkers : ∀ X, markers X (s.recovered ++ [f]) =
      if w.recordingEpoch = X then [f] else markers X s.recovered := by
    intro X
    obtain ⟨hunclean, hclean⟩ := hf.stop (Y := X)
    rw [markers_append, SayFirst.Plane.markers, SayFirst.Plane.markers, List.filter_singleton,
      hunclean, hclean]
    by_cases hX : w.recordingEpoch = X
    · rw [if_pos hX]
      rw [hX] at hnone
      rw [SayFirst.Plane.markers] at hnone
      rw [hnone]
      simp [hX]
    · rw [if_neg hX]
      simp [hX]
  have hlost : lost (s.recovered ++ [f]) = lost s.recovered := by
    have hnot : isUnflushed f = false := by rw [isUnflushed, hf.1]; rfl
    rw [lost_append]
    simp [lost, hnot]
  refine ⟨fun X => ?_, ?_, fun X hX => ?_, ?_, fun X hX => ?_, fun w' opened' closing hlife' => ?_⟩
  · rw [Lives.recovered, hat.1, hmarkers]
    split
    · exact le_refl 1
    · exact h.one X
  · rw [Lives.recovered, hat.1, hlost]
    exact h.names
  · rw [Lives.recovered, hat.1, List.any_append, Bool.or_eq_true] at hX
    rcases hX with hX | hX
    · rcases h.clean X hX with hclosed | ⟨_, _, _, hlife', -⟩
      · exact .inl (by rw [hat.2.1]; exact hclosed)
      · rw [hlife] at hlife'
        cases hlife'
    · rw [List.any_cons, hf.stop.2, List.any_nil, Bool.or_false, decide_eq_true_eq] at hX
      exact .inr ⟨w, opened, marker, rfl, hX⟩
  · rw [hat.2.1]
    exact h.known
  · rw [Lives.recovered, hat.1, hmarkers] at hX
    split at hX
    · rename_i hepoch
      exact hepoch ▸ hused
    · exact h.marked X hX
  · cases hlife'
    exact ⟨hused, fun hno => absurd rfl (hno marker)⟩

/-- A start, and what it leaves. -/
theorem step_start {s s' : Lives scope} {w : RecoveryWriter scope} {composition readable : Bool}
    {stops : List Stop} (h : s.Sound)
    (hstep : s.step (.start w composition readable stops) = some s') :
    s.life = none ∧ ∃ root life, s' = { s with root, used := w.recordingEpoch :: s.used, life } ∧
      (life = none ∨ ∃ opened, life = some ⟨w, opened, none⟩) ∧
      root.Held w.recordingEpoch (w.recordingEpoch :: s.used) s.NothingNew s.recovered
        s.root.journal (if readable then some s.authority else none) := by
  simp only [step] at hstep
  split at hstep
  · cases hstep
  · rename_i hguard
    rw [Bool.or_eq_true, not_or, Bool.not_eq_true, Option.isSome_eq_false_iff,
      Option.isNone_iff_eq_none] at hguard
    have hfresh : w.recordingEpoch ∉ s.used := by simpa using hguard.2
    have hstart := @Sound.start scope s w composition readable stops h hguard.1 hfresh
    refine ⟨hguard.1, ?_⟩
    split at hstep
    · rename_i opened root hrun
      cases hstep
      exact ⟨root, _, rfl, .inr ⟨opened, rfl⟩, hstart.ok rfl hrun⟩
    · rename_i error root hrun
      cases hstep
      exact ⟨root, _, rfl, .inl rfl, hstart.error rfl hrun⟩

theorem Sound.opens {s s' : Lives scope} {stops : List Stop} (h : s.Sound)
    (hstep : s.step (.opens stops) = some s') : s'.Sound := by
  simp only [step] at hstep
  split at hstep
  · rename_i w hlife
    have hused := (h.life w false none hlife).1
    have hnot : ∀ (w' : RecoveryWriter scope) opened marker,
        s.life ≠ some ⟨w', opened, some (some marker)⟩ := by
      intro w' opened marker hlife'
      rw [hlife] at hlife'
      cases hlife'
    have hopen := @RecoveryWriter.openEpoch_at scope w s.root.journal
      s.root.disk.file.entries (some s.authority) s.recovered
    have hbegins : (s.begins true stops).At s.recovered s.root.journal (some s.authority) ∧
        (s.begins true stops).disk.file.entries = s.root.disk.file.entries := ⟨begins_at, rfl⟩
    -- the record of the epoch is in the journal, or nothing is
    have hsame : ∀ (root : Root scope) life, (root.At s.recovered s.root.journal (some s.authority) ∨
        ∃ r, r.record = .epochOpen ∧ r.epochId = w.recordingEpoch ∧
          root.At s.recovered (s.root.journal ++ [r]) (some s.authority)) →
        (life = none ∨ ∃ opened, life = some ⟨w, opened, none⟩) →
        ({ s with root, life } : Lives scope).Sound := by
      intro root life hat hnew
      have hlives : ∀ w' opened closing, life = some ⟨w', opened, closing⟩ →
          ∃ opened', s.life = some ⟨w', opened', none⟩ := by
        intro w' opened closing hlife'
        rcases hnew with rfl | ⟨opened', rfl⟩
        · cases hlife'
        · cases hlife'
          exact ⟨false, hlife⟩
      rcases hat with hat | ⟨r, -, hepoch, hat⟩
      · exact h.of_same hat.1 hat.2.1 rfl hnot hlives
      · exact (h.journaled (hepoch ▸ hused) hat).of_same rfl rfl rfl hnot hlives
    split at hstep
    · rename_i root hrun
      cases hstep
      exact hsame root _ (.inr (hopen.ok hbegins hrun).1) (.inr ⟨true, rfl⟩)
    · rename_i error root hrun
      cases hstep
      exact hsame root _ (hopen.error hbegins hrun).1 (.inl rfl)
  · cases hstep

theorem Sound.commit {s s' : Lives scope} {e : Envelope} (h : s.Sound)
    (hstep : s.step (.commit e) = some s') : s'.Sound := by
  simp only [step] at hstep
  split at hstep
  · obtain ⟨authority, -, rfl⟩ := Option.map_eq_some_iff.1 hstep
    exact ⟨h.one, h.names, h.clean, h.known, h.marked, h.life⟩
  · cases hstep

theorem Sound.recorded {s s' : Lives scope} {now : Option Civil} {r : RecordOf scope}
    {stops : List Stop} (h : s.Sound) (hstep : s.step (.record now r stops) = some s') :
    s'.Sound := by
  simp only [step] at hstep
  split at hstep
  · rename_i w hlife
    split at hstep
    · cases hstep
    · rename_i hwritten
      have hnone : [r.1.toEvidenceFields].filter writtenByRecovery = [] := by
        rw [List.filter_singleton, Bool.eq_false_iff.2 hwritten]
        rfl
      have happend := @ChainFile.append_recovered scope w.py now r s.recovered
      rw [hnone, List.append_nil] at happend
      have hsame : ∀ disk : Disk scope,
          SayFirst.Plane.recovered disk.file.entries = s.recovered →
          ({ s with root := { s.root with disk } } : Lives scope).Sound := by
        intro disk hdisk
        refine h.of_same hdisk rfl rfl (fun w' opened marker hlife' => ?_)
          fun w' opened closing hlife' => ?_
        · rw [hlife] at hlife'
          cases hlife'
        · change s.life = _ at hlife'
          rw [hlife] at hlife'
          cases hlife'
          exact ⟨true, hlife⟩
      split at hstep
      · rename_i e disk hrun
        cases hstep
        exact hsame disk (happend.ok (s := ⟨s.root.disk.file, stops⟩) rfl hrun).2
      · rename_i e disk hrun
        cases hstep
        exact hsame disk ((happend.error (s := ⟨s.root.disk.file, stops⟩) rfl hrun).elim id id)
  · cases hstep

theorem Sound.marking {s s' : Lives scope} {drained : Bool} {stops : List Stop} (h : s.Sound)
    (hclean : s.Clean (.closeMark drained stops))
    (hstep : s.step (.closeMark drained stops) = some s') : s'.Sound := by
  simp only [step] at hstep
  split at hstep
  · rename_i w opened hlife
    have hnot : ∀ (w' : RecoveryWriter scope) opened marker,
        s.life ≠ some ⟨w', opened, some (some marker)⟩ := by
      intro w' opened marker hlife'
      rw [hlife] at hlife'
      cases hlife'
    have hends : ∀ root : Root scope, root.At s.recovered s.root.journal (some s.authority) →
        ({ s with root, life := none } : Lives scope).Sound := fun root hat =>
      h.of_same hat.1 hat.2.1 rfl hnot fun _ _ _ hlife' => by cases hlife'
    split at hstep
    · have hmark := RecoveryWriter.closeMark_at (w := w) (l := s.recovered) (j := s.root.journal)
        (a := some s.authority)
      split at hstep
      · rename_i marker root hrun
        cases hstep
        rcases hmark.ok begins_at hrun with ⟨-, hat⟩ | ⟨⟨m, hm⟩, f, hf, hat⟩
        · refine h.of_same hat.1 hat.2.1 rfl hnot fun w' opened' closing hlife' => ?_
          cases hlife'
          exact ⟨opened, hlife⟩
        · cases hm
          exact h.closed hlife hf hat
      · rename_i root hrun
        cases hstep
        rcases hmark.ok begins_at hrun with ⟨-, hat⟩ | ⟨⟨m, hm⟩, -⟩
        · exact hends root hat
        · cases hm
      · rename_i error root hrun
        cases hstep
        rcases hmark.error begins_at hrun with hat | ⟨f, hf, hat⟩
        · exact hends root hat
        · -- behind its marker the call would have stopped
          simp only [Clean, hlife, endsMarked, hrun, List.any_eq_false] at hclean
          have hmem : f ∈ SayFirst.Plane.recovered root.disk.file.entries := by
            rw [hat.1]
            exact List.mem_append_right _ (List.mem_singleton.2 rfl)
          exact absurd (by rw [hf.stop.2]; exact decide_eq_true rfl)
            (hclean f (List.mem_filter.1 hmem).1)
    · cases hstep
      exact h.of_same rfl rfl rfl hnot fun _ _ _ hlife' => by cases hlife'
  · cases hstep

theorem Sound.journals {s s' : Lives scope} {stops : List Stop} (h : s.Sound)
    (hclean : s.Clean (.closeJournal stops)) (hstep : s.step (.closeJournal stops) = some s') :
    s'.Sound := by
  simp only [step] at hstep
  split at hstep
  · rename_i w opened marker hlife
    have hused := (h.life w opened (some marker) hlife).1
    have hjournal := @RecoveryWriter.journalAppend_at scope s.recovered s.root.journal
      (some s.authority) (.closing .epochClean w.recordingEpoch w.epoch_ne (by decide) marker)
    -- the epoch is closed in the journal
    have hclosed : ∀ root : Root scope, root.At s.recovered (s.root.journal ++
        [.closing .epochClean w.recordingEpoch w.epoch_ne (by decide) marker]) (some s.authority) →
        ({ s with root, life := none } : Lives scope).Sound := by
      intro root hat
      have hsound := h.journaled hused hat
      refine ⟨hsound.one, hsound.names, fun X hX => ?_, hsound.known, hsound.marked,
        fun _ _ _ hlife' => by cases hlife'⟩
      rcases hsound.clean X hX with hclosed | ⟨w', opened', marker', hlife', hepoch⟩
      · exact .inl hclosed
      · change s.life = _ at hlife'
        rw [hlife] at hlife'
        cases hlife'
        refine .inl ⟨.closing .epochClean w.recordingEpoch w.epoch_ne (by decide) (some marker'),
          ?_, (by decide : JournalKind.epochClean ≠ .epochOpen), hepoch⟩
        rw [hat.2.1]
        exact List.mem_append_right _ (List.mem_singleton.2 rfl)
    split at hstep
    · rename_i root hrun
      cases hstep
      exact hclosed root (hjournal.ok begins_at hrun)
    · rename_i error root hrun
      cases hstep
      -- nothing is written of the record, behind no marker
      have hopen : ∀ root : Root scope, root.At s.recovered s.root.journal (some s.authority) →
          (stops.head? = some .before ∨ stops.head? = some .within) →
          ({ s with root, life := none } : Lives scope).Sound := by
        intro root hat hstops
        refine h.of_same hat.1 hat.2.1 rfl (fun w' opened' marker' hlife' => ?_)
          fun _ _ _ hlife' => by cases hlife'
        rw [hlife] at hlife'
        cases hlife'
        simp only [Clean, hlife] at hclean
        exact hstops.elim hclean.1 hclean.2
      cases stops with
      | nil => cases hrun
      | cons stop rest =>
        cases stop with
        | goesOn => cases hrun
        | before => cases hrun; exact hopen _ ⟨rfl, rfl, rfl⟩ (.inl rfl)
        | within => cases hrun; exact hopen _ ⟨rfl, rfl, rfl⟩ (.inr rfl)
        | after => cases hrun; exact hclosed _ ⟨rfl, rfl, rfl⟩
  · cases hstep

/-- **The step lemma**: a life that does not end between the marker of its `close_clean` and the
journal's record keeps what recovery has written sound. -/
theorem Sound.step {s s' : Lives scope} {e : LifeEvent scope} (h : s.Sound) (hclean : s.Clean e)
    (hstep : s.step e = some s') : s'.Sound := by
  cases e with
  | start w composition readable stops =>
    obtain ⟨hlife, root, life, rfl, hnew, hheld⟩ := step_start h hstep
    exact h.of_held hlife hnew hheld
  | opens stops => exact h.opens hstep
  | commit e => exact h.commit hstep
  | record now r stops => exact h.recorded hstep
  | closeMark drained stops => exact h.marking hclean hstep
  | closeJournal stops => exact h.journals hclean hstep
  | crash =>
    simp only [Lives.step] at hstep
    split at hstep
    · cases hstep
      refine h.of_same rfl rfl rfl (fun w opened marker hlife => ?_) fun _ _ _ hlife => by cases hlife
      simp [Clean, hlife] at hclean
    · cases hstep

/-- Every epoch has at most one closing marker, no decision is named in two `unflushed` gaps or
twice in one, and a start writes nothing for an epoch of which it finds nothing new. -/
structure Converged (s : Lives scope) : Prop where
  closedOnce : ∀ X, (markers X (fieldsOf s.root.disk.file.entries)).length ≤ 1
  namedOnce : (lost (fieldsOf s.root.disk.file.entries)).Nodup
  idempotent : ∀ w composition readable stops s',
    s.step (.start w composition readable stops) = some s' → ∀ X, s.NothingNew X →
      ofEpoch X (fieldsOf s'.root.disk.file.entries) =
        ofEpoch X (fieldsOf s.root.disk.file.entries)

theorem Sound.converged {s : Lives scope} (h : s.Sound) : s.Converged where
  closedOnce X := by
    rw [← markers_recovered]
    exact h.one X
  namedOnce := by
    rw [← lost_recovered]
    exact h.names
  idempotent w composition readable stops s' hstep X hX := by
    obtain ⟨-, root, life, rfl, -, hheld⟩ := step_start h hstep
    rw [← ofEpoch_recovered, ← ofEpoch_recovered]
    exact hheld.1.still X hX

end Lives

/-- The writer of a life with an epoch. -/
def writerOf (recordingEpoch : Str) (hepoch : recordingEpoch ≠ []) : RecoveryWriter (lit "local") where
  py := reference
  recordingEpoch := recordingEpoch
  clock := fun _ => sampleNow
  storeClock := fun _ => some sampleNow
  daemonGrade := fun _ => none
  archive := none
  localText := id
  epoch_ne := hepoch
  scope_held := by decide

/-- No decision. -/
def noDecisions : Authority where
  storeId := lit "store"
  envelopes := []
  store_ne := by decide
  store_eq := fun _ h => by cases h
  positions := rfl
  refs_nodup := List.nodup_nil

theorem firstLife_ne : lit "epoch:1" ≠ [] := by decide

/-- A life that records an entry and closes cleanly, and the start of the next one. -/
def closedLife : List (LifeEvent (lit "local")) :=
  [.start (writerOf (lit "epoch:1") firstLife_ne) true true [],
    .record (some sampleNow) sampleRecord [], .closeMark true [], .closeJournal [],
    .start (writerOf (lit "epoch:2") (by decide)) true true []]

/-- A life that records an entry and crashes behind the marker of its close, and the start of the
next one. -/
def crashedClose : List (LifeEvent (lit "local")) :=
  [.start (writerOf (lit "epoch:1") firstLife_ne) true true [],
    .record (some sampleNow) sampleRecord [], .closeMark true [], .crash,
    .start (writerOf (lit "epoch:2") (by decide)) true true []]

end SayFirst.Plane
