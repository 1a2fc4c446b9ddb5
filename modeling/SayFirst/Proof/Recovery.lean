import SayFirst.Lib.Triple
import SayFirst.Proof.EvidenceStore
import SayFirst.Spec.Lives

/-!
# What the calls of the recovery writer keep

The entries recovery has written and the journal, as each call of the writer leaves them
wherever it stops.

* `append_recovered` — an append adds its own record to what recovery has written, or nothing.
* `recoverAndOpen_held` — a start keeps what it reconciles.
* `closeMark_at` — a close writes one clean marker, or nothing.
-/

namespace SayFirst.Plane

open Py Evidence

variable {scope : Str}

/-! ## What recovery has written -/

/-- The closing markers of an epoch. -/
def markers (epochId : Str) (entries : List EvidenceFields) : List EvidenceFields :=
  entries.filter fun e => stopOf "clean_stop" epochId e || stopOf "unclean_stop" epochId e

def isUnflushed (e : EvidenceFields) : Bool :=
  e.kind == lit "gap" && (Json.get e.body "reason").any (·.eqText "unflushed")

/-- The decisions the `unflushed` gaps name. -/
def lost (entries : List EvidenceFields) : List Str :=
  (entries.filter isUnflushed).flatMap namedBy

/-- The recovery entries of an epoch. -/
def ofEpoch (epochId : Str) (entries : List EvidenceFields) : List EvidenceFields :=
  entries.filter fun e =>
    e.kind == lit "recovery" && (Json.get e.body "epoch_id").any (·.str? == some epochId) ||
      isUnflushed e && (Json.get e.body "recording_epoch").any (·.str? == some epochId)

def fieldsOf (entries : List (EntryOf scope)) : List EvidenceFields :=
  entries.map (·.1.toEvidenceFields)

/-- What recovery has written of the entries. -/
def recovered (entries : List (EntryOf scope)) : List EvidenceFields :=
  (fieldsOf entries).filter writtenByRecovery

variable {entries : List (EntryOf scope)} {X Y : Str} {l l' : List EvidenceFields}
  {f : EvidenceFields}

theorem recovered_append {added : List (EntryOf scope)} :
    recovered (entries ++ added) = recovered entries ++ recovered added := by
  simp [recovered, fieldsOf]

theorem recovered_singleton {e : EntryOf scope} (h : writtenByRecovery e.1.toEvidenceFields = true) :
    recovered [e] = [e.1.toEvidenceFields] := by
  rw [recovered, fieldsOf, List.map_singleton, List.filter_singleton, h]
  rfl

theorem filter_recovered {p : EvidenceFields → Bool} (h : ∀ e, p e = true → writtenByRecovery e = true) :
    (recovered entries).filter p = (fieldsOf entries).filter p := by
  rw [recovered, List.filter_filter]
  refine List.filter_congr fun e _ => ?_
  cases hp : p e with
  | false => rfl
  | true => rw [h e hp]; rfl

theorem stopOf_kind {event : String} (h : stopOf event X f = true) : f.kind = lit "recovery" := by
  simp only [stopOf, Bool.and_eq_true, beq_iff_eq] at h
  exact h.1.1

theorem writtenByRecovery_kind (h : f.kind = lit "recovery") : writtenByRecovery f = true := by
  simp [writtenByRecovery, h]

theorem writtenByRecovery_unflushed (h : isUnflushed f = true) : writtenByRecovery f = true := by
  simp only [isUnflushed] at h
  simp [writtenByRecovery, h]

theorem markers_recovered : markers X (recovered entries) = markers X (fieldsOf entries) := by
  refine filter_recovered fun e he => ?_
  rcases Bool.or_eq_true_iff.1 he with h | h <;> exact writtenByRecovery_kind (stopOf_kind h)

theorem lost_recovered : lost (recovered entries) = lost (fieldsOf entries) :=
  congrArg (List.flatMap namedBy) (filter_recovered fun _ => writtenByRecovery_unflushed)

theorem ofEpoch_recovered : ofEpoch X (recovered entries) = ofEpoch X (fieldsOf entries) := by
  refine filter_recovered fun e he => ?_
  rcases Bool.or_eq_true_iff.1 he with h | h
  · exact writtenByRecovery_kind (beq_iff_eq.1 (Bool.and_eq_true_iff.1 h).1)
  · exact writtenByRecovery_unflushed (Bool.and_eq_true_iff.1 h).1

theorem markers_append : markers X (l ++ l') = markers X l ++ markers X l' := List.filter_append ..

theorem lost_append : lost (l ++ l') = lost l ++ lost l' := by
  simp [lost]

theorem ofEpoch_append : ofEpoch X (l ++ l') = ofEpoch X l ++ ofEpoch X l' := List.filter_append ..

/-! ## What is appended of it -/

variable {w : RecoveryWriter scope} {py : Interpreter}

namespace ChainFile

theorem tornGap_recovery {e : EntryOf scope} (h : IsTornGap e) :
    writtenByRecovery e.1.toEvidenceFields = false := by
  obtain ⟨hkind, now, hbody⟩ := h
  rw [writtenByRecovery, hkind, hbody]
  rfl

theorem write_recovered {e : EntryOf scope} {l : List EvidenceFields} :
    Triple (fun d => recovered d.file.entries = l) (write py e)
      (fun e' d => e' = e ∧ recovered d.file.entries = l ++ recovered [e])
      fun d => recovered d.file.entries = l ∨ recovered d.file.entries = l ++ recovered [e] := by
  refine Triple.bind (triple_of (fun _ _ _ h => h) fun _ h => .inl h) fun _ => ?_
  refine Triple.bind (Q := fun _ d => recovered d.file.entries = l ++ recovered [e]) ?_
    fun _ => triple_pure fun d hd => ⟨rfl, hd⟩
  refine triple_change (P := fun c => recovered c.entries = l)
    (Q := fun c => recovered c.entries = l ++ recovered [e])
    (E := fun c => recovered c.entries = l ∨ recovered c.entries = l ++ recovered [e])
    fun c hc => ?_
  have hline : recovered (c.line e).entries = l ++ recovered [e] := by
    rw [ChainFile.line, recovered_append, hc]
  exact ⟨hline, .inl hc, .inl hc, .inr hline⟩

theorem put_recovered {r : RecordOf scope} {l : List EvidenceFields} :
    Triple (fun d => recovered d.file.entries = l) (put py r)
      (fun e d => e.1.toEvidenceFields = r.1.toEvidenceFields ∧
        recovered d.file.entries = l ++ [r.1.toEvidenceFields].filter writtenByRecovery)
      fun d => recovered d.file.entries = l ∨
        recovered d.file.entries = l ++ [r.1.toEvidenceFields].filter writtenByRecovery := by
  refine Triple.bind (Q := fun _ d => recovered d.file.entries = l) (triple_get fun _ h => h)
    fun d₀ => ?_
  refine Triple.bind (Q := fun e d => e.1.toEvidenceFields = r.1.toEvidenceFields ∧
    recovered d.file.entries = l) (triple_of (fun e he d hd => ⟨(RecordOf.place_ok he).1, hd⟩)
      fun d hd => .inl hd) fun e => ?_
  intro d hd
  obtain ⟨hfields, hd⟩ := hd
  have hone : recovered [e] = [r.1.toEvidenceFields].filter writtenByRecovery := by
    rw [recovered, fieldsOf, List.map_singleton, hfields]
  have hwrite := @write_recovered scope py e l
  rw [hone] at hwrite
  exact hwrite.weaken (fun _ h => h) (fun e' d h => ⟨h.1 ▸ hfields, h.2⟩) (fun _ h => h) d hd

/-- **What an append leaves of recovery's entries**: those there were, and its record when it is
one of them and was written. -/
theorem append_recovered {now : Option Civil} {r : RecordOf scope} {l : List EvidenceFields} :
    Triple (fun d => recovered d.file.entries = l) (append py now r)
      (fun e d => e.1.toEvidenceFields = r.1.toEvidenceFields ∧
        recovered d.file.entries = l ++ [r.1.toEvidenceFields].filter writtenByRecovery)
      fun d => recovered d.file.entries = l ∨
        recovered d.file.entries = l ++ [r.1.toEvidenceFields].filter writtenByRecovery := by
  have hcut : Triple (fun d => recovered d.file.entries = l) (@recoverTornTail scope)
      (fun _ d => recovered d.file.entries = l) fun d => recovered d.file.entries = l := by
    refine Triple.bind (triple_get (Q := fun _ d => recovered d.file.entries = l) fun _ h => h)
      fun d₀ => ?_
    split
    · have hchange : Triple (fun d => recovered d.file.entries = l) (change id (@cut scope))
          (fun _ d => recovered d.file.entries = l) fun d => recovered d.file.entries = l :=
        triple_change (P := fun c => recovered c.entries = l)
          (Q := fun c => recovered c.entries = l) (E := fun c => recovered c.entries = l)
          fun c hc => ⟨hc, hc, hc, hc⟩
      exact Triple.bind hchange fun _ => triple_pure fun _ h => h
    · exact triple_pure fun _ h => h
  have hdeclare : Triple (fun d => recovered d.file.entries = l) (@declareTorn scope py now)
      (fun _ d => recovered d.file.entries = l) fun d => recovered d.file.entries = l := by
    refine Triple.bind (triple_get (Q := fun _ d => recovered d.file.entries = l) fun _ h => h)
      fun d₀ => ?_
    refine Triple.bind (Q := fun e d => recovered [e] = [] ∧ recovered d.file.entries = l)
      (triple_of (fun e he d hd => ⟨?_, hd⟩) fun d hd => hd) fun e => ?_
    · rw [recovered, fieldsOf, List.map_singleton, List.filter_singleton,
        tornGap_recovery (tornGap_ok he).1]
      rfl
    · intro d hd
      have hwrite := @write_recovered scope py e l
      rw [hd.1, List.append_nil] at hwrite
      exact (Triple.bind hwrite fun _ => triple_pure fun _ h => h.2).weaken
        (fun _ h => h) (fun _ _ h => h) (fun _ h => h.elim id id) d hd.2
  refine (Triple.bind (hcut.weaken (fun _ h => h) (fun _ _ h => h) fun _ h => .inl h)
    fun torn => ?_)
  cases torn with
  | false => exact put_recovered
  | true =>
    exact Triple.bind (hdeclare.weaken (fun _ h => h) (fun _ _ h => h) fun _ h => .inl h)
      fun _ => put_recovered

end ChainFile

/-! ## The calls of the writer -/

/-- What recovery has written, the journal and the authority. -/
def Root.At (l : List EvidenceFields) (j : List JournalRecord) (a : Option Authority)
    (root : Root scope) : Prop :=
  recovered root.disk.file.entries = l ∧ root.journal = j ∧ root.authority = a

namespace RecoveryWriter

variable {j : List JournalRecord} {a : Option Authority}

theorem chainAppend_at {r : RecordOf scope} :
    Triple (Root.At l j a) (w.chainAppend r)
      (fun e root => e.1.toEvidenceFields = r.1.toEvidenceFields ∧
        Root.At (l ++ [r.1.toEvidenceFields].filter writtenByRecovery) j a root)
      fun root => Root.At l j a root ∨
        Root.At (l ++ [r.1.toEvidenceFields].filter writtenByRecovery) j a root := by
  rintro root ⟨hl, hj, ha⟩
  have happend := @ChainFile.append_recovered scope w.py (w.storeClock root.appends) r l root.disk hl
  unfold chainAppend
  cases hm : ChainFile.append w.py (w.storeClock root.appends) r root.disk with
  | ok e disk =>
    rw [hm] at happend
    exact ⟨happend.1, happend.2, hj, ha⟩
  | error e disk =>
    rw [hm] at happend
    exact happend.imp (fun h => ⟨h, hj, ha⟩) fun h => ⟨h, hj, ha⟩

theorem gradeFirst_at : Triple (Root.At l j a) w.gradeFirst (fun _ => Root.At l j a)
    (Root.At l j a) := by
  refine Triple.bind (Q := fun _ => Root.At l j a) (fun root h => h) fun due => ?_
  cases due with
  | none => exact triple_pure fun _ h => h
  | some grade =>
    have hkind : [grade.record.1.toEvidenceFields].filter writtenByRecovery = [] := by
      rw [List.filter_singleton, writtenByRecovery, grade.kind_eq]
      rfl
    have happend := @chainAppend_at scope l w j a grade.record
    rw [hkind, List.append_nil] at happend
    exact Triple.bind (happend.weaken (fun _ h => h) (fun _ _ h => h.2) fun _ h => h.elim id id)
      fun _ => triple_pure fun _ h => h

/-- An append of the writer's own: nothing of it, or its record behind what recovery has
written. -/
theorem append_at {kind : Str} {body : Body}
    (hwritten : ∀ f : EvidenceFields, f.kind = kind → f.body = body → writtenByRecovery f = true) :
    Triple (Root.At l j a) (w.append kind body)
      (fun e root => e.1.kind = kind ∧ e.1.body = body ∧
        Root.At (l ++ [e.1.toEvidenceFields]) j a root)
      fun root => Root.At l j a root ∨
        ∃ f, f.kind = kind ∧ f.body = body ∧ Root.At (l ++ [f]) j a root := by
  refine Triple.bind (Q := fun _ => Root.At l j a) (fun root h => h) fun now => ?_
  have hof : ∀ x : Except PyError (RecordOf scope), Triple (Root.At l j a)
      (calculated x : Recovery scope _) (fun r root => x = .ok r ∧ Root.At l j a root)
      fun root => Root.At l j a root ∨
        ∃ f, f.kind = kind ∧ f.body = body ∧ Root.At (l ++ [f]) j a root := by
    intro x
    cases x with
    | ok r => exact triple_pure fun _ h => ⟨rfl, h⟩
    | error e => exact triple_throw fun _ h => .inl h
  refine Triple.bind (hof _) fun r => ?_
  rintro root ⟨hr, h⟩
  have hfields := EvidenceFields.construct_ok hr
  have hkind : r.1.kind = kind := by rw [hfields]
  have hbody : r.1.body = body := by rw [hfields]
  have hone : [r.1.toEvidenceFields].filter writtenByRecovery = [r.1.toEvidenceFields] := by
    rw [List.filter_singleton, hwritten _ hkind hbody]
    rfl
  have happend := @chainAppend_at scope l w j a r
  rw [hone] at happend
  refine happend.weaken (fun _ h => h) (fun e root' he => ?_) (fun root' he => ?_) root h
  · have hkind' : e.1.kind = kind := by rw [he.1]; exact hkind
    have hbody' : e.1.body = body := by rw [he.1]; exact hbody
    exact ⟨hkind', hbody', he.1 ▸ he.2⟩
  · exact he.imp_right fun he => ⟨_, hkind, hbody, he⟩

theorem journalAppend_at {r : JournalRecord} :
    Triple (Root.At l j a) (journalAppend r : Recovery scope Unit)
      (fun _ => Root.At l (j ++ [r]) a)
      fun root => Root.At l j a root ∨ Root.At l (j ++ [r]) a root := by
  rintro ⟨⟨file, stops⟩, authority, journal, _, _, _⟩ ⟨hl, hj, ha⟩
  cases hj
  cases stops with
  | nil => exact ⟨hl, rfl, ha⟩
  | cons stop rest =>
    cases stop with
    | goesOn => exact ⟨hl, rfl, ha⟩
    | before => exact .inl ⟨hl, rfl, ha⟩
    | within => exact .inl ⟨hl, rfl, ha⟩
    | after => exact .inr ⟨hl, rfl, ha⟩

theorem scan_at : Triple (Root.At l j a) (scan : Recovery scope Authority)
    (fun authority root => a = some authority ∧ Root.At l j a root) (Root.At l j a) := by
  rintro ⟨disk, authority, journal, _, _, _⟩ ⟨hl, hj, rfl⟩
  cases authority with
  | none => exact ⟨hl, hj, rfl⟩
  | some authority => exact ⟨rfl, hl, hj, rfl⟩

end RecoveryWriter

/-! ## What a start keeps -/

/-- An `unclean_stop` marker of an epoch. -/
def IsUnclean (X : Str) (f : EvidenceFields) : Prop :=
  f.kind = lit "recovery" ∧ ∃ fromSequence head, f.body = uncleanBody X fromSequence head

/-- An `unflushed` gap of an epoch that names the decisions of a chunk. -/
def IsLoss (X : Str) (chunk : List Envelope) (f : EvidenceFields) : Prop :=
  f.kind = lit "gap" ∧ ∃ firstAt lastAt, f.body = unflushedBody X firstAt lastAt chunk

theorem IsUnclean.stop (h : IsUnclean X f) :
    stopOf "clean_stop" Y f = false ∧ stopOf "unclean_stop" Y f = decide (X = Y) := by
  obtain ⟨hkind, fromSequence, head, hbody⟩ := h
  have hevent : Json.get f.body "event" = some (.str (lit "unclean_stop")) := by rw [hbody]; rfl
  have hepoch : Json.get f.body "epoch_id" = some (.str X) := by rw [hbody]; rfl
  have hclean : (Json.str (lit "unclean_stop")).eqText "clean_stop" = false := rfl
  have hunclean : (Json.str (lit "unclean_stop")).eqText "unclean_stop" = true := rfl
  simp only [stopOf, hkind, hevent, hepoch, Option.any_some, hclean, hunclean, beq_self_eq_true,
    Bool.and_false, Bool.false_and, Bool.true_and, Json.str?, true_and]
  rw [Bool.eq_iff_iff]
  simp

theorem IsUnclean.markers (h : IsUnclean X f) : markers Y [f] = if X = Y then [f] else [] := by
  obtain ⟨hclean, hunclean⟩ := h.stop (Y := Y)
  rw [SayFirst.Plane.markers, List.filter_singleton, hclean, hunclean]
  by_cases hXY : X = Y <;> simp [hXY]

theorem IsUnclean.lost (h : IsUnclean X f) : lost [f] = [] := by
  have hnot : isUnflushed f = false := by rw [isUnflushed, h.1]; rfl
  simp [SayFirst.Plane.lost, hnot]

theorem IsUnclean.ofEpoch (h : IsUnclean X f) (hXY : X ≠ Y) : ofEpoch Y [f] = [] := by
  have hnot : isUnflushed f = false := by rw [isUnflushed, h.1]; rfl
  obtain ⟨hkind, fromSequence, head, hbody⟩ := h
  have hepoch : Json.get f.body "epoch_id" = some (.str X) := by rw [hbody]; rfl
  simp [SayFirst.Plane.ofEpoch, hnot, hepoch, Json.str?, hXY]

theorem IsLoss.unflushed {chunk : List Envelope} (h : IsLoss X chunk f) : isUnflushed f = true := by
  obtain ⟨hkind, firstAt, lastAt, hbody⟩ := h
  have hreason : Json.get f.body "reason" = some (.str (lit "unflushed")) := by rw [hbody]; rfl
  have hunflushed : (Json.str (lit "unflushed")).eqText "unflushed" = true := rfl
  simp [isUnflushed, hkind, hreason, hunflushed]

theorem IsLoss.stop {chunk : List Envelope} {event : String} (h : IsLoss X chunk f) :
    stopOf event Y f = false := by
  rw [stopOf, h.1]
  rfl

theorem IsLoss.lost {chunk : List Envelope} (h : IsLoss X chunk f) :
    lost [f] = chunk.map Envelope.ref := by
  have hunflushed := h.unflushed
  obtain ⟨hkind, firstAt, lastAt, hbody⟩ := h
  have hids : Json.get f.body "decision_ids" = some (.arr (chunk.map fun e => .str e.ref)) := by
    rw [hbody]; rfl
  have hnamed : namedBy f = chunk.map Envelope.ref := by
    rw [namedBy, if_pos hkind, hids]
    simp only [List.filterMap_map]
    exact List.filterMap_eq_map.symm ▸ rfl
  simp [SayFirst.Plane.lost, hunflushed, hnamed]

theorem IsLoss.ofEpoch {chunk : List Envelope} (h : IsLoss X chunk f) (hXY : X ≠ Y) :
    ofEpoch Y [f] = [] := by
  obtain ⟨hkind, firstAt, lastAt, hbody⟩ := h
  have hepoch : Json.get f.body "recording_epoch" = some (.str X) := by rw [hbody]; rfl
  have hrecovery : (f.kind == lit "recovery") = false := by rw [hkind]; rfl
  simp [SayFirst.Plane.ofEpoch, hrecovery, hepoch, Json.str?, hXY]

/-- A `clean_stop` marker of an epoch. -/
def IsClean (X : Str) (f : EvidenceFields) : Prop :=
  f.kind = lit "recovery" ∧ ∃ fromSequence through, f.body = cleanBody X fromSequence through

theorem IsClean.stop (h : IsClean X f) :
    stopOf "unclean_stop" Y f = false ∧ stopOf "clean_stop" Y f = decide (X = Y) := by
  obtain ⟨hkind, fromSequence, through, hbody⟩ := h
  have hevent : Json.get f.body "event" = some (.str (lit "clean_stop")) := by rw [hbody]; rfl
  have hepoch : Json.get f.body "epoch_id" = some (.str X) := by rw [hbody]; rfl
  have hunclean : (Json.str (lit "clean_stop")).eqText "unclean_stop" = false := rfl
  have hclean : (Json.str (lit "clean_stop")).eqText "clean_stop" = true := rfl
  simp only [stopOf, hkind, hevent, hepoch, Option.any_some, hclean, hunclean, beq_self_eq_true,
    Bool.and_false, Bool.false_and, Bool.true_and, Json.str?, true_and]
  rw [Bool.eq_iff_iff]
  simp

/-- What recovery has written and what the journal holds, on the way through a start: `E` is the
epoch of this life, `used` are those of the lives so far, and of the `quiet` ones nothing new is
found. -/
structure Reconciling (E : Str) (used : List Str) (quiet : Str → Prop) (l₀ : List EvidenceFields)
    (j₀ : List JournalRecord) (l : List EvidenceFields) (j : List JournalRecord) : Prop where
  one : ∀ X, (markers X l).length ≤ 1
  names : (lost l).Nodup
  clean : ∀ X, l.any (stopOf "clean_stop" X) = true → l₀.any (stopOf "clean_stop" X) = true
  journal : j₀ ⊆ j
  known : ∀ r ∈ j, r.epochId ∈ used
  marked : ∀ X, markers X l ≠ [] → X ∈ used
  own : markers E l = []
  still : ∀ X, quiet X → ofEpoch X l = ofEpoch X l₀

variable {E : Str} {used : List Str} {quiet : Str → Prop} {l₀ : List EvidenceFields}
  {j₀ j : List JournalRecord}

theorem Reconciling.mark (h : Reconciling E used quiet l₀ j₀ l j) (hf : IsUnclean X f)
    (hnone : markers X l = []) (hused : X ∈ used) (hown : X ≠ E) (hquiet : ¬quiet X) :
    Reconciling E used quiet l₀ j₀ (l ++ [f]) j where
  one Y := by
    rw [markers_append, hf.markers]
    by_cases hXY : X = Y
    · rw [← hXY, hnone, if_pos rfl]
      exact le_refl 1
    · rw [if_neg hXY, List.append_nil]
      exact h.one Y
  names := by
    rw [lost_append, hf.lost, List.append_nil]
    exact h.names
  clean Y hY := by
    rw [List.any_append, Bool.or_eq_true] at hY
    rcases hY with hY | hY
    · exact h.clean Y hY
    · rw [List.any_cons, hf.stop.1] at hY
      cases hY
  journal := h.journal
  known := h.known
  marked Y hY := by
    by_cases hXY : X = Y
    · exact hXY ▸ hused
    · rw [markers_append, hf.markers, if_neg hXY, List.append_nil] at hY
      exact h.marked Y hY
  own := by
    rw [markers_append, hf.markers, if_neg hown, List.append_nil]
    exact h.own
  still Y hY := by
    rw [ofEpoch_append, hf.ofEpoch (fun heq => hquiet (heq ▸ hY)), List.append_nil]
    exact h.still Y hY

theorem Reconciling.lose {chunk : List Envelope} (h : Reconciling E used quiet l₀ j₀ l j)
    (hf : IsLoss X chunk f) (hnew : (lost l ++ chunk.map Envelope.ref).Nodup) (hquiet : ¬quiet X) :
    Reconciling E used quiet l₀ j₀ (l ++ [f]) j := by
  have hmarkers : ∀ Y, markers Y (l ++ [f]) = markers Y l := fun Y => by
    rw [markers_append, SayFirst.Plane.markers, SayFirst.Plane.markers, List.filter_singleton,
      hf.stop, hf.stop]
    exact List.append_nil _
  refine ⟨fun Y => hmarkers Y ▸ h.one Y, ?_, fun Y hY => ?_, h.journal, h.known,
    fun Y hY => h.marked Y (hmarkers Y ▸ hY), hmarkers E ▸ h.own, fun Y hY => ?_⟩
  · rw [lost_append, hf.lost]
    exact hnew
  · rw [List.any_append, Bool.or_eq_true] at hY
    rcases hY with hY | hY
    · exact h.clean Y hY
    · rw [List.any_cons, hf.stop] at hY
      cases hY
  · rw [ofEpoch_append, hf.ofEpoch (fun heq => hquiet (heq ▸ hY)), List.append_nil]
    exact h.still Y hY

theorem Reconciling.record {r : JournalRecord} (h : Reconciling E used quiet l₀ j₀ l j)
    (hr : r.epochId ∈ used) : Reconciling E used quiet l₀ j₀ l (j ++ [r]) where
  one := h.one
  names := h.names
  clean := h.clean
  journal := fun _ hr' => List.mem_append_left _ (h.journal hr')
  known r' hr' := by
    rcases List.mem_append.1 hr' with hr' | hr'
    · exact h.known r' hr'
    · rw [List.mem_singleton.1 hr']
      exact hr
  marked := h.marked
  own := h.own
  still := h.still

/-! ## A start, call by call -/

/-- The root is on its way through a start. -/
def Root.Held (E : Str) (used : List Str) (quiet : Str → Prop) (l₀ : List EvidenceFields)
    (j₀ : List JournalRecord) (a : Option Authority) (root : Root scope) : Prop :=
  Reconciling E used quiet l₀ j₀ (recovered root.disk.file.entries) root.journal ∧
    root.authority = a

/-- The entries a start goes on with: those it has read, and what it has appended of its own. -/
def Root.Reads (e₀ entries : List (EntryOf scope)) (root : Root scope) : Prop :=
  ∃ added, entries = e₀ ++ added ∧ (∀ e ∈ added, writtenByRecovery e.1.toEvidenceFields = true) ∧
    recovered entries = recovered root.disk.file.entries

/-- The decisions of the chunks are named in no gap yet, and once in the chunks. -/
def Root.Fresh (chunks : List (List Envelope)) (root : Root scope) : Prop :=
  (lost (recovered root.disk.file.entries) ++ chunks.flatten.map Envelope.ref).Nodup

variable {e₀ : List (EntryOf scope)} {a : Option Authority}

theorem Root.At.held {root root' : Root scope} {l : List EvidenceFields}
    (h : root'.At l root.journal root.authority) (ha : root.authority = a)
    (hl : Reconciling E used quiet l₀ j₀ l root.journal) :
    root'.Held E used quiet l₀ j₀ a := by
  obtain ⟨hl', hj, ha'⟩ := h
  exact ⟨by rw [hl', hj]; exact hl, ha'.trans ha⟩

theorem Root.At.here (root : Root scope) :
    root.At (recovered root.disk.file.entries) root.journal root.authority := ⟨rfl, rfl, rfl⟩

theorem markerOf_append {added : List (EntryOf scope)} (h : markerOf X (e₀ ++ added) = none) :
    markerOf X e₀ = none := by
  rw [markerOf, List.find?_append, Option.or_eq_none_iff] at h
  exact h.1

/-- What recovery has appended is not what the epoch produced. -/
theorem produced_append {added : List (EntryOf scope)} {fromSequence : ℤ}
    (h : ∀ e ∈ added, writtenByRecovery e.1.toEvidenceFields = true) :
    produced X fromSequence (e₀ ++ added) = produced X fromSequence e₀ := by
  have hnone : produced X fromSequence added = [] := by
    rw [produced, List.map_eq_nil_iff, List.filter_eq_nil_iff]
    intro e he
    simp [h e he]
  rw [produced, List.filter_append, List.map_append]
  exact (congrArg _ hnone).trans (List.append_nil _)

/-- Where no marker of an epoch is found, recovery has written none that is unclean. -/
theorem markers_none {entries : List (EntryOf scope)} (h : markerOf X entries = none)
    (hclean : (recovered entries).any (stopOf "clean_stop" X) = false) :
    markers X (recovered entries) = [] := by
  rw [markers, List.filter_eq_nil_iff]
  intro f hf hmarker
  rcases Bool.or_eq_true_iff.1 hmarker with hmarker | hmarker
  · rw [List.any_eq_false] at hclean
    exact hclean f hf hmarker
  · obtain ⟨e, he, rfl⟩ := List.mem_map.1 (List.mem_filter.1 hf).1
    exact List.find?_eq_none.1 h e he hmarker

/-- A decision that is lost and named in no gap is missing once, and in no gap recovery wrote. -/
theorem missing_fresh {authority : Authority} {root : Root scope} {entries : List (EntryOf scope)}
    (h : recovered entries = recovered root.disk.file.entries)
    (hnames : (lost (recovered root.disk.file.entries)).Nodup) :
    root.Fresh (slices gapIdBound (missing authority X entries)) := by
  have hperm := List.perm_insertionSort (fun a b : Envelope => a.position ≤ b.position)
    (authority.envelopes.filter fun e => e.recordingEpoch == X &&
      !(surviving entries).contains (e.storeId, e.position) && !(named entries).contains e.ref)
  rw [Root.Fresh, flatten_slices (by decide), missing]
  refine List.nodup_append.2 ⟨hnames, ?_, ?_⟩
  · rw [(hperm.map _).nodup_iff]
    exact authority.refs_nodup.sublist (List.filter_sublist.map _)
  · rintro ref href ref' href' rfl
    obtain ⟨e, he, rfl⟩ := List.mem_map.1 href'
    have hunnamed := (List.mem_filter.1 (hperm.mem_iff.1 he)).2
    simp only [Bool.and_eq_true, Bool.not_eq_true', List.contains_eq_mem, decide_eq_false_iff_not]
      at hunnamed
    refine hunnamed.2 ?_
    rw [← h, lost_recovered] at href
    obtain ⟨f, hf, hmem⟩ := List.mem_flatMap.1 href
    obtain ⟨entry, hentry, rfl⟩ := List.mem_map.1 (List.mem_filter.1 hf).1
    exact List.mem_flatMap.2 ⟨entry, hentry, hmem⟩

/-- What is missing of an epoch becomes no more by what recovery appends. -/
theorem missing_append {authority : Authority} {added : List (EntryOf scope)}
    (h : missing authority X e₀ = []) : missing authority X (e₀ ++ added) = [] := by
  have hlength : ∀ entries : List (EntryOf scope), missing authority X entries = [] ↔
      ∀ e ∈ authority.envelopes, ¬(e.recordingEpoch = X ∧
        (e.storeId, e.position) ∉ surviving entries ∧ e.ref ∉ named entries) := by
    intro entries
    rw [missing, ← List.length_eq_zero_iff, List.length_insertionSort, List.length_eq_zero_iff,
      List.filter_eq_nil_iff]
    simp [and_assoc]
  rw [hlength] at h ⊢
  intro e he hmissing
  refine h e he ⟨hmissing.1, fun hsurviving => hmissing.2.1 ?_, fun hnamed => hmissing.2.2 ?_⟩
  · rw [surviving, List.filterMap_append]
    exact List.mem_append_left _ hsurviving
  · rw [named, List.flatMap_append]
    exact List.mem_append_left _ hnamed

/-- An epoch a start reconciles: of a life before this one, that has not closed cleanly; where it
is quiet, there is nothing to mark and nothing to declare. -/
structure Due (E : Str) (used : List Str) (quiet : Str → Prop) (l₀ : List EvidenceFields)
    (a : Option Authority) (e₀ : List (EntryOf scope)) (r : JournalRecord) : Prop where
  used : r.epochId ∈ used
  other : r.epochId ≠ E
  unclean : l₀.any (stopOf "clean_stop" r.epochId) = false
  marked : quiet r.epochId → ∀ n, r.fromSequence = some n →
    (markerOf r.epochId e₀).isSome = true ∨ headOf (produced r.epochId n e₀) < n
  declared : quiet r.epochId → ∀ authority, a = some authority →
    missing authority r.epochId e₀ = []

/-- A journal record of an epoch that is known keeps a start on its way. -/
theorem Root.Held.record {r : JournalRecord} {root root' : Root scope}
    (h : root.Held E used quiet l₀ j₀ a) (hr : r.epochId ∈ used)
    (hat : root'.At (recovered root.disk.file.entries) (root.journal ++ [r]) root.authority) :
    root'.Held E used quiet l₀ j₀ a := by
  obtain ⟨hl, hj, ha⟩ := hat
  exact ⟨by rw [hl, hj]; exact h.1.record hr, ha.trans h.2⟩

theorem Root.Reads.of_recovered {root root' : Root scope} {entries : List (EntryOf scope)}
    (h : root.Reads e₀ entries)
    (heq : recovered root'.disk.file.entries = recovered root.disk.file.entries) :
    root'.Reads e₀ entries := by
  obtain ⟨added, hentries, hadded, hrecovered⟩ := h
  exact ⟨added, hentries, hadded, hrecovered.trans heq.symm⟩

namespace RecoveryWriter

variable {r : JournalRecord}

theorem mark_held {fromSequence : ℤ} {entries : List (EntryOf scope)} (hused : X ∈ used)
    (hown : X ≠ E) (hclean : l₀.any (stopOf "clean_stop" X) = false)
    (hquiet : quiet X →
      (markerOf X e₀).isSome = true ∨ headOf (produced X fromSequence e₀) < fromSequence) :
    Triple (fun root => root.Held E used quiet l₀ j₀ a ∧ root.Reads e₀ entries)
      (w.mark X fromSequence entries)
      (fun p root => root.Held E used quiet l₀ j₀ a ∧ root.Reads e₀ p.2)
      (Root.Held E used quiet l₀ j₀ a) := by
  rintro root ⟨hheld, hreads⟩
  unfold mark
  cases hmarker : markerOf X entries with
  | some marker => exact ⟨hheld, hreads⟩
  | none =>
    by_cases hhead : fromSequence ≤ headOf (produced X fromSequence entries)
    · simp only [if_pos hhead]
      obtain ⟨added, rfl, hadded, hrecovered⟩ := hreads
      have hnot : ¬quiet X := by
        intro hq
        rw [produced_append hadded] at hhead
        rcases hquiet hq with hsome | hless
        · rw [markerOf_append hmarker] at hsome
          cases hsome
        · omega
      have hnone : markers X (recovered root.disk.file.entries) = [] := by
        rw [← hrecovered]
        refine markers_none hmarker ?_
        rw [hrecovered, Bool.eq_false_iff]
        intro h
        rw [hheld.1.clean X h] at hclean
        cases hclean
      have hmarked : ∀ f : EvidenceFields, IsUnclean X f → Reconciling E used quiet l₀ j₀
          (recovered root.disk.file.entries ++ [f]) root.journal := fun f hf =>
        hheld.1.mark hf hnone hused hown hnot
      refine (Triple.bind (gradeFirst_at.weaken (fun _ h => h) (fun _ _ h => h)
        fun _ h => h.held hheld.2 hheld.1) fun _ => ?_) root (Root.At.here root)
      have happend : Triple (Root.At (recovered root.disk.file.entries) root.journal root.authority)
          (w.append (lit "recovery")
            (uncleanBody X fromSequence (headOf (produced X fromSequence (e₀ ++ added))))) _ _ :=
        append_at fun f hf _ => writtenByRecovery_kind hf
      refine (Triple.bind (happend.weaken (fun _ h => h) (fun _ _ h => h) ?_) fun e => ?_)
      · rintro root' (h | ⟨f, hkind, hbody, h⟩)
        · exact h.held hheld.2 hheld.1
        · exact h.held hheld.2 (hmarked f ⟨hkind, _, _, hbody⟩)
      · refine triple_pure fun root' he => ?_
        obtain ⟨hkind, hbody, hat⟩ := he
        refine ⟨hat.held hheld.2 (hmarked _ ⟨hkind, _, _, hbody⟩), added ++ [e], by simp, ?_, ?_⟩
        · intro e' he'
          rcases List.mem_append.1 he' with he' | he'
          · exact hadded e' he'
          · rw [List.mem_singleton.1 he']
            exact writtenByRecovery_kind hkind
        · rw [recovered_append, hrecovered, hat.1, recovered_singleton (writtenByRecovery_kind hkind)]
    · simp only [if_neg hhead]
      exact ⟨hheld, hreads⟩

theorem calculated_keeps {α : Type} {P : Root scope → Prop} {x : Except PyError α} :
    Keeps P (calculated x : Recovery scope α) := by
  cases x with
  | ok a => exact keeps_pure
  | error e => exact keeps_throw

theorem declare_held {chunk : List Envelope} {rest : List (List Envelope)}
    {entries : List (EntryOf scope)} (hquiet : ¬quiet X) :
    Triple (fun root => root.Held E used quiet l₀ j₀ a ∧ root.Reads e₀ entries ∧
        root.Fresh (chunk :: rest))
      (w.declare X entries chunk)
      (fun entries' root => root.Held E used quiet l₀ j₀ a ∧ root.Reads e₀ entries' ∧
        root.Fresh rest)
      (Root.Held E used quiet l₀ j₀ a) := by
  rintro root ⟨hheld, ⟨added, rfl, hadded, hrecovered⟩, hfresh⟩
  have hsplit : (lost (recovered root.disk.file.entries) ++ chunk.map Envelope.ref ++
      rest.flatten.map Envelope.ref).Nodup := by
    rw [List.append_assoc, ← List.map_append]
    exact hfresh
  have hlost : ∀ f : EvidenceFields, IsLoss X chunk f → Reconciling E used quiet l₀ j₀
      (recovered root.disk.file.entries ++ [f]) root.journal := fun f hf =>
    hheld.1.lose hf (List.nodup_append.1 hsplit).1 hquiet
  have hat : ∀ root' : Root scope,
      root'.At (recovered root.disk.file.entries) root.journal root.authority →
        root'.Held E used quiet l₀ j₀ a := fun root' h => h.held hheld.2 hheld.1
  unfold declare
  refine (Triple.bind (gradeFirst_at.weaken (fun _ h => h) (fun _ _ h => h) hat) fun _ => ?_)
    root (Root.At.here root)
  refine Triple.bind (calculated_keeps.weaken (fun _ h => h) (fun _ _ h => h) hat) fun firstAt => ?_
  refine Triple.bind (calculated_keeps.weaken (fun _ h => h) (fun _ _ h => h) hat) fun lastAt => ?_
  have hwritten : ∀ f : EvidenceFields, f.kind = lit "gap" →
      f.body = unflushedBody X firstAt lastAt chunk → writtenByRecovery f = true := fun f hkind hbody =>
    writtenByRecovery_unflushed (IsLoss.unflushed ⟨hkind, _, _, hbody⟩)
  have happend : Triple (Root.At (recovered root.disk.file.entries) root.journal root.authority)
      (w.append (lit "gap") (unflushedBody X firstAt lastAt chunk)) _ _ := append_at hwritten
  refine (Triple.bind (happend.weaken (fun _ h => h) (fun _ _ h => h) ?_) fun e => ?_)
  · rintro root' (h | ⟨f, hkind, hbody, h⟩)
    · exact hat root' h
    · exact h.held hheld.2 (hlost f ⟨hkind, _, _, hbody⟩)
  · refine triple_pure fun root' he => ?_
    obtain ⟨hkind, hbody, hat'⟩ := he
    have hloss : IsLoss X chunk e.1.toEvidenceFields := ⟨hkind, _, _, hbody⟩
    have hrecovery := hwritten _ hkind hbody
    refine ⟨hat'.held hheld.2 (hlost _ hloss), ⟨added ++ [e], by simp, ?_, ?_⟩, ?_⟩
    · intro e' he'
      rcases List.mem_append.1 he' with he' | he'
      · exact hadded e' he'
      · rw [List.mem_singleton.1 he']
        exact hrecovery
    · rw [recovered_append, hrecovered, hat'.1, recovered_singleton hrecovery]
    · rw [Root.Fresh, hat'.1, lost_append, hloss.lost]
      exact hsplit

theorem declares_held {chunks : List (List Envelope)} (hquiet : chunks ≠ [] → ¬quiet X) :
    ∀ {entries : List (EntryOf scope)},
    Triple (fun root => root.Held E used quiet l₀ j₀ a ∧ root.Reads e₀ entries ∧ root.Fresh chunks)
      (chunks.foldlM (w.declare X) entries)
      (fun entries' root => root.Held E used quiet l₀ j₀ a ∧ root.Reads e₀ entries')
      (Root.Held E used quiet l₀ j₀ a) := by
  induction chunks with
  | nil => intro entries; exact triple_pure fun _ h => ⟨h.1, h.2.1⟩
  | cons chunk rest ih =>
    intro entries
    rw [List.foldlM_cons]
    exact Triple.bind (declare_held (hquiet (by simp))) fun entries' =>
      ih fun _ => hquiet (by simp)

theorem declareUnflushed_held {entries : List (EntryOf scope)}
    (hquiet : quiet X → ∀ authority, a = some authority → missing authority X e₀ = []) :
    Triple (fun root => root.Held E used quiet l₀ j₀ a ∧ root.Reads e₀ entries)
      (w.declareUnflushed X entries)
      (fun entries' root => root.Held E used quiet l₀ j₀ a ∧ root.Reads e₀ entries')
      (Root.Held E used quiet l₀ j₀ a) := by
  have hscan : Triple (fun root => root.Held E used quiet l₀ j₀ a ∧ root.Reads e₀ entries)
      (scan : Recovery scope Authority)
      (fun authority root => a = some authority ∧
        (root.Held E used quiet l₀ j₀ a ∧ root.Reads e₀ entries))
      (Root.Held E used quiet l₀ j₀ a) := by
    rintro ⟨disk, authority, journal, _, _, _⟩ hroot
    cases authority with
    | none => exact hroot.1
    | some authority => exact ⟨hroot.1.2.symm, hroot⟩
  unfold declareUnflushed
  refine Triple.bind hscan fun authority => ?_
  rintro root ⟨hauthority, hheld, hreads⟩
  obtain ⟨added, rfl, hadded, hrecovered⟩ := hreads
  refine declares_held (fun hne hq => hne ?_) root
    ⟨hheld, ⟨added, rfl, hadded, hrecovered⟩, missing_fresh hrecovered hheld.1.names⟩
  rw [missing_append (hquiet hq authority hauthority), slices_nil]

/-- A journal record of an epoch that is known. -/
theorem journalAppend_held (hr : r.epochId ∈ used) {entries : List (EntryOf scope)} :
    Triple (fun root => root.Held E used quiet l₀ j₀ a ∧ root.Reads e₀ entries)
      (journalAppend r : Recovery scope Unit)
      (fun _ root => root.Held E used quiet l₀ j₀ a ∧ root.Reads e₀ entries)
      (Root.Held E used quiet l₀ j₀ a) := by
  rintro root ⟨hheld, hreads⟩
  refine (journalAppend_at (r := r)).weaken (fun _ h => h) (fun _ root' h => ?_) (fun root' h => ?_)
    root (Root.At.here root)
  · exact ⟨hheld.record hr h, hreads.of_recovered h.1⟩
  · rcases h with h | h
    · exact h.held hheld.2 hheld.1
    · exact hheld.record hr h

theorem reconcileEpoch_held (h : Due E used quiet l₀ a e₀ r) {entries : List (EntryOf scope)} :
    Triple (fun root => root.Held E used quiet l₀ j₀ a ∧ root.Reads e₀ entries)
      (w.reconcileEpoch r entries)
      (fun entries' root => root.Held E used quiet l₀ j₀ a ∧ root.Reads e₀ entries')
      (Root.Held E used quiet l₀ j₀ a) := by
  unfold reconcileEpoch
  cases hfrom : r.fromSequence with
  | none => exact triple_throw fun _ hroot => hroot.1
  | some n =>
    refine Triple.bind (mark_held h.used h.other h.unclean fun hq => h.marked hq n hfrom)
      fun p => ?_
    refine Triple.bind (declareUnflushed_held h.declared) fun entries' => ?_
    refine Triple.bind (journalAppend_held ?_) fun _ => triple_pure fun _ hroot => hroot
    exact h.used

theorem reconcileEpochs_held {records : List JournalRecord}
    (h : ∀ r ∈ records, r.epochId ≠ w.recordingEpoch → Due E used quiet l₀ a e₀ r) :
    ∀ {entries : List (EntryOf scope)},
    Triple (fun root => root.Held E used quiet l₀ j₀ a ∧ root.Reads e₀ entries)
      (w.reconcileEpochs records entries)
      (fun entries' root => root.Held E used quiet l₀ j₀ a ∧ root.Reads e₀ entries')
      (Root.Held E used quiet l₀ j₀ a) := by
  induction records with
  | nil => intro entries; exact triple_pure fun _ hroot => hroot
  | cons r rest ih =>
    intro entries
    have hrest : ∀ r' ∈ rest, r'.epochId ≠ w.recordingEpoch → Due E used quiet l₀ a e₀ r' :=
      fun r' hr' => h r' (List.mem_cons_of_mem r hr')
    unfold reconcileEpochs
    by_cases hown : r.epochId = w.recordingEpoch
    · rw [if_pos hown]
      exact ih hrest
    · rw [if_neg hown]
      exact Triple.bind (reconcileEpoch_held (h r List.mem_cons_self hown)) fun _ => ih hrest

/-- The comparison reads, and writes nothing. -/
theorem compare_held {entries : List (EntryOf scope)} :
    Keeps (Root.Held E used quiet l₀ j₀ a) (w.compare entries) := by
  have hscan : Keeps (Root.Held E used quiet l₀ j₀ a) (scan : Recovery scope Authority) := by
    rintro ⟨disk, authority, journal, _, _, _⟩ hroot
    cases authority with
    | none => exact hroot
    | some authority => exact hroot
  have hnow : Keeps (Root.Held E used quiet l₀ j₀ a) w.now := fun _ hroot => hroot
  unfold compare
  refine Keeps.bind hscan fun authority => ?_
  refine Keeps.bind calculated_keeps fun states => ?_
  exact Keeps.bind hnow fun _ => keeps_pure

/-- **The reconciliation keeps what it reconciles**, wherever it stops. -/
theorem reconcileAtStart_held {J : List JournalRecord → Prop}
    (h : ∀ journal, J journal → ∀ r ∈ openEpochs journal, r.epochId ≠ w.recordingEpoch →
      Due E used quiet l₀ a e₀ r) :
    Triple (fun root => root.Held E used quiet l₀ j₀ a ∧ root.disk.file.entries = e₀ ∧
        J root.journal)
      w.reconcileAtStart (fun _ => Root.Held E used quiet l₀ j₀ a)
      (Root.Held E used quiet l₀ j₀ a) := by
  unfold reconcileAtStart
  refine Triple.bind (Q := fun root₀ root => root₀ = root ∧
    (root.Held E used quiet l₀ j₀ a ∧ root.disk.file.entries = e₀ ∧ J root.journal))
    (triple_get fun _ hroot => ⟨rfl, hroot⟩) fun root₀ => ?_
  refine Triple.bind (Q := fun root₁ root => root₀ = root ∧ root₁ = root ∧
    (root.Held E used quiet l₀ j₀ a ∧ root.disk.file.entries = e₀ ∧ J root.journal))
    (triple_get fun _ hroot => ⟨hroot.1, hroot.1 ▸ rfl, hroot.2⟩) fun root₁ => ?_
  rintro root ⟨rfl, rfl, hheld, hentries, hjournal⟩
  refine @Triple.tryCatch _ _ _ _ _ (Root.Held E used quiet l₀ j₀ a) _ _ _ (Triple.bind
    (reconcileEpochs_held (h _ hjournal)) fun entries => ?_) (fun error => ?_) root₁
    ⟨hheld, [], by rw [hentries, List.append_nil], fun _ he => (by cases he), rfl⟩
  · exact compare_held.weaken (fun _ hroot => hroot.1) (fun _ _ hroot => hroot) fun _ hroot => hroot
  · cases error with
    | store e => exact keeps_throw
    | decisionStoreUnavailable => exact keeps_pure

end RecoveryWriter

/-! ## The epochs of the journal -/

/-- The journal at a start, or with the epoch of this life opened. -/
def OpenedBy (E : Str) (j₀ journal : List JournalRecord) : Prop :=
  journal = j₀ ∨ ∃ r, r.record = .epochOpen ∧ r.epochId = E ∧ journal = j₀ ++ [r]

theorem openEpochs_closed {journal : List JournalRecord} {r r' : JournalRecord}
    (h : r ∈ openEpochs journal) (hr' : r' ∈ journal) (hclosing : r'.record ≠ .epochOpen) :
    r'.epochId ≠ r.epochId := by
  intro heq
  have hopen := (Bool.and_eq_true_iff.1 (List.mem_filter.1 h).2).2
  rw [Bool.not_eq_true', List.any_eq_false] at hopen
  exact hopen r' hr' (by simp [hclosing, heq])

/-- The epochs of other lives are open when they were. -/
theorem OpenedBy.openEpochs {journal : List JournalRecord} (h : OpenedBy E j₀ journal)
    {r : JournalRecord} (hr : r ∈ openEpochs journal) (hother : r.epochId ≠ E) :
    r ∈ SayFirst.Plane.openEpochs j₀ := by
  rcases h with rfl | ⟨opened, hopened, hepoch, rfl⟩
  · exact hr
  · obtain ⟨hmem, hopen⟩ := List.mem_filter.1 hr
    have hmem : r ∈ j₀ := by
      rcases List.mem_append.1 hmem with hmem | hmem
      · exact hmem
      · exact absurd (List.mem_singleton.1 hmem ▸ hepoch) hother
    refine List.mem_filter.2 ⟨hmem, ?_⟩
    rw [List.any_append, Bool.not_or] at hopen
    simp only [Bool.and_eq_true] at hopen ⊢
    exact ⟨hopen.1, hopen.2.1⟩

namespace RecoveryWriter

/-- `open_epoch` appends the record of this life, or nothing. -/
theorem openEpoch_at {l : List EvidenceFields} :
    Triple (fun root => root.At l j a ∧ root.disk.file.entries = e₀) w.openEpoch
      (fun _ root => (∃ r, r.record = .epochOpen ∧ r.epochId = w.recordingEpoch ∧
        root.At l (j ++ [r]) a) ∧ root.disk.file.entries = e₀)
      fun root => (root.At l j a ∨ ∃ r, r.record = .epochOpen ∧ r.epochId = w.recordingEpoch ∧
        root.At l (j ++ [r]) a) ∧ root.disk.file.entries = e₀ := by
  rintro ⟨⟨file, stops⟩, authority, journal, _, _, _⟩ ⟨⟨hl, hj, ha⟩, hentries⟩
  cases hj
  cases authority with
  | none => exact ⟨.inl ⟨hl, rfl, ha⟩, hentries⟩
  | some authority =>
    have hr : ∃ r : JournalRecord, r.record = .epochOpen ∧ r.epochId = w.recordingEpoch ∧
        r = JournalRecord.opening w.recordingEpoch authority.storeIdOf w.epoch_ne
          file.nextSequence := ⟨_, rfl, rfl, rfl⟩
    obtain ⟨r, hopen, hepoch, hr⟩ := hr
    cases stops with
    | nil => exact ⟨⟨r, hopen, hepoch, hl, by rw [hr], ha⟩, hentries⟩
    | cons stop rest =>
      cases stop with
      | goesOn => exact ⟨⟨r, hopen, hepoch, hl, by rw [hr], ha⟩, hentries⟩
      | before => exact ⟨.inl ⟨hl, rfl, ha⟩, hentries⟩
      | within => exact ⟨.inl ⟨hl, rfl, ha⟩, hentries⟩
      | after => exact ⟨.inr ⟨r, hopen, hepoch, hl, by rw [hr], ha⟩, hentries⟩

/-- **A start keeps what it reconciles**, wherever it stops. -/
theorem recoverAndOpen_held {composition : Bool} (hE : E = w.recordingEpoch) (hused : E ∈ used)
    (h : ∀ r ∈ openEpochs j₀, r.epochId ≠ E → Due E used quiet l₀ a e₀ r) :
    Triple (fun root => root.Held E used quiet l₀ j₀ a ∧ root.disk.file.entries = e₀ ∧
        root.journal = j₀)
      (w.recoverAndOpen composition) (fun _ => Root.Held E used quiet l₀ j₀ a)
      (Root.Held E used quiet l₀ j₀ a) := by
  subst hE
  have hstart : Triple (fun root => root.Held w.recordingEpoch used quiet l₀ j₀ a ∧
        root.disk.file.entries = e₀ ∧ OpenedBy w.recordingEpoch j₀ root.journal)
      w.reconcileAtStart (fun _ => Root.Held w.recordingEpoch used quiet l₀ j₀ a)
      (Root.Held w.recordingEpoch used quiet l₀ j₀ a) :=
    reconcileAtStart_held fun journal hjournal r hr hother =>
      h r (hjournal.openEpochs hr hother) hother
  have hopen : Triple (fun root => root.Held w.recordingEpoch used quiet l₀ j₀ a ∧
        root.disk.file.entries = e₀ ∧ root.journal = j₀)
      w.openEpoch
      (fun _ root => root.Held w.recordingEpoch used quiet l₀ j₀ a ∧
        root.disk.file.entries = e₀ ∧ OpenedBy w.recordingEpoch j₀ root.journal)
      (Root.Held w.recordingEpoch used quiet l₀ j₀ a) := by
    rintro root ⟨hheld, hentries, hjournal⟩
    refine (openEpoch_at (w := w)).weaken (fun _ h => h) (fun _ root' h => ?_) (fun root' h => ?_)
      root ⟨Root.At.here root, hentries⟩
    · obtain ⟨⟨r, hopened, hepoch, hat⟩, hentries'⟩ := h
      refine ⟨hheld.record (hepoch ▸ hused) hat, hentries', .inr ⟨r, hopened, hepoch, ?_⟩⟩
      rw [hat.2.1, hjournal]
    · obtain ⟨hat | ⟨r, hopened, hepoch, hat⟩, -⟩ := h
      · exact hat.held hheld.2 hheld.1
      · exact hheld.record (hepoch ▸ hused) hat
  unfold recoverAndOpen
  refine Triple.bind (Q := fun _ root => root.Held w.recordingEpoch used quiet l₀ j₀ a ∧
    root.disk.file.entries = e₀ ∧ root.journal = j₀) (triple_get fun _ hroot => hroot) fun root₀ => ?_
  simp only
  split
  · exact Triple.bind hopen fun _ => Triple.bind (Triple.bind hstart fun _ => keeps_pure)
      fun _ => keeps_pure
  · refine Triple.bind (Triple.bind (hstart.weaken (fun root hroot => ?_) (fun _ _ h => h)
      fun _ h => h) fun _ => keeps_pure) fun _ => keeps_pure
    exact ⟨hroot.1, hroot.2.1, .inl hroot.2.2⟩

/-- `close_clean` writes the clean marker of this life, or nothing; it returns a marker it has
written. -/
theorem closeMark_at {l : List EvidenceFields} :
    Triple (Root.At l j a) w.closeMark
      (fun marker root => (∀ m, marker ≠ some (some m)) ∧ root.At l j a ∨
        (∃ m, marker = some (some m)) ∧
          ∃ f, IsClean w.recordingEpoch f ∧ root.At (l ++ [f]) j a)
      fun root => root.At l j a ∨ ∃ f, IsClean w.recordingEpoch f ∧ root.At (l ++ [f]) j a := by
  unfold closeMark
  refine Triple.bind (Q := fun _ => Root.At l j a) (triple_get fun _ h => h) fun root₀ => ?_
  simp only
  split
  · exact triple_pure fun _ h => .inl ⟨fun m hm => (by cases hm), h⟩
  · refine Triple.bind (gradeFirst_at.weaken (fun _ h => h) (fun _ _ h => h) fun _ h => .inl h)
      fun _ => ?_
    refine Triple.bind (Q := fun _ => Root.At l j a) (triple_get fun _ h => h) fun root₁ => ?_
    split
    · exact triple_pure fun _ h => .inl ⟨fun m hm => (by cases hm), h⟩
    · split
      · exact triple_pure fun _ h => .inl ⟨fun m hm => (by cases hm), h⟩
      · refine Triple.bind ((append_at fun f hf _ => writtenByRecovery_kind hf).weaken
          (fun _ h => h) (fun _ _ h => h) fun root h => ?_) fun e => ?_
        · rcases h with h | ⟨f, hkind, hbody, h⟩
          · exact .inl h
          · exact .inr ⟨f, ⟨hkind, _, _, hbody⟩, h⟩
        · exact triple_pure fun root h => .inr ⟨⟨e.1, rfl⟩, _, ⟨h.1, _, _, h.2.1⟩, h.2.2⟩

end RecoveryWriter

end SayFirst.Plane
