import SayFirst.Lib.Pattern
import SayFirst.Lib.Reference
import SayFirst.Proof.EvidenceStore
import SayFirst.Proof.Preimage
import SayFirst.Proof.Rearranged
import SayFirst.Spec.EntryDocument

/-!
# The document of an entry reads back as the entry

* `readPrincipal_document`, `coreOwnedPrincipal_self` — a principal is rebuilt.
* `entryFromDocument_read` — an entry read from the members of its document, by key.
* `entry_round_trip` — an entry that was placed, written, read and rebuilt.
-/

namespace SayFirst.Plane

open Py Evidence

variable {py : Interpreter} {float : Str → PyFloat} {F : PyFloat → Prop} {fromIso : FromIso}

/-! ## Principals -/

/-- The members of a principal's document, by key. -/
theorem principal_arranged (kind id : Str) (via : List EvidencePrincipal) :
    (EvidencePrincipal.mk kind id via).toDocument.arranged =
      .obj [(lit "id", .str id), (lit "kind", .str kind),
        (lit "via", .arr (Json.arrangedItems (EvidencePrincipal.toDocument.toDocuments via)))] := by
  rw [EvidencePrincipal.toDocument]
  rfl

theorem isMapping_documents : ∀ ps : List EvidencePrincipal,
    (Json.arrangedItems (EvidencePrincipal.toDocument.toDocuments ps)).all isMapping = true
  | [] => rfl
  | .mk kind id via :: ps => by
    rw [EvidencePrincipal.toDocument.toDocuments, Json.arrangedItems, List.all_cons,
      principal_arranged, isMapping_documents ps]
    rfl

theorem construct_admitted {kind id : Str} {via : List EvidencePrincipal}
    (h : (!kind.isEmpty && !id.isEmpty) = true) :
    EvidencePrincipal.construct kind id via = .ok (.mk kind id via) := by
  unfold EvidencePrincipal.construct
  rw [h]
  rfl

mutual

/-- **A principal is read from its document.** -/
theorem readPrincipal_document : ∀ {p : EvidencePrincipal}, p.admitted = true →
    readPrincipal py p.toDocument.arranged = .ok p
  | .mk kind id via, h => by
    rw [EvidencePrincipal.admitted, Bool.and_eq_true] at h
    rw [principal_arranged, readPrincipal]
    have hvia : viaHolds [(lit "id", .str id), (lit "kind", .str kind),
        (lit "via", .arr (Json.arrangedItems (EvidencePrincipal.toDocument.toDocuments via)))] =
        true := isMapping_documents via
    have hread : readVia py [(lit "id", .str id), (lit "kind", .str kind),
        (lit "via", .arr (Json.arrangedItems (EvidencePrincipal.toDocument.toDocuments via)))] =
        .ok via := by
      simp only [readVia, lit_inj, String.reduceEq, if_false, if_true]
      exact readPrincipals_documents h.2
    rw [hvia, hread]
    exact construct_admitted h.1

theorem readPrincipals_documents : ∀ {ps : List EvidencePrincipal},
    EvidencePrincipal.admitted.admittedAll ps = true →
      readPrincipals py (Json.arrangedItems (EvidencePrincipal.toDocument.toDocuments ps)) = .ok ps
  | [], _ => rfl
  | p :: ps, h => by
    rw [EvidencePrincipal.admitted.admittedAll, Bool.and_eq_true] at h
    rw [EvidencePrincipal.toDocument.toDocuments, Json.arrangedItems, readPrincipals,
      readPrincipal_document h.1, readPrincipals_documents h.2]
    rfl

end

mutual

/-- **A principal is rebuilt as it was.** -/
theorem coreOwnedPrincipal_self : ∀ {p : EvidencePrincipal}, p.admitted = true →
    coreOwnedPrincipal p = .ok p
  | .mk kind id via, h => by
    rw [EvidencePrincipal.admitted, Bool.and_eq_true] at h
    rw [coreOwnedPrincipal, coreOwnedPrincipals_self h.2]
    exact construct_admitted h.1

theorem coreOwnedPrincipals_self : ∀ {ps : List EvidencePrincipal},
    EvidencePrincipal.admitted.admittedAll ps = true → coreOwnedPrincipals ps = .ok ps
  | [], _ => rfl
  | p :: ps, h => by
    rw [EvidencePrincipal.admitted.admittedAll, Bool.and_eq_true] at h
    rw [coreOwnedPrincipals, coreOwnedPrincipal_self h.1, coreOwnedPrincipals_self h.2]
    rfl

end

theorem admitted_principal (e : EvidenceEntry) : e.principal.admitted = true := by
  obtain ⟨_, hrecord, -⟩ := bind_ok_iff.1 e.held
  obtain ⟨_, -, h⟩ := bind_ok_iff.1 hrecord
  obtain ⟨_, -, h⟩ := bind_ok_iff.1 h
  obtain ⟨_, -, h⟩ := bind_ok_iff.1 h
  obtain ⟨_, hprincipal, -⟩ := bind_ok_iff.1 h
  exact hold_ok.1 hprincipal

/-! ## Entries -/

/-- An arranged entry. -/
def EvidenceEntry.arrange (e : EvidenceEntry) (h : EvidenceBody.PlainBody F e.body) :
    EvidenceEntry := ⟨e.toEntryFields.arrange, (validate_arrange h).trans e.held⟩

theorem EvidenceEntry.arrange_arrange {e : EvidenceEntry} (h : EvidenceBody.PlainBody F e.body)
    (h' : EvidenceBody.PlainBody F (e.arrange h).body) :
    (e.arrange h).arrange h' = e.arrange h := by
  have hfields : e.toEntryFields.arrange.arrange = e.toEntryFields.arrange := by
    unfold EntryFields.arrange
    simp only [Json.arrange_idem]
  unfold EvidenceEntry.arrange
  simp only [hfields]

theorem construct_held {e : EntryFields} (h : e.validate = .ok ()) :
    EntryFields.construct e = .ok ⟨⟨e, h⟩, rfl⟩ := by
  unfold EntryFields.construct
  split
  · rfl
  · rename_i heq
    rw [h] at heq
    cases heq

theorem construct_entry {f : EntryFields} {e : EvidenceEntry} (h : f = e.toEntryFields)
    (microsecond : Fin 1000000) :
    (EntryFields.construct f >>= fun entry => pure (⟨entry.1, microsecond⟩ : TimedEntry)) =
      .ok ⟨e, microsecond⟩ := by
  subst h
  rw [construct_held e.held]
  rfl

/-- `datetime.fromisoformat` reads what `isoformat` writes of a moment, from the year 1000 on. -/
structure IsoReads (fromIso : FromIso) (m : Moment) : Prop where
  whole : ∀ c, m.instant.utc = some c → 1000 ≤ c.year →
    fromIso c.isoformat = some (some ⟨m.instant, 0⟩)
  exact_ : ∀ c text, m.instant.utc = some c → 1000 ≤ c.year → m.isoformat = some text →
    fromIso text = some (some m)

theorem readInstant_text {m : Moment} {c : Civil} (hlaw : IsoReads fromIso m)
    (hutc : m.instant.utc = some c) (hyear : 1000 ≤ c.year) :
    readInstant fromIso c.text = .ok ⟨m.instant, 0⟩ := by
  unfold readInstant
  rw [text_replaced, hlaw.whole c hutc hyear]

/-- **What is read of the members of an entry's document, by key.** -/
theorem entryFromDocument_read {e : EvidenceEntry} {microsecond : Fin 1000000} {document : Body}
    {c : Civil} (hlaw : IsoReads fromIso ⟨e.recordedAt, microsecond⟩) (hyear : 1000 ≤ c.year)
    (hutc : e.recordedAt.utc = some c) (hbody : EvidenceBody.PlainBody F e.body)
    (hdoc : entryToDocument e.toEntryFields = some document)
    (hnodup : (document.map (·.1)).Nodup) :
    entryFromDocument py fromIso (Json.arrange document) = .ok ⟨e.arrange hbody, 0⟩ := by
  obtain ⟨text, htext, hdoc⟩ := Option.bind_eq_some_iff.1 hdoc
  have hctext : text = c.text := by
    rw [renderInstant, hutc] at htext
    exact (Option.some.inj htext).symm
  have hitem : ∀ (key : String) (v : Json), Json.get document key = some v →
      EvidenceBody.item (Json.arrange document) key = .ok v.arranged := by
    intro key v hget
    rw [EvidenceBody.item, Json.get_arrange hnodup, hget]
    rfl
  have hscope := hitem "scope" (.str e.scope) (by cases hdoc; rfl)
  have hkind := hitem "kind" (.str e.kind) (by cases hdoc; rfl)
  have hrecorded := hitem "recorded_at" (.str text) (by cases hdoc; rfl)
  have hconnection := hitem "connection_id" (.str e.connectionId) (by cases hdoc; rfl)
  have hprincipal := hitem "principal" e.principal.toDocument (by cases hdoc; rfl)
  have hentrybody := hitem "body" (.obj e.body) (by cases hdoc; rfl)
  have hsequence := hitem "sequence" (.int e.sequence) (by cases hdoc; rfl)
  have hprevious := hitem "previous_hash" (.ofOption .str e.previousHash)
    (by cases hdoc; rfl)
  have hhash := hitem "entry_hash" (.str e.entryHash) (by cases hdoc; rfl)
  have hversion := hitem "preimage_version" (.str e.preimageVersion)
    (by cases hdoc; rfl)
  have hmapping : (isMapping e.principal.toDocument.arranged && isMapping (Json.obj e.body).arranged) =
      true := by
    cases e.principal
    rfl
  have hread : readInstant fromIso (Json.text py (Json.str text).arranged) =
      .ok ⟨e.recordedAt, 0⟩ := by
    change readInstant fromIso text = _
    rw [hctext, readInstant_text hlaw hutc hyear]
  have hreadPrincipal := @readPrincipal_document py _ (admitted_principal e)
  have hinteger : Json.toInt py (Json.int e.sequence).arranged = .ok e.sequence := rfl
  have hprevious' : textOrNone py (Json.ofOption .str e.previousHash).arranged = e.previousHash := by
    cases e.previousHash <;> rfl
  have hfields : ({ (e.arrange hbody).toEntryFields with
      previousHash := textOrNone py (Json.ofOption .str e.previousHash).arranged } : EntryFields) =
      (e.arrange hbody).toEntryFields := by
    rw [hprevious']
    rfl
  unfold entryFromDocument
  simp only [hscope, hkind, hrecorded, hconnection, hprincipal, hentrybody, hsequence, hprevious,
    hhash, hversion, hmapping, hread, hreadPrincipal, hinteger, bind, Except.bind]
  exact construct_entry hfields 0

/-- **An entry is rebuilt, arranged.** -/
theorem coreOwnedEntry_eq {e : EvidenceEntry} {microsecond : Fin 1000000} {c : Civil}
    (hlaw : IsoReads fromIso ⟨e.recordedAt, microsecond⟩) (hyear : 1000 ≤ c.year)
    (hutc : e.recordedAt.utc = some c) (hF : ∀ f, F f → Json.FloatReads py.floatRepr float f)
    (hbody : EvidenceBody.PlainBody F e.body) :
    coreOwnedEntry py float fromIso ⟨e, microsecond⟩ = some ⟨e.arrange hbody, microsecond⟩ := by
  have hinstant : coreOwnedInstant fromIso ⟨e.recordedAt, microsecond⟩ =
      some ⟨e.recordedAt, microsecond⟩ := by
    obtain ⟨text, htext⟩ : ∃ text, Moment.isoformat ⟨e.recordedAt, microsecond⟩ = some text := by
      rw [Moment.isoformat, hutc]
      exact ⟨_, rfl⟩
    unfold coreOwnedInstant
    rw [htext]
    simp only [Option.bind_eq_bind, Option.bind_some, hlaw.exact_ c text hutc hyear htext]
  have hprincipal : (coreOwnedPrincipal e.principal).toOption = some e.principal := by
    rw [coreOwnedPrincipal_self (admitted_principal e)]
    rfl
  have howned : coreOwnedBody py float e.body = some (Json.arrange e.body) := by
    unfold coreOwnedBody
    rw [Json.canonical, Json.loads_dumps_arranged hF hbody, Json.arranged_obj]
  have hconstruct := construct_held (e.arrange hbody).held
  unfold coreOwnedEntry
  simp only [hinstant, hprincipal, howned, Option.bind_eq_bind, Option.bind_some]
  change ((EntryFields.construct (e.arrange hbody).toEntryFields).toOption.bind fun entry =>
    some (⟨entry.1, microsecond⟩ : TimedEntry)) = _
  rw [hconstruct]
  rfl

/-! ## Documents -/

theorem spelled_hash {hash : Str} (h : hashPattern.fullmatch hash = true) :
    Json.spelled hash = true := by
  obtain ⟨-, hall⟩ := Pattern.fullmatch_times_cls.1 h
  refine spelled_of_ascii fun c hc => ?_
  have hhex := List.all_eq_true.1 hall c hc
  simp only [isLowerHex, isDigit, Bool.or_eq_true, Bool.and_eq_true, decide_eq_true_eq] at hhex
  omega

theorem entryToDocument_of {e : EntryFields} {c : Civil} (hutc : e.recordedAt.utc = some c) :
    ∃ document, entryToDocument e = some document ∧ Json.get document "recorded_at" =
      some (.str c.text) := by
  refine ⟨_, by rw [entryToDocument, renderInstant, hutc]; rfl, rfl⟩

theorem nodup_document {e : EntryFields} {document : Body}
    (hdoc : entryToDocument e = some document) : (document.map (·.1)).Nodup := by
  obtain ⟨text, -, hdoc⟩ := Option.bind_eq_some_iff.1 hdoc
  cases hdoc
  change ([lit "scope", lit "kind", lit "recorded_at", lit "connection_id", lit "principal",
    lit "body", lit "sequence", lit "previous_hash", lit "entry_hash", lit "preimage_version"] :
    List Str).Nodup
  decide

/-- The document of an entry whose principal and body are JSON is JSON. -/
theorem plain_document {e : EvidenceEntry} {document : Body} {b : Bytes}
    (hdoc : entryToDocument e.toEntryFields = some document)
    (hpreimage : preimage py e.toEntryFields = some b)
    (hversion : e.preimageVersion = Evidence.preimageVersion)
    (hprincipal : Json.Plain F e.principal.toDocument) (hbody : EvidenceBody.PlainBody F e.body) :
    Json.Plain F (.obj document) := by
  have hadmitted := admitted e
  have hkeys := nodup_document hdoc
  obtain ⟨text, htext, hdoc⟩ := Option.bind_eq_some_iff.1 hdoc
  obtain ⟨c, -, rfl⟩ := Option.map_eq_some_iff.1 htext
  obtain ⟨_, -, hpreimage⟩ := Option.bind_eq_some_iff.1 hpreimage
  obtain ⟨_, _, _, _, _, -, hscope, hkind, hconnection, -⟩ := preimageOf_some hpreimage
  have hinstant : Json.spelled c.text = true := spelled_of_ascii (text_ascii c)
  have hprevious : Json.Plain F (.ofOption .str e.previousHash) := by
    cases hp : e.previousHash with
    | none => trivial
    | some hash => exact spelled_hash (hadmitted.previous hash hp)
  refine ⟨Json.plainMembers_iff.2 ?_, hkeys⟩
  cases hdoc
  have hkey : ∀ key ∈ (["scope", "kind", "recorded_at", "connection_id", "principal", "body",
      "sequence", "previous_hash", "entry_hash", "preimage_version"] : List String),
      Json.spelled (lit key) = true := by
    decide
  simp only [List.forall_mem_cons, List.not_mem_nil, false_imp_iff, implies_true, and_true] at hkey
  obtain ⟨k1, k2, k3, k4, k5, k6, k7, k8, k9, k10⟩ := hkey
  simp only [List.mem_cons, List.not_mem_nil, or_false]
  rintro m (rfl | rfl | rfl | rfl | rfl | rfl | rfl | rfl | rfl | rfl)
  · exact ⟨k1, utf8_spelled hscope⟩
  · exact ⟨k2, utf8_spelled hkind⟩
  · exact ⟨k3, hinstant⟩
  · exact ⟨k4, utf8_spelled hconnection⟩
  · exact ⟨k5, hprincipal⟩
  · exact ⟨k6, hbody⟩
  · exact ⟨k7, trivial⟩
  · exact ⟨k8, hprevious⟩
  · exact ⟨k9, spelled_hash hadmitted.hash⟩
  · have hspelled : Json.spelled Evidence.preimageVersion = true := by decide
    exact ⟨k10, hversion ▸ hspelled⟩

/-! ## Hashes -/

theorem preimage_arrange (e : EntryFields) : preimage py e.arrange = preimage py e := by
  have hbody : Json.canonical py (.obj (Json.arrange e.body)) = Json.canonical py (.obj e.body) := by
    rw [Json.canonical, Json.canonical, ← Json.arranged_obj, Json.dumps_arranged]
  unfold preimage preimageOf EntryFields.arrange
  simp only [hbody]

theorem entryHashOf_arrange (e : EntryFields) : entryHashOf py e.arrange = entryHashOf py e := by
  rw [entryHashOf, entryHashOf, preimage_arrange]

/-- Two entries are one, their bodies up to the order of members. -/
structure SameEntry (e f : EvidenceEntry) : Prop where
  tuple : SameTuple e.toEntryFields f.toEntryFields
  entryHash : e.entryHash = f.entryHash
  preimageVersion : e.preimageVersion = f.preimageVersion

theorem same_arrange {e : EvidenceEntry} (h : EvidenceBody.PlainBody F e.body) :
    SameEntry e (e.arrange h) :=
  ⟨⟨rfl, rfl, rfl, rfl, rfl, rfl, Json.arrange_idem.symm, rfl⟩, rfl, rfl⟩

/-- What reading its document back, and rebuilding it, makes of an entry. -/
structure RoundTrip (py : Interpreter) (float : Str → PyFloat) (fromIso : FromIso) (e : TimedEntry) :
    Prop where
  reads : ∃ document read e', entryToDocument e.entry.toEntryFields = some document ∧
    Json.loads float (Json.canonical py (.obj document)) = some (.obj read) ∧
    entryFromDocument py fromIso read = .ok ⟨e', 0⟩ ∧ SameEntry e.entry e' ∧
    entryVerifies py e' = true
  rebuilds : ∃ owned, coreOwnedEntry py float fromIso e = some ⟨owned, e.microsecond⟩ ∧
    SameEntry e.entry owned ∧
    entryHashOf py owned.toEntryFields = entryHashOf py e.entry.toEntryFields ∧
    coreOwnedEntry py float fromIso ⟨owned, e.microsecond⟩ = some ⟨owned, e.microsecond⟩

/-- What `chained` or `chained_after_break` makes of a record. -/
def Placed (py : Interpreter) (r : EvidenceRecord) (e : EntryOf r.scope) : Prop :=
  ∃ previous, chained py r previous = .ok e ∨
    ∃ p, previous = some p ∧ chainedAfterBreak py r p = .ok e

theorem Placed.sound {r : EvidenceRecord} {e : EntryOf r.scope} (h : Placed py r e) :
    e.1.toEvidenceFields = r.toEvidenceFields ∧ Chain.Sound (entryView py) e.1 := by
  obtain ⟨previous, h | ⟨p, -, h⟩⟩ := h
  · cases previous with
    | none =>
      obtain ⟨hfields, -, -, hsound⟩ := EvidenceRecord.entryAt_ok h
      exact ⟨hfields, hsound⟩
    | some p =>
      unfold chained at h
      simp only at h
      split at h
      · cases h
      · split at h
        · cases h
        · obtain ⟨hfields, -, -, hsound⟩ := EvidenceRecord.entryAt_ok h
          exact ⟨hfields, hsound⟩
  · unfold chainedAfterBreak at h
    split at h
    · cases h
    · obtain ⟨hfields, -, -, hsound⟩ := EvidenceRecord.entryAt_ok h
      exact ⟨hfields, hsound⟩

/-- A placed entry whose principal and body are JSON has a document, which is read. -/
theorem Placed.reads {r : EvidenceRecord} {microsecond : Fin 1000000} {e : EntryOf r.scope}
    (hplaced : Placed py r e) (hlaw : IsoReads fromIso ⟨r.recordedAt, microsecond⟩)
    (hyears : ∀ c, r.recordedAt.utc = some c → 1000 ≤ c.year)
    (hprincipal : Json.Plain F r.principal.toDocument) (hbody : Json.Plain F (.obj r.body)) :
    ∃ (document : Body) (hentry : EvidenceBody.PlainBody F e.1.body),
      entryToDocument e.1.toEntryFields = some document ∧ Json.Plain F (.obj document) ∧
      entryFromDocument py fromIso (Json.arrange document) = .ok ⟨e.1.arrange hentry, 0⟩ := by
  obtain ⟨hfields, hknown, hrecomputed⟩ := hplaced.sound
  have hversion : e.1.preimageVersion = Evidence.preimageVersion := eq_of_beq hknown
  have hhash : entryHashOf py e.1.toEntryFields = some e.1.entryHash := hrecomputed
  rw [← hfields] at hlaw hyears hprincipal hbody
  obtain ⟨b, hpreimage, -⟩ := Option.map_eq_some_iff.1 hhash
  obtain ⟨text, htext, -⟩ := Option.bind_eq_some_iff.1 hpreimage
  obtain ⟨c, hutc, -⟩ := Option.map_eq_some_iff.1 htext
  obtain ⟨document, hdoc, -⟩ := entryToDocument_of hutc
  exact ⟨document, hbody, hdoc, plain_document hdoc hpreimage hversion hprincipal hbody,
    entryFromDocument_read hlaw (hyears c hutc) hutc hbody hdoc (nodup_document hdoc)⟩

/-- **An entry that was placed reads back as itself, and is rebuilt as itself.** -/
theorem entry_round_trip (py : Interpreter) (float : Str → PyFloat) (fromIso : FromIso)
    (r : EvidenceRecord) (microsecond : Fin 1000000) (e : EntryOf r.scope)
    (hplaced : Placed py r e) (hlaw : IsoReads fromIso ⟨r.recordedAt, microsecond⟩)
    (hyears : ∀ c, r.recordedAt.utc = some c → 1000 ≤ c.year)
    (hprincipal : Json.Plain (Json.FloatReads py.floatRepr float) r.principal.toDocument)
    (hbody : Json.Plain (Json.FloatReads py.floatRepr float) (.obj r.body)) :
    RoundTrip py float fromIso ⟨e.1, microsecond⟩ := by
  obtain ⟨document, hentry, hdoc, hplain, hread⟩ := hplaced.reads hlaw hyears hprincipal hbody
  obtain ⟨hfields, hknown, hrecomputed⟩ := hplaced.sound
  have hversion : e.1.preimageVersion = Evidence.preimageVersion := eq_of_beq hknown
  have hhash : entryHashOf py e.1.toEntryFields = some e.1.entryHash := hrecomputed
  rw [← hfields] at hlaw hyears
  obtain ⟨text, htext, -⟩ := Option.bind_eq_some_iff.1 hdoc
  obtain ⟨c, hutc, -⟩ := Option.map_eq_some_iff.1 htext
  have hyear := hyears c hutc
  have hF : ∀ f, Json.FloatReads py.floatRepr float f → Json.FloatReads py.floatRepr float f :=
    fun _ h => h
  have hsame := same_arrange hentry
  have harranged : EvidenceBody.PlainBody _ (e.1.arrange hentry).body :=
    Json.arranged_obj ▸ Json.plain_arranged hentry
  have harrange : (e.1.arrange hentry).arrange harranged = e.1.arrange hentry :=
    EvidenceEntry.arrange_arrange hentry harranged
  have hashes : entryHashOf py (e.1.arrange hentry).toEntryFields =
      entryHashOf py e.1.toEntryFields := entryHashOf_arrange _
  refine ⟨⟨document, Json.arrange document, e.1.arrange hentry, hdoc, ?_, hread, hsame, ?_⟩,
    e.1.arrange hentry, ?_, hsame, hashes, ?_⟩
  · rw [Json.canonical, Json.loads_dumps_arranged hF hplain, Json.arranged_obj]
  · unfold entryVerifies
    rw [hashes, hhash]
    change (e.1.preimageVersion == _ && _) = true
    rw [hversion]
    exact beq_self_eq_true _
  · exact coreOwnedEntry_eq hlaw hyear hutc hF hentry
  · rw [coreOwnedEntry_eq (e := e.1.arrange hentry) hlaw hyear hutc hF harranged, harrange]

/-- A reader of `YYYY-MM-DDTHH:MM:SS.ffffff+00:00`, the fraction left out where it is zero. -/
def isoReader : FromIso := fun text =>
  if (text.drop 19).head? = some 46 then
    match reference.fromIso (text.take 19 ++ text.drop 26), readDecimal ((text.drop 20).take 6) with
    | some stamp, some n => some (stamp.map (⟨·, Fin.ofNat _ n⟩))
    | _, _ => none
  else (reference.fromIso text).map fun stamp => stamp.map (⟨·, 0⟩)

/-- A list of components, to be placed. -/
def componentsRecord : EvidenceRecord := ⟨sampleEntry.toEvidenceFields, by decide +kernel⟩

theorem chained_first {r : EvidenceRecord} {e : EvidenceEntry} {hash : Str}
    (hhash : entryHashOf py (r.at_ 1 none) = some hash)
    (hfields : e.toEntryFields = { r.at_ 1 none with entryHash := hash }) (hscope : e.scope = r.scope) :
    chained py r none = .ok ⟨e, hscope⟩ := by
  obtain ⟨fields, held⟩ := e
  cases hfields
  unfold chained EvidenceRecord.entryAt
  simp only [hhash]
  exact construct_held held

theorem entry_round_trip_sample :
    RoundTrip reference (fun _ => .nan) isoReader ⟨sampleEntry, 250000⟩ := by
  refine entry_round_trip reference (fun _ => .nan) isoReader componentsRecord 250000
    ⟨sampleEntry, rfl⟩ ⟨none, .inl (chained_first (by decide +kernel) rfl rfl)⟩ ⟨?_, ?_⟩ ?_ ?_ ?_
  · rintro c ⟨⟩ -
    decide +kernel
  · rintro c text ⟨⟩ - ⟨⟩
    decide +kernel
  · rintro c ⟨⟩
    decide
  · simp +decide [componentsRecord, sampleEntry, EvidencePrincipal.toDocument,
      EvidencePrincipal.toDocument.toDocuments, Json.Plain, Json.PlainMembers, Json.PlainItems]
  · simp +decide [componentsRecord, sampleEntry, Json.Plain, Json.PlainMembers, Json.PlainItems]

/-- A list of components a user recorded. -/
def recordedBy (id : Str) : EntryFields :=
  { sampleEntry.toEntryFields with
    principal := .mk (lit "user") id []
    entryHash := lit "e370e199bd6bc1bfeee30d8b079ea2f4d95dca0bcd8b3eeab802dcbb3218a857" }

/-- An entry of two surrogates. -/
def surrogatesEntry : EvidenceEntry := ⟨recordedBy [0xD83D, 0xDE00], by decide +kernel⟩

/-- The entry of the character they spell. -/
def characterEntry : EvidenceEntry := ⟨recordedBy [0x1F600], by decide +kernel⟩

/-- An entry whose principal is two surrogates is placed, and reads back as the entry of the one
character they spell. -/
theorem entry_document_changes : ∃ (r : EvidenceRecord) (e : EntryOf r.scope) (document read : Body)
    (e' : TimedEntry), chained reference r none = .ok e ∧
      entryToDocument e.1.toEntryFields = some document ∧
      Json.loads (fun _ => .nan) (Json.canonical reference (.obj document)) = some (.obj read) ∧
      entryFromDocument reference isoReader read = .ok e' ∧ ¬SameEntry e.1 e'.entry := by
  have hbody : EvidenceBody.PlainBody (fun _ => False) characterEntry.body := by
    simp +decide [characterEntry, recordedBy, sampleEntry, Json.Plain, Json.PlainMembers,
      Json.PlainItems]
  have hlaw : IsoReads isoReader ⟨characterEntry.recordedAt, 0⟩ := by
    refine ⟨?_, ?_⟩
    · rintro c ⟨⟩ -
      decide +kernel
    · rintro c text ⟨⟩ - ⟨⟩
      decide +kernel
  obtain ⟨document, hdoc, -⟩ := @entryToDocument_of surrogatesEntry.toEntryFields _ rfl
  obtain ⟨document', hdoc', -⟩ := @entryToDocument_of characterEntry.toEntryFields _ rfl
  have halike : Json.canonical reference (.obj document) = Json.canonical reference (.obj document') := by
    cases hdoc
    cases hdoc'
    decide +kernel
  have hprincipal : Json.Plain (fun _ => False) characterEntry.principal.toDocument := by
    simp +decide [characterEntry, recordedBy, EvidencePrincipal.toDocument,
      EvidencePrincipal.toDocument.toDocuments, Json.Plain, Json.PlainMembers, Json.PlainItems]
  have hpreimage : preimage reference characterEntry.toEntryFields =
      some ((preimage reference characterEntry.toEntryFields).getD []) := by
    decide +kernel
  have hplain := plain_document hdoc' hpreimage rfl hprincipal hbody
  refine ⟨⟨surrogatesEntry.toEvidenceFields, by decide +kernel⟩, ⟨surrogatesEntry, rfl⟩, document,
    Json.arrange document', ⟨characterEntry.arrange hbody, 0⟩,
    chained_first (by decide +kernel) rfl rfl, hdoc, ?_, ?_, fun hsame => ?_⟩
  · rw [halike, Json.canonical, Json.loads_dumps_arranged (fun _ h => h.elim) hplain,
      Json.arranged_obj]
  · exact entryFromDocument_read hlaw (by decide) rfl hbody hdoc' (nodup_document hdoc')
  · have hprincipal := hsame.tuple.principal
    revert hprincipal
    simp [surrogatesEntry, characterEntry, recordedBy, EvidenceEntry.arrange, EntryFields.arrange]

end SayFirst.Plane
