import SayFirst.Lib.JsonArranged
import SayFirst.Lib.Utf8
import SayFirst.Proof.Agree

/-!
# What a hash is taken over

The preimage frames nine components by their lengths, so that two entries of one preimage are
one entry; and the contract's recipe gives the document of an entry the preimage the control
plane hashed.

* `flatMap_component_inj` — components are known by their bytes.
* `text_inj`, `toDocument_inj` — so are the instants and the principals they are the texts of.
* `preimage_inj` — one preimage, one entry.
* `preimage_shared` — one entry, one preimage.
-/

namespace SayFirst

open Py Evidence

/-! ## Components -/

theorem digit_lt {s : Str} (h : ∀ c ∈ s, isDigit c = true) : ∀ c ∈ s, 48 ≤ c ∧ c < 58 := by
  intro c hc
  have := h c hc
  simp only [isDigit, Bool.and_eq_true, decide_eq_true_eq] at this
  omega

theorem decimal_digits (n : ℕ) : ∀ c ∈ decimal n, 48 ≤ c ∧ c < 58 := digit_lt (decimal_spec n).2.1

theorem decimal_inj {m n : ℕ} (h : decimal m = decimal n) : m = n := by
  rw [← (decimal_spec m).2.2.1, h, (decimal_spec n).2.2.1]

theorem colon_notMem (n : ℕ) : (58 : UInt8) ∉ ascii (decimal n) := by
  intro hmem
  obtain ⟨c, hc, heq⟩ := List.mem_map.1 hmem
  have hdigit := decimal_digits n c hc
  have heq : UInt8.ofNat c = UInt8.ofNat 58 := heq
  have := ofNat_inj heq (by omega) (by decide)
  omega

/-- What stands before the first separator, and behind it. -/
theorem split_at {α : Type} {sep : α} {p q u v : List α} (hp : sep ∉ p) (hq : sep ∉ q)
    (h : p ++ sep :: u = q ++ sep :: v) : p = q ∧ u = v := by
  induction p generalizing q with
  | nil =>
    cases q with
    | nil => exact ⟨rfl, (List.cons.inj h).2⟩
    | cons b q => exact absurd ((List.cons.inj h).1 ▸ List.mem_cons_self) hq
  | cons a p ih =>
    cases q with
    | nil => exact absurd ((List.cons.inj h).1 ▸ List.mem_cons_self) hp
    | cons b q =>
      obtain ⟨rfl, hrest⟩ := List.cons.inj h
      obtain ⟨rfl, hbehind⟩ := ih (fun hc => hp (List.mem_cons_of_mem _ hc))
        (fun hc => hq (List.mem_cons_of_mem _ hc)) hrest
      exact ⟨rfl, hbehind⟩

theorem component_none_ne {raw x y : Bytes} :
    component none ++ x ≠ component (some raw) ++ y := by
  intro h
  obtain ⟨hne, -⟩ := decimal_spec raw.length
  obtain ⟨c, ds, hd⟩ := List.exists_cons_of_ne_nil hne
  have hdigit := decimal_digits raw.length c (by simp [hd])
  have hhead := congrArg List.head? h
  have hnone : (component none ++ x).head? = some (.ofNat 45) := rfl
  have hsome : (component (some raw) ++ y).head? = some (.ofNat c) := by
    rw [component, hd]
    rfl
  rw [hnone, hsome, Option.some.injEq] at hhead
  have := ofNat_inj hhead (by decide) (by omega)
  omega

/-- A component is known by the bytes that begin with it. -/
theorem component_append {a b : Option Bytes} {x y : Bytes}
    (h : component a ++ x = component b ++ y) : a = b ∧ x = y := by
  cases a with
  | none =>
    cases b with
    | none => exact ⟨rfl, List.append_cancel_left h⟩
    | some s => exact absurd h component_none_ne
  | some r =>
    cases b with
    | none => exact absurd h.symm component_none_ne
    | some s =>
      simp only [component, List.append_assoc, List.cons_append] at h
      obtain ⟨hlength, hrest⟩ := split_at (colon_notMem r.length) (colon_notMem s.length) h
      have hdecimal := ascii_inj (fun c hc => by have := decimal_digits _ c hc; omega)
        (fun c hc => by have := decimal_digits _ c hc; omega) hlength
      obtain ⟨rfl, rfl⟩ := List.append_inj hrest (decimal_inj hdecimal)
      exact ⟨rfl, rfl⟩

/-- **Components are known by their bytes.** -/
theorem flatMap_component_inj : ∀ {as bs : List (Option Bytes)}, as.length = bs.length →
    as.flatMap component = bs.flatMap component → as = bs := by
  intro as
  induction as with
  | nil =>
    intro bs hlen _
    exact (List.length_eq_zero_iff.1 hlen.symm).symm
  | cons a as ih =>
    intro bs hlen h
    cases bs with
    | nil => simp at hlen
    | cons b bs =>
      rw [List.flatMap_cons, List.flatMap_cons] at h
      obtain ⟨rfl, hrest⟩ := component_append h
      rw [ih (Nat.succ.inj hlen) hrest]

/-! ## Texts -/

theorem intText_inj {m n : ℤ} (h : intText m = intText n) : m = n := by
  have hread := fun k : ℤ => @Json.loads_dumps (fun _ => .nan) (fun _ => []) (.int k) trivial
  have hm := hread m
  rw [Json.dumps, h] at hm
  exact (Json.int.inj (Option.some.inj ((hread n).symm.trans hm))).symm

theorem intText_ascii (n : ℤ) : ∀ c ∈ intText n, c < 256 := by
  intro c hc
  have := Json.printable_intText n c hc
  omega

theorem digitsValue_zeros {ds : Str} : ∀ k,
    Json.digitsValue (List.replicate k 48 ++ ds) = Json.digitsValue ds
  | 0 => rfl
  | k + 1 => digitsValue_zeros k

theorem padded_inj {width m n : ℕ} (h : padded width m = padded width n) : m = n := by
  have hvalue : ∀ k, Json.digitsValue (padded width k) = k := fun k => by
    rw [padded, digitsValue_zeros, (decimal_spec k).2.2.1]
  rw [← hvalue m, h, hvalue n]

/-- A field of a fixed width is known by what begins with it. -/
theorem padded_append {k m n : ℕ} {x y : Str} (hm : m < 10 ^ (k + 1)) (hn : n < 10 ^ (k + 1))
    (h : padded (k + 1) m ++ x = padded (k + 1) n ++ y) : m = n ∧ x = y := by
  have hlen : (padded (k + 1) m).length = (padded (k + 1) n).length := by
    rw [length_padded hm, length_padded hn]
  obtain ⟨hfield, hrest⟩ := List.append_inj h hlen
  exact ⟨padded_inj hfield, hrest⟩

theorem daysIn_le (year month : ℕ) : daysIn year month ≤ 31 := by
  unfold daysIn
  split_ifs <;> decide

theorem padded_ascii (width n : ℕ) : ∀ c ∈ padded width n, c < 128 := fun c hc => by
  have := padded_digits c hc
  omega

theorem text_ascii (civil : Civil) : ∀ c ∈ civil.text, c < 128 := by
  intro c hc
  simp only [Civil.text, Civil.stem, List.mem_append, List.mem_cons, List.not_mem_nil, or_false,
    or_assoc] at hc
  rcases hc with h | rfl | h | rfl | h | rfl | h | rfl | h | rfl | h | rfl
  all_goals first | omega | exact padded_ascii _ _ c h

/-- **An instant is known by its text.** -/
theorem text_inj {c d : Civil} (h : c.text = d.text) : c = d := by
  obtain ⟨year, month, day, hour, minute, second, hc⟩ := c
  obtain ⟨year', month', day', hour', minute', second', hd⟩ := d
  have hday : day ≤ 31 := hc.2.2.1.2.trans (daysIn_le _ _)
  have hday' : day' ≤ 31 := hd.2.2.1.2.trans (daysIn_le _ _)
  have hstem := (List.append_inj_left' h rfl)
  simp only [Civil.stem, List.append_assoc, List.cons_append] at hstem
  obtain ⟨rfl, h1⟩ := padded_append (k := 3) (by omega) (by omega) hstem
  obtain ⟨rfl, h2⟩ := padded_append (k := 1) (by omega) (by omega) (List.cons.inj h1).2
  obtain ⟨rfl, h3⟩ := padded_append (k := 1) (by omega) (by omega) (List.cons.inj h2).2
  obtain ⟨rfl, h4⟩ := padded_append (k := 1) (by omega) (by omega) (List.cons.inj h3).2
  obtain ⟨rfl, h5⟩ := padded_append (k := 1) (by omega) (by omega) (List.cons.inj h4).2
  obtain rfl := padded_inj (List.cons.inj h5).2
  rfl

/-! ## Values -/

/-- No float. -/
def NoFloat (_ : PyFloat) : Prop := False

theorem noFloat_reads {repr : PyFloat → Str} {float : Str → PyFloat} :
    ∀ f, NoFloat f → Json.FloatReads repr float f := fun _ h => h.elim

variable {py : Interpreter}

/-- **A value is known by its canonical bytes**, up to the order of members. -/
theorem arranged_of_canonical {v w : Json} (hv : Json.Plain NoFloat v) (hw : Json.Plain NoFloat w)
    (h : ascii (v.canonical py) = ascii (w.canonical py)) : v.arranged = w.arranged := by
  have hascii : ∀ {v : Json}, Json.Plain NoFloat v → ∀ c ∈ v.canonical py, c < 256 := by
    intro v hv c hc
    rw [Json.canonical, ← Json.dumps_arranged v] at hc
    have := @Json.printable_dumps (fun _ => .nan) _ _ noFloat_reads _
      (Json.floats_of_canonical (Json.canonical_arranged hv)) c hc
    omega
  exact @Json.arranged_of_dumps _ _ (fun _ => .nan) noFloat_reads _ _ hv hw
    (ascii_inj (hascii hv) (hascii hw) h)

/-- The members of a principal's document, arranged. -/
theorem get_principal {kind id : Str} {via : List Plane.EvidencePrincipal} (key : String) :
    Json.get (Json.arrange (principalMembers (.mk kind id via))) key =
      (Json.get (principalMembers (.mk kind id via)) key).map Json.arranged := by
  have hkeys : ((principalMembers (.mk kind id via)).map (·.1)).Nodup := by
    change ([lit "kind", lit "id", lit "via"] : List Str).Nodup
    decide
  exact Json.get_arrange hkeys key

mutual

/-- **A principal is known by its document**, up to the order of members. -/
theorem toDocument_inj : ∀ {p q : Plane.EvidencePrincipal},
    p.toDocument.arranged = q.toDocument.arranged → p = q
  | .mk kind id via, .mk kind' id' via', h => by
    rw [← principalMembers_obj, ← principalMembers_obj, Json.arranged_obj, Json.arranged_obj,
      Json.obj.injEq] at h
    have hget : ∀ key, (Json.get (principalMembers (.mk kind id via)) key).map Json.arranged =
        (Json.get (principalMembers (.mk kind' id' via')) key).map Json.arranged := by
      intro key
      rw [← get_principal, ← get_principal, h]
    have hkind : kind = kind' := Json.str.inj (Option.some.inj (hget "kind"))
    have hid : id = id' := Json.str.inj (Option.some.inj (hget "id"))
    have hvia := Json.arr.inj (Option.some.inj (hget "via"))
    rw [hkind, hid, toDocuments_inj hvia]

theorem toDocuments_inj : ∀ {ps qs : List Plane.EvidencePrincipal},
    Json.arrangedItems (Plane.EvidencePrincipal.toDocument.toDocuments ps) =
      Json.arrangedItems (Plane.EvidencePrincipal.toDocument.toDocuments qs) → ps = qs
  | [], [], _ => rfl
  | [], _ :: _, h => by cases h
  | _ :: _, [], h => by cases h
  | p :: ps, q :: qs, h => by
    obtain ⟨hp, hps⟩ := List.cons.inj h
    rw [toDocument_inj hp, toDocuments_inj hps]

end

/-! ## One preimage, one entry -/

/-- A principal and a body as JSON has them: no float, each key once, no surrogate pair. -/
structure Spelled (e : Plane.EntryFields) : Prop where
  principal : Json.Plain NoFloat e.principal.toDocument
  body : Json.Plain NoFloat (.obj e.body)

/-- What a preimage is taken of: the same scope, sequence, kind, instant to the second,
connection, principal and previous hash, and the same body, whatever the order of its members. -/
structure SameTuple (e f : Plane.EntryFields) : Prop where
  scope : e.scope = f.scope
  sequence : e.sequence = f.sequence
  kind : e.kind = f.kind
  recordedAt : e.recordedAt = f.recordedAt
  connectionId : e.connectionId = f.connectionId
  principal : e.principal = f.principal
  body : Json.arrange e.body = Json.arrange f.body
  previousHash : e.previousHash = f.previousHash

/-- The components of a preimage. -/
theorem preimageOf_some {version scope kind recordedAt connection : Str} {sequence : ℤ}
    {principal body : Json} {previousHash : Option Str} {b : Bytes}
    (h : preimageOf py version scope sequence kind recordedAt connection principal body previousHash =
      some b) :
    ∃ (version' scope' kind' connection' : Bytes) (previous : Option Bytes),
      utf8 version = some version' ∧ utf8 scope = some scope' ∧ utf8 kind = some kind' ∧
      utf8 connection = some connection' ∧
      (∀ hash, previousHash = some hash → utf8 hash = previous) ∧
      previous.isSome = previousHash.isSome ∧
      b = [some version', some scope', some (ascii (intText sequence)), some kind',
        some (ascii recordedAt), some connection', some (ascii (principal.canonical py)),
        some (ascii (body.canonical py)), previous].flatMap component := by
  unfold preimageOf at h
  cases hversion : utf8 version with
  | none => simp [hversion] at h
  | some version' =>
    cases hscope : utf8 scope with
    | none => simp [hversion, hscope] at h
    | some scope' =>
      cases hkind : utf8 kind with
      | none => simp [hversion, hscope, hkind] at h
      | some kind' =>
        cases hconnection : utf8 connection with
        | none => simp [hversion, hscope, hkind, hconnection] at h
        | some connection' =>
          cases previousHash with
          | none =>
            simp only [hversion, hscope, hkind, hconnection, Option.bind_eq_bind, Option.bind_some,
              Option.pure_def, Option.some.injEq] at h
            exact ⟨version', scope', kind', connection', none, rfl, rfl, rfl, rfl, by simp, rfl,
              h.symm⟩
          | some hash =>
            cases hhash : utf8 hash with
            | none => simp [hversion, hscope, hkind, hconnection, hhash] at h
            | some raw =>
              simp only [hversion, hscope, hkind, hconnection, hhash, Option.bind_eq_bind,
                Option.bind_some, Option.map_some, Option.pure_def, Option.some.injEq] at h
              refine ⟨version', scope', kind', connection', some raw, rfl, rfl, rfl, rfl, ?_, rfl,
                h.symm⟩
              rintro _ ⟨⟩
              exact hhash

/-- **Two tuples of one preimage are one tuple.** -/
theorem sameTuple {e f : Plane.EntryFields} {b : Bytes} (he : Spelled e) (hf : Spelled f)
    (hpe : Plane.preimage py e = some b) (hpf : Plane.preimage py f = some b) : SameTuple e f := by
  obtain ⟨text, htext, hpe⟩ := Option.bind_eq_some_iff.1 hpe
  obtain ⟨text', htext', hpf⟩ := Option.bind_eq_some_iff.1 hpf
  obtain ⟨civil, hcivil, rfl⟩ := Option.map_eq_some_iff.1 htext
  obtain ⟨civil', hcivil', rfl⟩ := Option.map_eq_some_iff.1 htext'
  obtain ⟨version, scope, kind, connection, previous, -, hscope, hkind, hconnection, hprevious,
    hnone, hb⟩ := preimageOf_some hpe
  obtain ⟨version', scope', kind', connection', previous', -, hscope', hkind', hconnection',
    hprevious', hnone', hb'⟩ := preimageOf_some hpf
  have hparts := flatMap_component_inj (by rfl) (hb.symm.trans hb')
  simp only [List.cons.injEq, Option.some.injEq, and_true] at hparts
  obtain ⟨-, rfl, hsequence, rfl, hinstant, rfl, hprincipal, hbody, rfl⟩ := hparts
  have hcivils : civil = civil' :=
    text_inj (ascii_inj (fun c hc => (text_ascii civil c hc).trans (by decide))
      (fun c hc => (text_ascii civil' c hc).trans (by decide)) hinstant)
  refine ⟨utf8_inj hscope hscope', ?_, utf8_inj hkind hkind', ?_, utf8_inj hconnection hconnection',
    toDocument_inj (arranged_of_canonical he.principal hf.principal hprincipal), ?_, ?_⟩
  · exact intText_inj (ascii_inj (intText_ascii _) (intText_ascii _) hsequence)
  · have hutc : e.recordedAt.utc = f.recordedAt.utc := by rw [hcivil, hcivil', hcivils]
    exact congrArg Instant.mk hutc
  · have harranged := arranged_of_canonical he.body hf.body hbody
    rwa [Json.arranged_obj, Json.arranged_obj, Json.obj.injEq] at harranged
  · cases hpe : e.previousHash with
    | none =>
      cases hpf : f.previousHash with
      | none => rfl
      | some hash => rw [hnone, hpe, hpf] at hnone'; cases hnone'
    | some hash =>
      cases hpf : f.previousHash with
      | none => rw [hnone, hpe, hpf] at hnone'; cases hnone'
      | some hash' =>
        have hraw := hprevious hash hpe
        have hraw' := hprevious' hash' hpf
        cases previous with
        | none => rw [hpe] at hnone; cases hnone
        | some raw => rw [utf8_inj hraw hraw']

/-! ## One entry, one preimage -/

/-- **The recipe of the contract rebuilds the preimage of an entry from its document.** -/
theorem documentPreimage_entry {e : Plane.EntryFields} {document : Contract.Members}
    (hdoc : Plane.entryToDocument e = some document) (hlaw : ReadsBack py e.recordedAt) :
    Contract.documentPreimage py document = Plane.preimage py e := by
  obtain ⟨text, htext, hdoc⟩ := Option.bind_eq_some_iff.1 hdoc
  have hscope : Json.get document "scope" = some (.str e.scope) := by cases hdoc; rfl
  have hkind : Json.get document "kind" = some (.str e.kind) := by cases hdoc; rfl
  have hrecorded : Json.get document "recorded_at" = some (.str text) := by cases hdoc; rfl
  have hconnection : Json.get document "connection_id" = some (.str e.connectionId) := by
    cases hdoc; rfl
  have hprincipal : Json.get document "principal" = some e.principal.toDocument := by
    cases hdoc; rfl
  have hbody : Json.get document "body" = some (.obj e.body) := by cases hdoc; rfl
  have hsequence : Json.get document "sequence" = some (.int e.sequence) := by cases hdoc; rfl
  have hprevious : Json.get document "previous_hash" = some (.ofOption .str e.previousHash) := by
    cases hdoc; rfl
  have hrendered : Contract.renderInstant py (Json.text py (.str text)) = some text :=
    renderInstant_text hlaw htext
  have hinteger : (Json.toInt py (.int e.sequence)).toOption = some e.sequence := rfl
  unfold Contract.documentPreimage Plane.preimage
  rw [hscope, hkind, hrecorded, hconnection, hprincipal, hbody, hsequence, hprevious, htext]
  simp only [Option.bind_eq_bind, Option.bind_some, hrendered, hinteger,
    principalDocument_toDocument py e.principal]
  cases e.previousHash <;> rfl

/-- **One preimage is one tuple, and one entry has one preimage.** -/
theorem preimage_injective_shared (py : Interpreter) :
    (∀ (e f : Plane.EntryFields) (b : Bytes), Spelled e → Spelled f →
      Plane.preimage py e = some b → Plane.preimage py f = some b → SameTuple e f) ∧
    ∀ (e : Plane.EvidenceEntry) (document : Contract.Members),
      Plane.entryToDocument e.toEntryFields = some document → ReadsBack py e.recordedAt →
        Contract.documentPreimage py document = Plane.preimage py e.toEntryFields :=
  ⟨fun _ _ _ he hf hpe hpf => sameTuple he hf hpe hpf,
    fun _ _ hdoc hlaw => documentPreimage_entry hdoc hlaw⟩

/-- An effect of a capability. -/
def effectOf (capability : Str) : Plane.EntryFields where
  scope := lit "local"
  kind := lit "effect"
  recordedAt := ⟨some ⟨2026, 1, 5, 10, 0, 0, Civil.sample.held⟩⟩
  connectionId := lit "connection:1"
  principal := .mk (lit "user") (lit "1000") []
  body := [(lit "capability", .str capability), (lit "decision_id", .str (lit "decision:1")),
    (lit "outcome", .str (lit "allow")), (lit "decided_at", .str (lit "2026-01-05T10:00:00Z")),
    (lit "policy_version", .str (lit "1"))]
  sequence := 1
  previousHash := none
  entryHash := []
  preimageVersion := preimageVersion

/-- The same effect, its members the other way round. -/
def effectReversed (capability : Str) : Plane.EntryFields :=
  { effectOf capability with body := (effectOf capability).body.reverse }

theorem spelled_sample : Spelled (effectOf (lit "c")) ∧ Spelled (effectReversed (lit "c")) := by
  refine ⟨⟨?_, ?_⟩, ⟨?_, ?_⟩⟩ <;>
    simp +decide [effectOf, effectReversed, Plane.EvidencePrincipal.toDocument,
      Plane.EvidencePrincipal.toDocument.toDocuments, Json.Plain, Json.PlainMembers,
      Json.PlainItems]

theorem preimage_injective_shared_sample :
    SameTuple (effectOf (lit "c")) (effectReversed (lit "c")) ∧
      ∃ document, Plane.entryToDocument Plane.sampleEntry.toEntryFields = some document ∧
        Contract.documentPreimage reference document =
          Plane.preimage reference Plane.sampleEntry.toEntryFields := by
  obtain ⟨hinjective, hshared⟩ := preimage_injective_shared reference
  refine ⟨hinjective _ _ ((Plane.preimage reference (effectOf (lit "c"))).getD [])
    spelled_sample.1 spelled_sample.2 (by decide +kernel) (by decide +kernel), _, rfl,
    hshared Plane.sampleEntry _ rfl ?_⟩
  rintro c ⟨⟩
  decide +kernel

/-- A capability of one character beyond the first plane, and one of the two surrogates it is
written as, have one preimage. -/
theorem preimage_not_injective :
    ∃ b, Plane.preimage reference (effectOf [0x1F600]) = some b ∧
      Plane.preimage reference (effectOf [0xD83D, 0xDE00]) = some b ∧
      ¬SameTuple (effectOf [0x1F600]) (effectOf [0xD83D, 0xDE00]) := by
  refine ⟨(Plane.preimage reference (effectOf [0x1F600])).getD [], by decide +kernel,
    by decide +kernel, fun h => ?_⟩
  have hget := congrArg (fun body => (Json.get body "capability").bind Json.str?) h.body
  revert hget
  decide +kernel

end SayFirst
