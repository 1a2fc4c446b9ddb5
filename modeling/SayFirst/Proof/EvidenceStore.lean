import SayFirst.Lib.Raises
import SayFirst.Lib.Reference
import SayFirst.Lib.Run
import SayFirst.Lib.Triple
import SayFirst.Proof.Recipes
import SayFirst.Spec.EvidenceStore

/-!
# What an evidence chain keeps of its appends

* `store_intact` — wherever the appends of a run stop, what returned is on the chain, and the
  chain is contiguous from its first sequence and verifies as intact.
* `store_declares` — when no append stops between dropping a torn tail and writing its gap, every
  tail that was torn is declared where it stood.
-/

namespace SayFirst.Plane

open Py Evidence

variable {scope : Str} {py : Interpreter}

/-! ## Placing a record -/

theorem EntryFields.construct_ok {e : EntryFields} {e' : EntryOf e.scope} (h : e.construct = .ok e') :
    e'.1.toEntryFields = e := by
  unfold EntryFields.construct at h
  split at h
  · cases h; rfl
  · cases h

theorem EvidenceFields.construct_ok {r : EvidenceFields} {r' : RecordOf r.scope}
    (h : r.construct = .ok r') : r'.1.toEvidenceFields = r := by
  unfold EvidenceFields.construct at h
  split at h
  · cases h; rfl
  · cases h

/-- The entry of a record at a sequence carries the hash it recomputes to. -/
theorem EvidenceRecord.entryAt_ok {r : EvidenceRecord} {n : ℤ} {p : Option Str}
    {e : EntryOf r.scope} (h : r.entryAt py n p = .ok e) :
    e.1.toEvidenceFields = r.toEvidenceFields ∧ e.1.sequence = n ∧ e.1.previousHash = p ∧
      Chain.Sound (entryView py) e.1 := by
  unfold EvidenceRecord.entryAt at h
  simp only at h
  split at h
  · rename_i hash hhash
    have hfields := EntryFields.construct_ok h
    refine ⟨?_, ?_, ?_, ?_, ?_⟩
    · rw [hfields]; rfl
    · rw [hfields]; rfl
    · rw [hfields]; rfl
    · change (e.1.preimageVersion == preimageVersion) = true
      rw [hfields]
      exact beq_self_eq_true _
    · change entryHashOf py e.1.toEntryFields = some e.1.entryHash
      rw [hfields]
      exact hhash
  · cases h

/-- Where a record is placed after an entry. -/
def afterEntry (previous : Option EvidenceEntry) : ℤ × Option Str :=
  match previous with
  | none => (1, none)
  | some p => (p.sequence + 1, some p.entryHash)

theorem EvidenceRecord.place_ok {r : EvidenceRecord} {previous : Option EvidenceEntry}
    {e : EntryOf r.scope} (h : r.place py previous = .ok e) :
    e.1.toEvidenceFields = r.toEvidenceFields ∧ e.1.sequence = (afterEntry previous).1 ∧
      e.1.previousHash = (afterEntry previous).2 ∧ Chain.Sound (entryView py) e.1 := by
  cases previous with
  | none => exact entryAt_ok h
  | some p =>
    unfold EvidenceRecord.place chained chainedAfterBreak at h
    simp only at h
    split at h
    · split at h
      · cases h
      · split at h
        · cases h
        · exact entryAt_ok h
    · split at h
      · cases h
      · exact entryAt_ok h

theorem RecordOf.place_ok {r : RecordOf scope} {previous : Option EvidenceEntry}
    {e : EntryOf scope} (h : RecordOf.place py r previous = .ok e) :
    e.1.toEvidenceFields = r.1.toEvidenceFields ∧ e.1.sequence = (afterEntry previous).1 ∧
      e.1.previousHash = (afterEntry previous).2 ∧ Chain.Sound (entryView py) e.1 := by
  unfold RecordOf.place at h
  cases hplace : r.1.place py previous with
  | error err => rw [hplace] at h; cases h
  | ok e' =>
    rw [hplace] at h
    cases h
    exact EvidenceRecord.place_ok hplace

/-! ## Stretches of a chain -/

/-- An entry the dataclass accepted has a scope. -/
theorem EvidenceEntry.scope_ne (e : EvidenceEntry) : e.scope.isEmpty = false := by
  have hvalid := e.held
  unfold EntryFields.validate EvidenceFields.validate at hvalid
  cases hempty : e.scope.isEmpty with
  | false => rfl
  | true =>
    rw [hempty] at hvalid
    cases hvalid

/-- **A stretch of an intact chain verifies as intact**, whether or not its end is named. -/
theorem verify_unbroken {entries : List EvidenceEntry} {lo : ℤ} {hi : Option ℤ}
    (h : Chain.Unbroken (entryView py) lo entries) (hne : entries ≠ []) (hlo : 1 ≤ lo)
    (hscope : ∀ e ∈ entries, e.scope = scope)
    (hhi : ∀ t, hi = some t → t = lo + entries.length - 1) (grades : List (Str × Str)) :
    verify py entries scope lo hi grades =
      .ok (verdictOf entries scope lo grades
        (report (entryView py) (·.preimageVersion) entries .intact)) := by
  have hnamed : scope.isEmpty = false := by
    obtain ⟨e, rest, rfl⟩ := List.exists_cons_of_ne_nil hne
    rw [← hscope e List.mem_cons_self]
    exact e.scope_ne
  have hordered : outOfOrder (fun e : EvidenceEntry => e.sequence) entries = false :=
    Contract.outOfOrder_false.2 h.rising
  have hscopes : entries.any (fun e => e.scope != scope) = false := by
    rw [List.any_eq_false]
    exact fun e he => by simpa using hscope e he
  have hend : hi.any (· < lo) = false := by
    cases hhi' : hi with
    | none => rfl
    | some t =>
      have ht := hhi t hhi'
      have hlength := List.length_pos_of_ne_nil hne
      simp only [Option.any_some, decide_eq_false_iff_not]
      omega
  unfold verify
  rw [hnamed, hend, hscopes, hordered, h.scan hne hhi]
  simp only [Bool.false_eq_true, if_false]
  rw [if_neg (not_lt.2 hlo)]

/-! ## Intact files -/

namespace ChainFile

/-- Contiguous from the first sequence, linked and sound. -/
structure Intact (py : Interpreter) (c : ChainFile scope) : Prop where
  first : ∀ e, c.entries.head? = some e → e.1.sequence = 1
  follows : c.entries.IsChain fun a b =>
    b.1.sequence = a.1.sequence + 1 ∧ b.1.previousHash = some a.1.entryHash
  sound : ∀ e ∈ c.entries, Chain.Sound (entryView py) e.1

theorem intact_nil {torn : Bool} : (⟨[], torn⟩ : ChainFile scope).Intact py where
  first := fun _ h => by cases h
  follows := .nil
  sound := fun _ h => by cases h

theorem Intact.cut {c : ChainFile scope} (h : c.Intact py) : c.cut.Intact py :=
  ⟨h.first, h.follows, h.sound⟩

theorem Intact.tear {c : ChainFile scope} (h : c.Intact py) : c.tear.Intact py :=
  ⟨h.first, h.follows, h.sound⟩

/-- **The next line**: what is placed after the last entry keeps a file intact. -/
theorem Intact.line {c : ChainFile scope} (h : c.Intact py) {r : RecordOf scope}
    {e : EntryOf scope} (hplace : RecordOf.place py r c.lastEntry = .ok e) :
    (c.line e).Intact py := by
  obtain ⟨-, hsequence, hprevious, hsound⟩ := RecordOf.place_ok hplace
  cases hlast : c.entries.getLast? with
  | none =>
    have hnil : c.entries = [] := List.getLast?_eq_none_iff.1 hlast
    rw [ChainFile.lastEntry, hlast] at hsequence
    refine ⟨fun e' he' => ?_, ?_, fun e' he' => ?_⟩
    · rw [ChainFile.line, hnil] at he'
      cases he'
      exact hsequence
    · rw [ChainFile.line, hnil]
      exact .singleton e
    · rw [ChainFile.line, hnil, List.nil_append, List.mem_singleton] at he'
      rw [he']
      exact hsound
  | some last =>
    rw [ChainFile.lastEntry, hlast] at hsequence hprevious
    obtain ⟨first, hfirst⟩ : ∃ first, c.entries.head? = some first := by
      cases hc : c.entries with
      | nil => rw [hc] at hlast; cases hlast
      | cons a rest => exact ⟨a, rfl⟩
    refine ⟨fun e' he' => ?_, ?_, fun e' he' => ?_⟩
    · rw [ChainFile.line, List.head?_append, hfirst] at he'
      cases he'
      exact h.first _ hfirst
    · refine List.isChain_append.2 ⟨h.follows, .singleton e, fun x hx y hy => ?_⟩
      rw [hlast] at hx
      cases hx
      cases hy
      exact ⟨hsequence, hprevious⟩
    · rcases List.mem_append.1 he' with he' | he'
      · exact h.sound e' he'
      · rw [List.mem_singleton.1 he']
        exact hsound

/-- The sequences of an intact file are contiguous from the first. -/
theorem Intact.sequences {c : ChainFile scope} (h : c.Intact py) :
    c.entries.map (fun e => e.1.sequence) =
      (List.range c.entries.length).map fun (k : ℕ) => (k : ℤ) + 1 := by
  have hcontiguous := @Chain.contiguous_sequences _ (entryView py) (c.entries.map Subtype.val) 1
    (fun e he => by
      rw [List.head?_map] at he
      obtain ⟨e', he', rfl⟩ := Option.map_eq_some_iff.1 he
      exact h.first e' he')
    ((List.isChain_map _).2 (h.follows.imp fun _ _ hab => hab.1))
  rw [List.map_map, List.length_map] at hcontiguous
  refine Eq.trans hcontiguous (List.map_congr_left fun k _ => ?_)
  omega

/-- An intact file is a stretch of an intact chain, from the first sequence on. -/
theorem Intact.unbroken {c : ChainFile scope} (h : c.Intact py) :
    Chain.Unbroken (entryView py) 1 (c.entries.map Subtype.val) where
  begins e he := by
    rw [List.head?_map] at he
    obtain ⟨e', he', rfl⟩ := Option.map_eq_some_iff.1 he
    exact h.first e' he'
  contiguous := (List.isChain_map _).2 (h.follows.imp fun _ _ hab => hab.1)
  sound e he := by
    obtain ⟨e', he', rfl⟩ := List.mem_map.1 he
    exact h.sound e' he'
  linked := (List.isChain_map _).2 (h.follows.imp fun _ _ hab => hab.2)

/-- **An intact file verifies as intact**, over the whole range, whether or not its end is
named. -/
theorem Intact.verifies {c : ChainFile scope} (h : c.Intact py) (hne : c.entries ≠ [])
    {toSequence : Option ℤ} (hto : ∀ t, toSequence = some t → t = c.entries.length)
    (grades : List (Str × Str)) :
    ∃ v, verify py (c.entries.map Subtype.val) scope 1 toSequence grades = .ok v ∧
      v.condition = .intact := by
  have hne' : c.entries.map Subtype.val ≠ [] := fun hnil => hne (List.map_eq_nil_iff.1 hnil)
  refine ⟨_, verify_unbroken h.unbroken hne' le_rfl (fun e he => ?_) (fun t ht => ?_) grades, rfl⟩
  · obtain ⟨e', -, rfl⟩ := List.mem_map.1 he
    exact e'.2
  · rw [hto t ht, List.length_map]
    omega

/-! ## What a call leaves -/

/-- A change, by what it makes of the file: `E` where it stops, `Q` where it goes on. -/
theorem triple_change {part whole : ChainFile scope → ChainFile scope}
    {P Q E : ChainFile scope → Prop}
    (h : ∀ c, P c → Q (whole c) ∧ E c ∧ E (part c) ∧ E (whole c)) :
    Triple (fun d => P d.file) (change part whole) (fun _ d => Q d.file) fun d => E d.file := by
  rintro ⟨c, stops⟩ hc
  obtain ⟨hgoesOn, hbefore, hwithin, hafter⟩ := h c hc
  cases stops with
  | nil => exact hgoesOn
  | cons stop rest =>
    cases stop with
    | goesOn => exact hgoesOn
    | before => exact hbefore
    | within => exact hwithin
    | after => exact hafter

theorem triple_of {α : Type} {x : Except PyError α} {P E : Disk scope → Prop}
    {Q : α → Disk scope → Prop} (hok : ∀ a, x = .ok a → ∀ d, P d → Q a d)
    (herror : ∀ d, P d → E d) : Triple P (Call.of x) Q E := by
  cases x with
  | ok a => exact triple_pure (hok a rfl)
  | error e => exact triple_throw herror

/-- The file is intact and has kept its entries. -/
def Grown (py : Interpreter) (before c : ChainFile scope) : Prop :=
  c.Intact py ∧ before.entries <+: c.entries

theorem write_grown {before : ChainFile scope} {e : EntryOf scope} {torn : Bool} :
    Triple (fun d => Grown py before d.file ∧ d.file.torn = torn ∧ (d.file.line e).Intact py)
      (write py e)
      (fun e' d => Grown py before d.file ∧ d.file.torn = torn ∧ e' = e ∧ e ∈ d.file.entries)
      fun d => Grown py before d.file := by
  refine Triple.bind (triple_of (fun _ _ _ h => h) fun _ h => h.1) fun _ => ?_
  refine Triple.bind (Q := fun _ d => Grown py before d.file ∧ d.file.torn = torn ∧
    e ∈ d.file.entries) ?_ fun _ => triple_pure fun d hd => ⟨hd.1, hd.2.1, rfl, hd.2.2⟩
  refine triple_change (P := fun c => Grown py before c ∧ c.torn = torn ∧ (c.line e).Intact py)
    (Q := fun c => Grown py before c ∧ c.torn = torn ∧ e ∈ c.entries) fun c hc => ?_
  obtain ⟨⟨hintact, hprefix⟩, htorn, hline⟩ := hc
  have hgrown : Grown py before (c.line e) :=
    ⟨hline, hprefix.trans (List.prefix_append c.entries [e])⟩
  exact ⟨⟨hgrown, htorn, List.mem_append_right _ (List.mem_singleton.2 rfl)⟩, ⟨hintact, hprefix⟩,
    ⟨hintact.tear, hprefix⟩, hgrown⟩

theorem put_grown {before : ChainFile scope} {r : RecordOf scope} {torn : Bool} :
    Triple (fun d => Grown py before d.file ∧ d.file.torn = torn) (put py r)
      (fun e d => Grown py before d.file ∧ d.file.torn = torn ∧ e ∈ d.file.entries)
      fun d => Grown py before d.file := by
  refine Triple.bind (Q := fun d₀ d => d = d₀ ∧ Grown py before d.file ∧ d.file.torn = torn)
    (triple_get fun d hd => ⟨rfl, hd⟩) fun d₀ => ?_
  refine Triple.bind (Q := fun e d => Grown py before d.file ∧ d.file.torn = torn ∧
    (d.file.line e).Intact py) (triple_of (fun e he d hd => ?_) fun d hd => hd.2.1) fun e => ?_
  · obtain ⟨rfl, hgrown, htorn⟩ := hd
    exact ⟨hgrown, htorn, hgrown.1.line he⟩
  · exact write_grown.weaken (fun _ h => h) (fun e' d hd => ⟨hd.1, hd.2.1, hd.2.2.1 ▸ hd.2.2.2⟩)
      fun _ h => h

/-- A `torn` gap. -/
def IsTornGap (e : EntryOf scope) : Prop :=
  e.1.kind = lit "gap" ∧ ∃ now : Civil, e.1.body = tornBody now.text

theorem tornGap_ok {now : Option Civil} {previous : Option EvidenceEntry} {e : EntryOf scope}
    (h : tornGap py scope now previous = .ok e) :
    IsTornGap e ∧ ∃ r : RecordOf scope, RecordOf.place py r previous = .ok e := by
  unfold tornGap at h
  cases now with
  | none => cases h
  | some now =>
    obtain ⟨r, hr, hplace⟩ := bind_ok_iff.1 h
    have hfields := EvidenceFields.construct_ok hr
    have hentry := (RecordOf.place_ok hplace).1
    refine ⟨⟨?_, now, ?_⟩, r, hplace⟩
    · rw [hentry, hfields]
    · rw [hentry, hfields]

theorem declareTorn_grown {before : ChainFile scope} {now : Option Civil} {torn : Bool} :
    Triple (fun d => Grown py before d.file ∧ d.file.torn = torn) (declareTorn py now)
      (fun _ d => Grown py before d.file ∧ d.file.torn = torn)
      fun d => Grown py before d.file := by
  refine Triple.bind (Q := fun d₀ d => d = d₀ ∧ Grown py before d.file ∧ d.file.torn = torn)
    (triple_get fun d hd => ⟨rfl, hd⟩) fun d₀ => ?_
  refine Triple.bind (Q := fun e d => Grown py before d.file ∧ d.file.torn = torn ∧
    (d.file.line e).Intact py) (triple_of (fun e he d hd => ?_) fun d hd => hd.2.1) fun e => ?_
  · obtain ⟨rfl, hgrown, htorn⟩ := hd
    obtain ⟨-, r, hplace⟩ := tornGap_ok he
    exact ⟨hgrown, htorn, hgrown.1.line hplace⟩
  · exact Triple.bind write_grown fun _ => triple_pure fun d hd => ⟨hd.1, hd.2.1⟩

theorem recoverTornTail_grown {before : ChainFile scope} :
    Triple (fun d => Grown py before d.file) recoverTornTail
      (fun _ d => Grown py before d.file ∧ d.file.torn = false) fun d => Grown py before d.file := by
  refine Triple.bind (Q := fun d₀ d => d = d₀ ∧ Grown py before d.file)
    (triple_get fun d hd => ⟨rfl, hd⟩) fun d₀ => ?_
  split
  · refine Triple.bind (Q := fun _ d => Grown py before d.file ∧ d.file.torn = false) ?_
      fun _ => triple_pure fun _ hd => hd
    refine (triple_change (P := Grown py before) (Q := fun c => Grown py before c ∧ c.torn = false)
      (E := Grown py before) fun c hc => ?_).weaken (fun d hd => hd.2) (fun _ _ h => h) fun _ h => h
    have hcut : Grown py before c.cut := ⟨hc.1.cut, hc.2⟩
    exact ⟨⟨hcut, rfl⟩, hc, hc, hcut⟩
  · rename_i hwhole
    refine triple_pure fun d hd => ⟨hd.2, ?_⟩
    rw [hd.1]
    simpa using hwhole

/-- **An append, wherever it stops**, leaves an intact file with the entries there were; one that
returns leaves its entry there and nothing torn. -/
theorem append_grown {before : ChainFile scope} {now : Option Civil} {r : RecordOf scope} :
    Triple (fun d => Grown py before d.file) (append py now r)
      (fun e d => Grown py before d.file ∧ d.file.torn = false ∧ e ∈ d.file.entries)
      fun d => Grown py before d.file := by
  refine Triple.bind recoverTornTail_grown fun torn => ?_
  cases torn with
  | false => exact put_grown
  | true => exact Triple.bind declareTorn_grown fun _ => put_grown

/-! ## What is declared -/

/-- The torn bytes still stand behind the entries, or their gap does. -/
def Told (before c : ChainFile scope) : Prop :=
  c.torn = true ∧ c.entries = before.entries ∨
    ∃ gap, IsTornGap gap ∧ (before.line gap).entries <+: c.entries

/-- The bytes behind the last newline are dropped before the call stops. -/
def drops : List Stop → Bool
  | .before :: _ => false
  | .within :: _ => false
  | _ => true

/-- The call stops behind that, and before a byte of their gap is written. -/
def hides : List Stop → Bool
  | .after :: _ => true
  | .goesOn :: .before :: _ => true
  | _ => false

/-- The gap of a torn tail can be built and written. -/
def Declarable (py : Interpreter) (now : Option Civil) (c : ChainFile scope) : Prop :=
  ∃ gap, tornGap py scope now c.lastEntry = .ok gap ∧ fits py gap = .ok ()

theorem write_told {c : ChainFile scope} {gap : EntryOf scope} {rest : List Stop}
    (hline : (c.line gap).Intact py) (hgap : IsTornGap gap) (hfits : fits py gap = .ok ())
    (hrest : rest.head? ≠ some .before) :
    Triple (fun d => d = ⟨c.cut, rest⟩) (write py gap)
      (fun _ d => Grown py (c.line gap) d.file) fun d => Told c d.file := by
  rintro d rfl
  unfold write
  rw [hfits]
  have hgrown : Grown py (c.line gap) ((c.cut).line gap) :=
    ⟨⟨hline.first, hline.follows, hline.sound⟩, List.prefix_rfl⟩
  cases rest with
  | nil => exact hgrown
  | cons stop rest =>
    cases stop with
    | goesOn => exact hgrown
    | before => exact absurd rfl hrest
    | within => exact .inl ⟨rfl, rfl⟩
    | after => exact .inr ⟨gap, hgap, List.prefix_rfl⟩

theorem declareTorn_told {c : ChainFile scope} {now : Option Civil} {rest : List Stop}
    (hc : c.Intact py) (hgap : Declarable py now c) (hrest : rest.head? ≠ some .before) :
    Triple (fun d => d = ⟨c.cut, rest⟩) (declareTorn py now)
      (fun _ d => ∃ gap, IsTornGap gap ∧ Grown py (c.line gap) d.file)
      fun d => Told c d.file := by
  obtain ⟨gap, htorn, hfits⟩ := hgap
  obtain ⟨hgap, r, hplace⟩ := tornGap_ok htorn
  have hwrite := write_told (hc.line hplace) hgap hfits hrest
  refine Triple.bind (Q := fun d₀ d => d₀ = ⟨c.cut, rest⟩ ∧ d = ⟨c.cut, rest⟩)
    (triple_get fun d hd => ⟨hd, hd⟩) fun d₀ => ?_
  intro d hd
  obtain ⟨rfl, rfl⟩ := hd
  have hof : Triple (fun d => d = ⟨c.cut, rest⟩)
      (Call.of (tornGap py scope now c.lastEntry)) (fun e d => e = gap ∧ d = ⟨c.cut, rest⟩)
      fun d => Told c d.file := by
    rw [htorn]
    exact triple_pure fun d hd => ⟨rfl, hd⟩
  refine Triple.bind hof (fun e => ?_) _ rfl
  intro d hd
  obtain ⟨rfl, rfl⟩ := hd
  exact Triple.bind hwrite (fun _ => triple_pure fun d hd => ⟨e, hgap, hd⟩) _ rfl

theorem Grown.told {c c' : ChainFile scope} {gap : EntryOf scope} (hgap : IsTornGap gap)
    (h : Grown py (c.line gap) c') : Told c c' := .inr ⟨gap, hgap, h.2⟩

/-- **An append behind torn bytes** leaves them, or their gap, unless it stops between the two. -/
theorem append_told {c : ChainFile scope} {now : Option Civil} {r : RecordOf scope}
    {stops : List Stop} (hc : c.Intact py) (htorn : c.torn = true)
    (hclean : drops stops = true → hides stops = false ∧ Declarable py now c) :
    Triple (fun d => d = ⟨c, stops⟩) (append py now r) (fun _ d => Told c d.file)
      fun d => Told c d.file := by
  have hput : Triple (fun d => ∃ gap, IsTornGap gap ∧ Grown py (c.line gap) d.file) (put py r)
      (fun _ d => Told c d.file) fun d => Told c d.file := by
    rintro d ⟨gap, hgap, hgrown⟩
    exact (put_grown.weaken (fun _ h => h) (fun _ d hd => hd.1.told hgap)
      fun d hd => hd.told hgap) d ⟨hgrown, rfl⟩
  have hdeclared : ∀ rest : List Stop, rest.head? ≠ some .before → Declarable py now c →
      Triple (fun d => d = ⟨c.cut, rest⟩) (declareTorn py now >>= fun _ => put py r)
        (fun _ d => Told c d.file) fun d => Told c d.file := fun rest hrest hgap =>
    Triple.bind (declareTorn_told hc hgap hrest) fun _ => hput
  rintro d rfl
  have hkept : Told c c := .inl ⟨htorn, rfl⟩
  obtain ⟨entries, torn⟩ := c
  cases htorn
  cases stops with
  | nil => exact hdeclared [] (by simp) (hclean rfl).2 _ rfl
  | cons stop rest =>
    cases stop with
    | goesOn =>
      obtain ⟨hhides, hgap⟩ := hclean rfl
      refine hdeclared rest (fun hbefore => ?_) hgap _ rfl
      obtain ⟨tail, rfl⟩ : ∃ tail, rest = .before :: tail := by
        cases rest with
        | nil => cases hbefore
        | cons stop tail => cases hbefore; exact ⟨tail, rfl⟩
      cases hhides
    | before => exact hkept
    | within => exact hkept
    | after => exact absurd (hclean rfl).1 (by simp [hides])

instance {now : Option Civil} {c : ChainFile scope} : Decidable (Declarable py now c) :=
  match h : tornGap py scope now c.lastEntry with
  | .ok gap =>
    decidable_of_iff (fits py gap = .ok ()) ⟨fun hfits => ⟨gap, h, hfits⟩, fun ⟨_, hgap, hfits⟩ => by
      rw [h] at hgap
      cases hgap
      exact hfits⟩
  | .error _ => .isFalse fun ⟨_, hgap, _⟩ => by rw [h] at hgap; cases hgap

end ChainFile

/-! ## The runs of a store -/

namespace ChainStore

/-- What returned is on an intact chain. -/
def Sound (py : Interpreter) (s : ChainStore scope) : Prop :=
  s.file.Intact py ∧ ∀ e ∈ s.returned, e ∈ s.file.entries

/-- Every tail that was torn stands behind the last entry, or its gap where it stood. -/
def Declared (s : ChainStore scope) : Prop :=
  ∀ n ∈ s.tears, s.file.torn = true ∧ n = s.file.entries.length ∨
    ∃ gap, s.file.entries[n]? = some gap ∧ ChainFile.IsTornGap gap

/-- An append to a torn file that drops the torn bytes does not stop before their gap, and the gap
can be built. -/
def Clean (py : Interpreter) (s : ChainStore scope) : EvidenceCall scope → Prop
  | .append now _ stops => s.file.torn = true → ChainFile.drops stops = true →
      ChainFile.hides stops = false ∧ ChainFile.Declarable py now s.file
  | .restart => True

/-- What an append leaves, whether or not it returned. -/
theorem next_append {s : ChainStore scope} {now : Option Civil} {r : RecordOf scope}
    {stops : List Stop} (h : s.file.Intact py) :
    ∃ file returned, s.next py (.append now r stops) = s.after file returned ∧
      ChainFile.Grown py s.file file ∧ (∀ e ∈ returned, e ∈ file.entries) ∧
      (s.file.torn = true → (ChainFile.drops stops = true →
        ChainFile.hides stops = false ∧ ChainFile.Declarable py now s.file) →
          ChainFile.Told s.file file) := by
  have hgrown := @ChainFile.append_grown scope py s.file now r ⟨s.file, stops⟩ ⟨h, List.prefix_rfl⟩
  have htold := fun htorn hclean => @ChainFile.append_told scope py s.file now r stops h htorn hclean
    ⟨s.file, stops⟩ rfl
  unfold next
  simp only
  cases happend : ChainFile.append py now r ⟨s.file, stops⟩ with
  | ok e d =>
    rw [happend] at hgrown htold
    exact ⟨d.file, some e, rfl, hgrown.1, fun _ he => Option.some.inj he ▸ hgrown.2.2, htold⟩
  | error err d =>
    rw [happend] at hgrown htold
    exact ⟨d.file, none, rfl, hgrown, fun _ he => by (cases he), htold⟩

/-- **The step lemma**, wherever an append stops. -/
theorem Sound.step {s s' : ChainStore scope} {call : EvidenceCall scope} (h : s.Sound py)
    (hstep : ChainStore.step py s call = some s') : s'.Sound py := by
  cases hstep
  cases call with
  | restart => exact h
  | append now r stops =>
    obtain ⟨file, returned, hnext, hgrown, hreturned, -⟩ := @next_append scope py s now r stops h.1
    rw [hnext]
    refine ⟨hgrown.1, fun e he => ?_⟩
    rcases List.mem_append.1 he with he | he
    · exact hgrown.2.subset (h.2 e he)
    · exact hreturned e (Option.mem_toList.1 he)

/-- **The step lemma** of what is declared. -/
theorem Declared.step {s s' : ChainStore scope} {call : EvidenceCall scope} (h : s.Declared)
    (hintact : s.file.Intact py) (hclean : s.Clean py call)
    (hstep : ChainStore.step py s call = some s') : s'.Declared := by
  cases hstep
  cases call with
  | restart => exact h
  | append now r stops =>
    obtain ⟨file, returned, hnext, hgrown, -, htold⟩ :=
      @next_append scope py s now r stops hintact
    rw [hnext]
    have hold : ∀ n ∈ s.tears, file.torn = true ∧ n = file.entries.length ∨
        ∃ gap, file.entries[n]? = some gap ∧ ChainFile.IsTornGap gap := by
      intro n hn
      rcases h n hn with ⟨htorn, hlength⟩ | ⟨gap, hgap, hkind⟩
      · rcases htold htorn (hclean htorn) with ⟨htorn', hentries⟩ | ⟨gap, hkind, hprefix⟩
        · exact .inl ⟨htorn', by rw [hentries, hlength]⟩
        · refine .inr ⟨gap, ?_, hkind⟩
          obtain ⟨rest, hrest⟩ := hprefix
          rw [← hrest, hlength, ChainFile.line, List.append_assoc, List.singleton_append,
            List.getElem?_append_right (Nat.le_refl _), Nat.sub_self]
          rfl
      · refine .inr ⟨gap, ?_, hkind⟩
        obtain ⟨rest, hrest⟩ := hgrown.2
        have hlt := (List.getElem?_eq_some_iff.1 hgap).1
        rw [← hrest, List.getElem?_append_left hlt, hgap]
    intro n hn
    unfold after at hn ⊢
    simp only at hn ⊢
    split at hn
    · rename_i htorn
      rcases List.mem_append.1 hn with hn | hn
      · exact hold n hn
      · exact .inl ⟨htorn, List.mem_singleton.1 hn⟩
    · exact hold n hn

/-- What the chain of a store shows: every entry an append returned, sequences contiguous from the
first, an intact verification of the whole range, and where no torn bytes are left, because an
append returned, the gap of every tail that was torn. -/
structure Safe (py : Interpreter) (s : ChainStore scope) : Prop where
  kept : ∀ e ∈ s.returned, e ∈ s.file.entries
  contiguous : s.file.entries.map (fun e => e.1.sequence) =
    (List.range s.file.entries.length).map fun (k : ℕ) => (k : ℤ) + 1
  verified : s.file.entries ≠ [] → ∀ toSequence : Option ℤ,
    (∀ t, toSequence = some t → t = s.file.entries.length) → ∀ grades, ∃ v,
      verify py (s.file.entries.map Subtype.val) scope 1 toSequence grades = .ok v ∧
        v.condition = .intact
  whole : ∀ now r stops e d, ChainFile.append py now r ⟨s.file, stops⟩ = .ok e d →
    d.file.torn = false
  declared : s.file.torn = false → ∀ n ∈ s.tears,
    ∃ gap, s.file.entries[n]? = some gap ∧ ChainFile.IsTornGap gap

theorem Sound.safe {s : ChainStore scope} (h : s.Sound py) (hdeclared : s.Declared) :
    s.Safe py where
  kept := h.2
  contiguous := h.1.sequences
  verified := fun hne _ hto grades => h.1.verifies hne hto grades
  whole := fun now r stops e d happend =>
    (ChainFile.append_grown.ok (s := ⟨s.file, stops⟩) ⟨h.1, List.prefix_rfl⟩ happend).2.1
  declared := fun hwhole n hn => by
    rcases hdeclared n hn with ⟨htorn, -⟩ | hgap
    · rw [hwhole] at htorn
      cases htorn
    · exact hgap

theorem init_sound : (init scope).Sound py :=
  ⟨ChainFile.intact_nil, fun _ he => by cases he⟩

/-- **What returned stays, on an intact chain**, over every run of appends and restarts. -/
theorem store_intact {calls : List (EvidenceCall scope)} {s : ChainStore scope}
    (h : run (ChainStore.step py) (init scope) calls = some s) : s.Sound py :=
  run_preserves (fun _ _ _ hs hstep => hs.step hstep) init_sound h

end ChainStore

/-- **An evidence chain survives**: after every run of appends in which none stops between
dropping a torn tail and writing its gap. -/
theorem chain_survives {calls : List (EvidenceCall scope)} {s : ChainStore scope}
    (hclean : Meets (ChainStore.step py) (ChainStore.Clean py) (.init scope) calls)
    (h : run (ChainStore.step py) (.init scope) calls = some s) : s.Safe py := by
  have hboth := hclean.preserves (P := fun s => s.Sound py ∧ s.Declared)
    (fun _ _ _ hs hok hstep => ⟨hs.1.step hstep, hs.2.step hs.1.1 hok hstep⟩)
    ⟨ChainStore.init_sound, fun _ hn => by cases hn⟩ h
  exact hboth.1.safe hboth.2

/-! ## A run of each kind -/

/-- A list of components, as the daemon records one. -/
def sampleRecord : RecordOf (lit "local") where
  val := {
    scope := lit "local"
    kind := lit "composition"
    recordedAt := ⟨some ⟨2026, 1, 5, 10, 0, 0, Civil.sample.held⟩⟩
    connectionId := daemonConnection
    principal := recoveryPrincipal
    body := [(lit "providers", .arr [])]
    held := by decide +kernel }
  property := rfl

def sampleNow : Civil := ⟨2026, 1, 5, 10, 0, 0, Civil.sample.held⟩

/-- An append that stops within its line, and the append once more. -/
def tornCalls : List (EvidenceCall (lit "local")) :=
  [.append (some sampleNow) sampleRecord [.within], .restart,
    .append (some sampleNow) sampleRecord []]

theorem chain_survives_torn : ∃ s,
    run (ChainStore.step reference) (.init (lit "local")) tornCalls = some s ∧ s.Safe reference := by
  refine ⟨_, rfl, @chain_survives _ _ tornCalls _ ?_ rfl⟩
  refine Meets.cons rfl (fun h => by cases h) ?_
  refine Meets.cons rfl trivial ?_
  refine Meets.cons rfl (fun _ _ => ⟨rfl, ?_⟩) trivial
  decide +kernel

/-- **A stop behind the cut hides the loss**: of an append torn on an empty chain nothing is left,
and the next one to return stands where its gap belongs. -/
theorem chain_hides : ∃ s,
    run (ChainStore.step reference) (.init (lit "local"))
      [.append (some sampleNow) sampleRecord [.within],
        .append (some sampleNow) sampleRecord [.after],
        .append (some sampleNow) sampleRecord []] = some s ∧
    s.tears = [0] ∧ s.file.torn = false ∧ s.returned.length = 1 ∧
    s.file.entries.all (fun e => e.1.kind != lit "gap") = true := by
  refine ⟨_, rfl, ?_⟩
  decide +kernel

end SayFirst.Plane
