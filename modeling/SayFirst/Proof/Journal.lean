import SayFirst.Lib.JsonRound
import SayFirst.Lib.Pattern
import SayFirst.Lib.Reference
import SayFirst.Lib.Utf8
import SayFirst.Spec.Journal
import SayFirst.Spec.Policy

/-!
# What the recovery journal keeps of its appends

* `journal_faithful` — over every run of calls in which no append is written behind a torn
  line, and none that fails is written whole, the journal reads as the records whose append
  returned.
* `journal_lost` — a record appended behind a torn line leaves a journal that does not read.
-/

namespace SayFirst.Plane

open Py

/-! ## Texts that read back -/

/-- A scope is ASCII. -/
theorem scope_ascii {scope : Str} (h : scopePattern.fullmatch scope = true) :
    ∀ c ∈ scope, c < 128 := by
  intro c hc
  by_contra hbig
  refine Pattern.avoids_fullmatch ?_ h hc
  have hclass : ∀ p : ℕ → Bool, p c = false → (Pattern.cls p).avoids c = true := fun p hp => by
    simp only [Pattern.avoids, hp, Bool.not_false]
  rw [scopePattern, Pattern.avoids, hclass, Pattern.avoids_upTo (hclass _ _)]
  · rfl
  · simp [isUpper, isLower, isDigit]
    omega
  · simp [isUpper, isLower, isDigit]
    omega

/-! ## The lines -/

variable (scope : Str)

/-- The header, its members by key. -/
def headerSorted : List (Str × Json) :=
  [(lit "header", .obj [(lit "scope", .str scope)]), (lit "journal_version", .int 1)]

/-- A record, its members by key. -/
def JournalRecord.sorted (position : ℤ) (r : JournalRecord) : List (Str × Json) :=
  [(lit "epoch_id", .str r.epochId), (lit "from_sequence", .ofOption .int r.fromSequence),
    (lit "journal_version", .int 1), (lit "marker_hash", .ofOption .str r.markerHash),
    (lit "marker_sequence", .ofOption .int r.markerSequence), (lit "position", .int position),
    (lit "record", .str (lit r.record.text)), (lit "scope", .str scope),
    (lit "store_id", .ofOption .str r.storeId)]

variable {scope} {py : Interpreter} {float : Str → PyFloat}

theorem headerLine_eq : headerLine py scope = Json.dumps py.floatRepr (.obj (headerSorted scope)) :=
  rfl

theorem line_eq {position : ℤ} {r : JournalRecord} :
    r.line py scope position = Json.dumps py.floatRepr (.obj (r.sorted scope position)) := rfl

theorem canonical_ofOption_int {o : Option ℤ} : Json.Canonical (.ofOption .int o) := by
  cases o <;> trivial

theorem canonical_ofOption_str {o : Option Str} (h : ∀ s, o = some s → Json.spelled s = true) :
    Json.Canonical (.ofOption .str o) := by
  cases o with
  | none => trivial
  | some s => exact h s rfl

theorem headerSorted_canonical (hscope : Json.spelled scope = true) :
    Json.Canonical (.obj (headerSorted scope)) := by
  refine ⟨⟨by decide, ⟨⟨by decide, hscope, trivial⟩, by simp [Json.KeySorted]⟩, by decide, trivial,
    trivial⟩, ?_⟩
  rw [Json.keySorted_keys]
  change [lit "header", lit "journal_version"].Pairwise _
  decide

theorem record_spelled (kind : JournalKind) : Json.spelled (lit kind.text) = true := by
  cases kind <;> decide

theorem sorted_canonical (hscope : Json.spelled scope = true) {position : ℤ} {r : Appendable} :
    Json.Canonical (.obj (r.toJournalRecord.sorted scope position)) := by
  refine ⟨⟨by decide, r.epoch_spelled, by decide, canonical_ofOption_int, by decide, trivial,
    by decide, canonical_ofOption_str r.hash_spelled, by decide, canonical_ofOption_int, by decide,
    trivial, by decide, record_spelled _, by decide, hscope, by decide,
    canonical_ofOption_str r.store_spelled, trivial⟩, ?_⟩
  rw [Json.keySorted_keys]
  change [lit "epoch_id", lit "from_sequence", lit "journal_version", lit "marker_hash",
    lit "marker_sequence", lit "position", lit "record", lit "scope", lit "store_id"].Pairwise _
  decide

theorem versioned_header (hscope : Json.spelled scope = true) :
    versioned float (headerLine py scope) = some (headerSorted scope) := by
  rw [versioned, headerLine_eq, Json.loads_dumps (headerSorted_canonical hscope)]
  rfl

theorem header_names : headerNames (headerSorted scope) scope = true := by
  change ((some scope : Option Str) == some scope) = true
  simp

theorem versioned_line (hscope : Json.spelled scope = true) {position : ℤ} {r : Appendable} :
    versioned float (r.toJournalRecord.line py scope position) =
      some (r.toJournalRecord.sorted scope position) := by
  rw [versioned, line_eq, Json.loads_dumps (sorted_canonical hscope)]
  rfl

theorem ofText_text (kind : JournalKind) :
    JournalKind.ofText (.str (lit kind.text)) = some kind := by
  cases kind <;> decide

theorem sequenceOf_positive {o : Option ℤ} (h : ∀ n, o = some n → 1 ≤ n) :
    ∃ o' : Option {n : ℤ // 1 ≤ n}, sequenceOf (.ofOption .int o) = some o' ∧ o'.map (·.1) = o := by
  cases o with
  | none => exact ⟨none, rfl, rfl⟩
  | some n =>
    have hn := h n rfl
    exact ⟨some ⟨n, hn⟩, by simp [sequenceOf, Json.ofOption, hn], rfl⟩

theorem str_ofOption {o : Option Str} : (Json.ofOption .str o).str? = o := by
  cases o <;> rfl

/-- The constructor takes the fields of a record for the record. -/
theorem recordOf_eq {r : JournalRecord} {opened marked : Option {n : ℤ // 1 ≤ n}}
    (hopened : opened.map (·.1) = r.fromSequence) (hmarked : marked.map (·.1) = r.markerSequence) :
    recordOf r.record r.epochId r.storeId opened marked r.markerHash = some r := by
  obtain ⟨kind, epochId, storeId, fromSequence, markerSequence, markerHash, hne, hfrom, hwhere⟩ := r
  subst hopened
  subst hmarked
  exact dif_pos ⟨hne, fun h => by simpa using hwhere h⟩

/-- **A record is read back from its document.** -/
theorem readRecord_sorted {position : ℤ} {r : Appendable} :
    readRecord (r.toJournalRecord.sorted scope position) scope position =
      some ⟨scope, position, r.toJournalRecord⟩ := by
  obtain ⟨opened, hopened, hfrom⟩ := sequenceOf_positive r.from_pos
  obtain ⟨marked, hmarked, hmarker⟩ := sequenceOf_positive r.marker_pos
  have hrecord := recordOf_eq hfrom hmarker
  have hstore : (memberOf (r.toJournalRecord.sorted scope position) "store_id").str? = r.storeId :=
    str_ofOption
  have hhash : (memberOf (r.toJournalRecord.sorted scope position) "marker_hash").str? =
      r.markerHash := str_ofOption
  have hkind : JournalKind.ofText (memberOf (r.toJournalRecord.sorted scope position) "record") =
      some r.record := ofText_text r.record
  have hepoch : (memberOf (r.toJournalRecord.sorted scope position) "epoch_id").str? =
      some r.epochId := rfl
  have hscope : (memberOf (r.toJournalRecord.sorted scope position) "scope").str? = some scope := rfl
  have hfromSequence : sequenceOf (memberOf (r.toJournalRecord.sorted scope position)
      "from_sequence") = some opened := hopened
  have hmarkerSequence : sequenceOf (memberOf (r.toJournalRecord.sorted scope position)
      "marker_sequence") = some marked := hmarked
  have hposition : (memberOf (r.toJournalRecord.sorted scope position) "position").eqInt position =
      true := beq_self_eq_true position
  unfold readRecord
  simp only [hkind, hepoch, hfromSequence, hmarkerSequence, hstore, hhash, hrecord, hscope,
    hposition, Option.bind_eq_bind, Option.bind_some, and_self, if_true]

/-! ## The whole file -/

variable (scope) in
/-- The records at their positions. -/
def rowsFrom : ℤ → List JournalRecord → List JournalRow
  | _, [] => []
  | position, r :: rs => ⟨scope, position, r⟩ :: rowsFrom (position + 1) rs

variable (scope py) in
/-- The lines of the records. -/
def linesFrom : ℤ → List Appendable → List Str
  | _, [] => []
  | position, r :: rs => r.toJournalRecord.line py scope position :: linesFrom (position + 1) rs

theorem readRows_linesFrom (hscope : Json.spelled scope = true) :
    ∀ {rs : List Appendable} {position : ℤ},
      readRows float scope position (linesFrom scope py position rs) =
        some (rowsFrom scope position (rs.map (·.toJournalRecord))) := by
  intro rs
  induction rs with
  | nil => intro position; rfl
  | cons r rs ih =>
    intro position
    simp only [linesFrom, readRows, versioned_line hscope, readRecord_sorted, ih,
      Option.bind_eq_bind, Option.bind_some, Option.pure_def, List.map_cons, rowsFrom]

theorem rowsFrom_append {r : JournalRecord} : ∀ {rs : List JournalRecord} {position : ℤ},
    rowsFrom scope position (rs ++ [r]) =
      rowsFrom scope position rs ++ [⟨scope, position + rs.length, r⟩] := by
  intro rs
  induction rs with
  | nil => intro position; simp [rowsFrom]
  | cons r' rs ih =>
    intro position
    rw [List.cons_append, rowsFrom, ih, rowsFrom, List.cons_append, List.length_cons, Nat.cast_add,
      Nat.cast_one, add_comm (rs.length : ℤ) 1, add_assoc]

theorem linesFrom_append {r : Appendable} : ∀ {rs : List Appendable} {position : ℤ},
    linesFrom scope py position (rs ++ [r]) =
      linesFrom scope py position rs ++
        [r.toJournalRecord.line py scope (position + rs.length)] := by
  intro rs
  induction rs with
  | nil => intro position; simp [linesFrom]
  | cons r' rs ih =>
    intro position
    rw [List.cons_append, linesFrom, ih, linesFrom, List.cons_append, List.length_cons,
      Nat.cast_add, Nat.cast_one, add_comm (rs.length : ℤ) 1, add_assoc]

/-- The position of an append is one more than how many records there are. -/
theorem next_position {rs : List JournalRecord} :
    ((rowsFrom scope 1 rs).getLast?.map (·.position)).getD 0 + 1 = 1 + (rs.length : ℤ) := by
  obtain rfl | ⟨rs, r, rfl⟩ := List.eq_nil_or_concat rs
  · rfl
  · rw [List.concat_eq_append, rowsFrom_append]
    simp
    omega

variable (scope py) in
/-- The lines of a journal with a header. -/
def journalLines (rs : List Appendable) : List Str := headerLine py scope :: linesFrom scope py 1 rs

theorem line_printed {v : Json} (h : Json.Canonical v) :
    Json.dumps py.floatRepr v ≠ [] ∧ 10 ∉ Json.dumps py.floatRepr v := by
  obtain ⟨c, t, heq, -⟩ :=
    @Json.dumps_starts (fun _ => .nan) py.floatRepr _ (fun _ hf => hf.elim) v h
  refine ⟨by rw [heq]; simp, fun hmem => ?_⟩
  have := Json.printed_dumps h 10 hmem
  omega

theorem journalLines_printed (hscope : Json.spelled scope = true) {rs : List Appendable} :
    ∀ line ∈ journalLines scope py rs, line ≠ [] ∧ 10 ∉ line := by
  have hlines : ∀ {rs : List Appendable} {position : ℤ},
      ∀ line ∈ linesFrom scope py position rs, line ≠ [] ∧ 10 ∉ line := by
    intro rs
    induction rs with
    | nil => intro position line hline; cases hline
    | cons r rs ih =>
      intro position line hline
      rcases List.mem_cons.1 hline with rfl | hline
      · rw [line_eq]
        exact line_printed (sorted_canonical hscope)
      · exact ih line hline
  intro line hline
  rcases List.mem_cons.1 hline with rfl | hline
  · rw [headerLine_eq]
    exact line_printed (headerSorted_canonical hscope)
  · exact hlines line hline

/-- **A journal reads as its records**, whatever a failed write left behind them. -/
theorem readLocked_lines (hscope : Json.spelled scope = true) {rs : List Appendable} {torn : Str}
    (htorn : 10 ∉ torn) :
    readLocked float scope (terminated (journalLines scope py rs) ++ torn) =
      some (rowsFrom scope 1 (rs.map (·.toJournalRecord))) := by
  rw [readLocked, complete_terminated (journalLines_printed hscope) htorn]
  simp only [journalLines, versioned_header hscope, header_names, readRows_linesFrom hscope,
    Option.bind_eq_bind, Option.bind_some, if_true]

theorem readLocked_torn {torn : Str} (htorn : 10 ∉ torn) : readLocked float scope torn = some [] := by
  have h := @complete_terminated [] _ (by simp) htorn
  rw [readLocked, show torn = terminated [] ++ torn from rfl, h]

/-! ## What an append writes -/

theorem terminated_ne_nil {lines : List Str} (h : lines ≠ []) : terminated lines ≠ [] := by
  rw [terminated_eq h]
  simp

theorem journalLines_append {rs : List Appendable} {r : Appendable} :
    journalLines scope py (rs ++ [r]) =
      journalLines scope py rs ++ [r.toJournalRecord.line py scope (1 + rs.length)] := by
  rw [journalLines, linesFrom_append, journalLines, List.cons_append]

theorem payload_ne_nil {text : Str} {rows : List JournalRow} {r : JournalRecord} :
    payload py scope text rows r ≠ [] := terminated_ne_nil (by simp)

/-- What is appended to the lines of a journal is the line of the next position. -/
theorem payload_lines {rs : List Appendable} {r : Appendable} :
    payload py scope (terminated (journalLines scope py rs))
        (rowsFrom scope 1 (rs.map (·.toJournalRecord))) r.toJournalRecord =
      terminated [r.toJournalRecord.line py scope (1 + rs.length)] := by
  have hne : terminated (journalLines scope py rs) ≠ [] := terminated_ne_nil (by simp [journalLines])
  rw [payload, if_neg hne, next_position, List.length_map]
  rfl

/-- What is appended to an empty file is the header and the line of the first position. -/
theorem payload_nil {r : Appendable} :
    payload py scope [] [] r.toJournalRecord = terminated (journalLines scope py [r]) := by
  rw [payload, if_pos rfl]
  rfl

/-! ## The invariant -/

variable (scope py) in
/-- The file holds the lines of the records whose append returned, and behind them what a write
that failed has left. -/
def Journal.Sound (s : Journal) : Prop :=
  ∃ rs torn, s.returned = rs.map (·.toJournalRecord) ∧ 10 ∉ torn ∧ torn.length ≤ lineBound ∧
    (s.content.getD [] = terminated (journalLines scope py rs) ++ torn ∨
      rs = [] ∧ s.content.getD [] = torn)

variable (py float scope) in
/-- A call that writes nothing behind a torn line, and leaves no line of its own when it fails:
it writes nothing, or begins on a line of its own and returns, or stops within the window that
`recover` reads. -/
def Journal.Clean (s : Journal) : JournalCall → Prop
  | .append r fate =>
    let text := s.content.getD []
    let line := payload py scope text ((readLocked float scope text).getD []) r.toJournalRecord
    fate.written line = [] ∨
      Whole text ∧ (fate.returns = true ∨
        fate.written line ≠ line ∧ tornLength (fate.written line) ≤ lineBound)
  | .restart => True

theorem Journal.clean_works {s : Journal} {r : Appendable} (h : Whole (s.content.getD [])) :
    s.Clean scope py float (.append r .works) := .inr ⟨h, .inl rfl⟩

theorem Journal.clean_short {s : Journal} {r : Appendable} {line : Str} {k : ℕ}
    (hline : payload py scope (s.content.getD [])
      ((readLocked float scope (s.content.getD [])).getD []) r.toJournalRecord = line)
    (h : Whole (s.content.getD []) ∧ line.take k ≠ line ∧ tornLength (line.take k) ≤ lineBound) :
    s.Clean scope py float (.append r (.short k)) := by
  subst hline
  exact .inr ⟨h.1, .inr h.2⟩

theorem tornLength_terminated {lines : List Str} {torn : Str} (htorn : 10 ∉ torn) :
    tornLength (terminated lines ++ torn) = torn.length := by
  by_cases hnil : lines = []
  · subst hnil
    have hall : torn.reverse.takeWhile (· ≠ 10) = torn.reverse := by
      rw [List.takeWhile_eq_self_iff]
      intro c hc
      have : c ≠ 10 := fun h => htorn (h ▸ List.mem_reverse.1 hc)
      simpa using this
    change (torn.reverse.takeWhile (· ≠ 10)).length = _
    rw [hall, List.length_reverse]
  · rw [terminated_eq hnil, List.append_assoc, List.singleton_append, tornLength_append htorn]

theorem Journal.Sound.reads (hscope : Json.spelled scope = true) {s : Journal}
    (h : s.Sound scope py) :
    readLocked float scope (s.content.getD []) = some (rowsFrom scope 1 s.returned) := by
  obtain ⟨rs, torn, hreturned, htorn, -, hcontent | ⟨rfl, hcontent⟩⟩ := h
  · rw [hcontent, readLocked_lines hscope htorn, hreturned]
  · rw [hcontent, readLocked_torn htorn, hreturned]
    rfl

/-- A whole file is the lines of its records, or empty. -/
theorem Journal.Sound.whole {s : Journal} (h : s.Sound scope py)
    (hwhole : Whole (s.content.getD [])) :
    ∃ rs : List Appendable, s.returned = rs.map (·.toJournalRecord) ∧
      (s.content.getD [] = terminated (journalLines scope py rs) ∨
        rs = [] ∧ s.content.getD [] = []) := by
  obtain ⟨rs, torn, hreturned, htorn, -, hcontent⟩ := h
  have hnil : torn = [] := by
    by_contra hne
    rcases hcontent with hcontent | ⟨-, hcontent⟩
    · exact not_whole_torn htorn hne (hcontent ▸ hwhole)
    · have := not_whole_torn (s := []) htorn hne
      rw [List.nil_append, ← hcontent] at this
      exact this hwhole
  subst hnil
  rw [List.append_nil] at hcontent
  exact ⟨rs, hreturned, hcontent⟩

/-- **An append behind a whole file** leaves the lines of the records and the beginning of its
own, or the record. -/
theorem append_written (hscope : Json.spelled scope = true) {rs : List Appendable} {text : Str}
    (htext : text = terminated (journalLines scope py rs) ∨ rs = [] ∧ text = []) {r : Appendable}
    {fate : Fate} {line : Str}
    (hline : line = payload py scope text (rowsFrom scope 1 (rs.map (·.toJournalRecord)))
      r.toJournalRecord) :
    (fate.written line = line →
      text ++ fate.written line = terminated (journalLines scope py (rs ++ [r]))) ∧
    (fate.written line ≠ line → ∃ torn, 10 ∉ torn ∧ torn.length = tornLength (fate.written line) ∧
      (text ++ fate.written line = terminated (journalLines scope py rs) ++ torn ∨
        rs = [] ∧ text ++ fate.written line = torn)) := by
  have hprinted := @journalLines_printed scope py hscope (rs ++ [r])
  have hcut : fate.written line ≠ line →
      ∃ k, fate.written line = line.take k ∧ k < line.length := by
    intro hne
    cases fate with
    | works => exact absurd rfl hne
    | unsynced => exact absurd rfl hne
    | unopened => exact ⟨0, rfl, List.length_pos_iff.2 fun h => hne (h ▸ rfl)⟩
    | unwritten => exact ⟨0, rfl, List.length_pos_iff.2 fun h => hne (h ▸ rfl)⟩
    | short k =>
      refine ⟨k, rfl, ?_⟩
      by_contra hlong
      exact hne (List.take_of_length_le (by omega))
  rcases htext with rfl | ⟨rfl, rfl⟩
  · rw [payload_lines] at hline
    refine ⟨fun hall => ?_, fun hne => ?_⟩
    · rw [hall, hline, ← terminated_append, journalLines_append]
    · obtain ⟨k, hk, hlt⟩ := hcut hne
      rw [hline] at hlt
      obtain ⟨written, rest, torn, hsplit, hrest, htake, htorn⟩ := take_terminated
        (fun l hl => (hprinted l (by rw [journalLines_append]; exact List.mem_append_right _ hl)).2)
        hlt
      -- a line alone is not written before its end
      have hwritten : written = [] := by
        cases written with
        | nil => rfl
        | cons w ws =>
          have := congrArg List.length hsplit
          simp only [List.length_cons, List.length_nil, List.length_append] at this
          exact absurd (List.length_eq_zero_iff.1 (by omega)) hrest
      rw [hk, hline, htake, hwritten]
      exact ⟨torn, htorn, (tornLength_terminated htorn).symm, .inl rfl⟩
  · rw [List.map_nil, rowsFrom, payload_nil] at hline
    rw [List.nil_append] at hprinted
    rw [List.nil_append, List.nil_append]
    refine ⟨fun hall => by rw [hall, hline], fun hne => ?_⟩
    obtain ⟨k, hk, hlt⟩ := hcut hne
    rw [hline] at hlt
    obtain ⟨written, rest, torn, hsplit, hrest, htake, htorn⟩ :=
      take_terminated (fun l hl => (hprinted l hl).2) hlt
    rw [hk, hline, htake]
    refine ⟨torn, htorn, (tornLength_terminated htorn).symm, ?_⟩
    -- nothing of it is written, or the header
    cases written with
    | nil => exact .inr ⟨rfl, rfl⟩
    | cons w ws =>
      have hws : ws = [] := by
        have := congrArg List.length hsplit
        simp only [journalLines, linesFrom, List.length_cons, List.length_nil, List.length_append]
          at this
        have hpos := List.length_pos_iff.2 hrest
        exact List.length_eq_zero_iff.1 (by omega)
      subst hws
      have hw : w = headerLine py scope := (List.cons.inj hsplit).1.symm
      exact .inl (by rw [hw]; rfl)

/-- **The step lemma**: a clean call keeps the journal sound. -/
theorem Journal.Sound.step (hscope : Json.spelled scope = true) {s s' : Journal}
    {call : JournalCall} (h : s.Sound scope py) (hclean : s.Clean scope py float call)
    (hstep : Journal.step py float scope s call = some s') : s'.Sound scope py := by
  cases hstep
  cases call with
  | restart =>
    obtain ⟨rs, torn, hreturned, htorn, hbound, hcontent⟩ := h
    refine ⟨rs, [], hreturned, List.not_mem_nil, Nat.zero_le _, ?_⟩
    have hwindow : torn.length < lineBound + 1 := by omega
    cases hfile : s.content with
    | none =>
      rw [hfile] at hcontent
      rcases hcontent with hcontent | ⟨hrs, -⟩
      · have := (List.append_eq_nil_iff.1 hcontent.symm).1
        exact absurd this (terminated_ne_nil (by simp [journalLines]))
      · exact .inr ⟨hrs, by simp [Journal.next, recover, hfile]⟩
    | some text =>
      rw [hfile, Option.getD_some] at hcontent
      simp only [Journal.next, recover, hfile, Option.map_some, Option.getD_some, List.append_nil]
      rcases hcontent with rfl | ⟨hrs, rfl⟩
      · exact .inl (repaired_terminated htorn hwindow)
      · exact .inr ⟨hrs, repaired_torn htorn⟩
  | append r fate =>
    have hreads := @Journal.Sound.reads scope py float hscope s h
    simp only [Journal.Clean, hreads, Option.getD_some] at hclean
    -- what the call leaves, whether or not the file was there
    have hnext : (s.next py float scope (.append r fate)).content.getD [] = s.content.getD [] ++
          fate.written (payload py scope (s.content.getD []) (rowsFrom scope 1 s.returned)
            r.toJournalRecord) ∧
        (s.next py float scope (.append r fate)).returned =
          if fate.returns then s.returned ++ [r.toJournalRecord] else s.returned := by
      cases fate <;> simp [Journal.next, Plane.append, hreads, Fate.written, Fate.returns]
    obtain ⟨hcontent', hreturned'⟩ := hnext
    rcases hclean with hnone | ⟨hwhole, hfate⟩
    · have hfails : fate.returns = false := by
        cases fate <;> first | rfl | exact absurd hnone payload_ne_nil
      rw [hfails] at hreturned'
      rw [hnone, List.append_nil] at hcontent'
      obtain ⟨rs, torn, hreturned, hrest⟩ := h
      exact ⟨rs, torn, by simpa using hreturned'.trans hreturned, by rwa [hcontent']⟩
    · obtain ⟨rs, hreturned, htext⟩ := h.whole hwhole
      rw [hreturned] at hcontent' hreturned' hfate
      obtain ⟨hall, hpart⟩ := @append_written scope py hscope _ _ htext r fate _ rfl
      rcases hfate with hreturns | ⟨hne, hbound⟩
      · have hworks : fate = .works := by
          cases fate <;> first | rfl | cases hreturns
        subst hworks
        refine ⟨rs ++ [r], [], ?_, List.not_mem_nil, Nat.zero_le _, .inl ?_⟩
        · rw [hreturned', List.map_append]
          rfl
        · rw [hcontent', hall rfl, List.append_nil]
      · have hfails : fate.returns = false := by
          cases fate <;> first | rfl | exact absurd rfl hne
        rw [hfails] at hreturned'
        obtain ⟨torn, htorn, hlength, hcase⟩ := hpart hne
        exact ⟨rs, torn, by simpa using hreturned', htorn, hlength ▸ hbound, by rwa [hcontent']⟩

/-! ## The run -/

variable (py float scope) in
/-- The journal reads as the records whose append returned, and so do its open epochs; and an
append whose writes work returns. -/
def Journal.Faithful (s : Journal) : Prop :=
  records float scope s.content = some (rowsFrom scope 1 s.returned) ∧
  (records float scope s.content).map (fun rows => openEpochs (rows.map (·.record))) =
    some (openEpochs s.returned) ∧
  ∀ r : Appendable, (Plane.append py float scope s.content r.toJournalRecord .works).2 = true

theorem records_getD {content : Option Str} :
    records float scope content = readLocked float scope (content.getD []) := by
  cases content <;> rfl

theorem rowsFrom_records : ∀ {rs : List JournalRecord} {position : ℤ},
    (rowsFrom scope position rs).map (·.record) = rs := by
  intro rs
  induction rs with
  | nil => intro position; rfl
  | cons r rs ih => intro position; rw [rowsFrom, List.map_cons, ih]

theorem Journal.Sound.faithful (hscope : Json.spelled scope = true) {s : Journal}
    (h : s.Sound scope py) : s.Faithful scope py float := by
  have hreads := @Journal.Sound.reads scope py float hscope s h
  refine ⟨records_getD.trans hreads, ?_, fun r => ?_⟩
  · rw [records_getD, hreads, Option.map_some, rowsFrom_records]
  · simp [Plane.append, hreads, Fate.returns]

/-- **The journal keeps what returned**, over every run of clean calls. -/
theorem journal_faithful {scope : Str} (hscope : scopePattern.fullmatch scope = true)
    {calls : List JournalCall} {s : Journal}
    (hclean : Meets (Journal.step py float scope) (Journal.Clean scope py float) .init calls)
    (h : run (Journal.step py float scope) .init calls = some s) : s.Faithful scope py float := by
  have hspelled := spelled_of_ascii (scope_ascii hscope)
  have hinit : Journal.Sound scope py Journal.init :=
    ⟨[], [], rfl, List.not_mem_nil, Nat.zero_le _, .inr ⟨rfl, rfl⟩⟩
  exact (hclean.preserves (fun _ _ _ hs hok ht => hs.step hspelled hok ht) hinit h).faithful
    hspelled

/-! ## A run of each kind -/

/-- The epoch a first start opens. -/
theorem noMarker_pos : ∀ n : ℤ, none = some n → 1 ≤ n := by simp

def firstEpoch : Appendable where
  record := .epochOpen
  epochId := lit "epoch:1"
  storeId := some (lit "store-1")
  fromSequence := some 1
  markerSequence := none
  markerHash := none
  epoch_ne := by decide
  from_pos := by simp
  opened := by simp
  epoch_spelled := by decide
  store_spelled := by simp; decide
  hash_spelled := by simp
  marker_pos := noMarker_pos

/-- An append that stops in its line, the next start, and the append once more. -/
def repairedCalls : List JournalCall :=
  [.append firstEpoch .works, .append firstEpoch (.short 5), .restart, .append firstEpoch .works]

theorem journal_faithful_repaired : ∃ s,
    run (Journal.step reference (fun _ => .nan) (lit "main")) .init repairedCalls = some s ∧
    s.Faithful (lit "main") reference (fun _ => .nan) := by
  refine ⟨_, rfl, @journal_faithful _ _ _ (by decide) repairedCalls _ ?_ rfl⟩
  refine Meets.cons rfl (Journal.clean_works (by decide +kernel)) ?_
  refine Meets.cons rfl (Journal.clean_short rfl (by decide +kernel)) ?_
  refine Meets.cons rfl trivial ?_
  exact Meets.cons rfl (Journal.clean_works (by decide +kernel)) trivial

/-- **An append that stops in its line, and one behind it**: the journal does not read, and no
later append returns. -/
theorem journal_lost : ∃ s,
    run (Journal.step reference (fun _ => .nan) (lit "main")) .init
      [.append firstEpoch .works, .append firstEpoch (.short 1), .append firstEpoch .works] =
        some s ∧
    s.returned.length = 2 ∧ records (fun _ => .nan) (lit "main") s.content = none ∧
    ∀ r fate, (append reference (fun _ => .nan) (lit "main") s.content r fate).2 = false := by
  have hlost : ∃ s,
      run (Journal.step reference (fun _ => .nan) (lit "main")) .init
        [.append firstEpoch .works, .append firstEpoch (.short 1), .append firstEpoch .works] =
          some s ∧
      s.returned.length = 2 ∧ records (fun _ => .nan) (lit "main") s.content = none :=
    ⟨_, rfl, by decide +kernel⟩
  obtain ⟨s, hrun, hreturned, hrecords⟩ := hlost
  refine ⟨s, hrun, hreturned, hrecords, fun r fate => ?_⟩
  rw [records_getD] at hrecords
  cases fate <;> simp [append, hrecords]

end SayFirst.Plane
