import SayFirst.Proof.EntryDocument
import SayFirst.Proof.Recipes
import SayFirst.Spec.EvidenceFile

/-!
# The last entry of a chain file

* `splitLines_terminated` — a forward read finds the complete lines.
* `scanBack_terminated` — a backward read finds the last one, when it is within reach.
* `latest_sequence_iff` — when both answer, and answer alike.
-/

namespace SayFirst.Plane.EvidenceFile

open Py Evidence

variable {py : Interpreter} {float : Str → PyFloat} {fromIso : FromIso} {lines : List Str}
  {torn : Str}

/-- A line of text: no newline and no carriage return. -/
def Plain (line : Str) : Prop := ∀ c ∈ line, c ≠ 10 ∧ c ≠ 13

theorem Plain.newline_notMem {line : Str} (h : Plain line) : 10 ∉ line := fun hmem => (h 10 hmem).1 rfl

/-! ## Reading forward -/

theorem splitLines_line : ∀ {line : Str} (before rest : Str), Plain line →
    splitLines before (line ++ 10 :: rest) = (before ++ line) :: splitLines [] rest := by
  intro line
  induction line with
  | nil =>
    intro before rest _
    simp [splitLines]
  | cons c line ih =>
    intro before rest h
    obtain ⟨h10, h13⟩ := h c List.mem_cons_self
    rw [List.cons_append, splitLines, ih _ _ fun d hd => h d (List.mem_cons_of_mem _ hd)]
    · simp
    · exact h10
    · exact fun _ hc => absurd hc h13
    · exact h13

theorem splitLines_torn : ∀ {torn : Str} (before : Str), Plain torn →
    splitLines before torn = if before ++ torn = [] then [] else [before ++ torn] := by
  intro torn
  induction torn with
  | nil =>
    intro before _
    cases before <;> simp [splitLines]
  | cons c torn ih =>
    intro before h
    obtain ⟨h10, h13⟩ := h c List.mem_cons_self
    rw [splitLines, ih _ fun d hd => h d (List.mem_cons_of_mem _ hd)]
    · simp
    · exact h10
    · exact fun _ hc => absurd hc h13
    · exact h13

/-- **A forward read finds the complete lines**, and what stands behind them. -/
theorem splitLines_terminated (hlines : ∀ line ∈ lines, Plain line) (htorn : Plain torn) :
    splitLines [] (terminated lines ++ torn) = lines ++ if torn = [] then [] else [torn] := by
  induction lines with
  | nil => exact splitLines_torn [] htorn
  | cons line lines ih =>
    have hsplit : terminated (line :: lines) ++ torn = line ++ 10 :: (terminated lines ++ torn) := by
      simp [terminated]
    rw [hsplit, splitLines_line [] _ (hlines line List.mem_cons_self),
      ih fun l hl => hlines l (List.mem_cons_of_mem _ hl)]
    rfl

/-! ## Reading backward -/

/-- A file that ends, but for a torn line, with a line. -/
theorem terminated_snoc (front : List Str) (last torn : Str) :
    terminated (front ++ [last]) ++ torn = (terminated front ++ last) ++ 10 :: torn := by
  rw [terminated_append, terminated_singleton]
  simp

theorem afterLast_line {before line : Str} (h : 10 ∉ line) : afterLast (before ++ 10 :: line) = line := by
  rw [afterLast, List.reverse_append, List.reverse_cons, List.append_assoc, List.singleton_append,
    takeWhile_torn h, List.reverse_reverse]

theorem afterLast_self {line : Str} (h : 10 ∉ line) : afterLast line = line := by
  rw [afterLast, List.takeWhile_eq_self_iff.2, List.reverse_reverse]
  intro c hc
  have : c ≠ 10 := fun hc' => h (hc' ▸ List.mem_reverse.1 hc)
  simpa using this

/-- A text of lines ends with a newline. -/
theorem terminated_ends (h : lines ≠ []) : ∃ before, terminated lines = before ++ [10] :=
  ⟨_, terminated_eq h⟩

/-- An amount at the end of a file reaches the last line. -/
def Reached (raw last torn : Str) (amount : ℕ) : Prop :=
  amount = raw.length ∨ last.length + torn.length + 2 ≤ amount

instance {raw last torn : Str} {amount : ℕ} : Decidable (Reached raw last torn amount) :=
  inferInstanceAs (Decidable (_ ∨ _))

/-- What one turn finds in what is complete of its amount. -/
def found (all : Bool) (complete : Str) : Option Str :=
  if !complete.isEmpty && (all || complete.contains 10) then some (afterLast complete) else none

/-- What one turn finds. -/
def turn (raw : Str) (amount : ℕ) : Option Str :=
  found (raw.length == amount) (beforeLast (raw.drop (raw.length - amount)))

theorem scanBack_turn (raw : Str) (amount : ℕ) :
    scanBack raw amount =
      (turn raw amount).or (if 0 < amount ∧ amount < min raw.length tailBound then
        scanBack raw (min (min raw.length tailBound) (amount * 2)) else none) := by
  rw [scanBack, turn, found]
  split
  · rfl
  · simp only [Option.none_or, dite_eq_ite]

/-- **One turn finds the last line exactly when its amount reaches it.** -/
theorem turn_eq {raw last : Str} {front : List Str} {amount : ℕ}
    (hraw : raw = terminated front ++ last ++ 10 :: torn) (hlast : 10 ∉ last) (hne : last ≠ [])
    (htorn : 10 ∉ torn) (hle : amount ≤ raw.length) :
    turn raw amount = if Reached raw last torn amount then some last else none := by
  have hlength : raw.length = (terminated front).length + last.length + 1 + torn.length := by
    simp only [hraw, List.length_append, List.length_cons]
    omega
  unfold turn
  by_cases hbehind : (terminated front ++ last).length < raw.length - amount
  · -- the amount ends behind the newline of the last line
    have hnone : 10 ∉ raw.drop (raw.length - amount) := by
      obtain ⟨k, hk⟩ : ∃ k, raw.length - amount = (terminated front ++ last ++ [10]).length + k :=
        ⟨raw.length - amount - (terminated front ++ last ++ [10]).length, by
          simp only [List.length_append, List.length_singleton] at hbehind ⊢
          omega⟩
      have hsplit : raw = (terminated front ++ last ++ [10]) ++ torn := by simp [hraw]
      rw [hk, hsplit, List.drop_length_add_append]
      exact fun hmem => htorn (List.mem_of_mem_drop hmem)
    have hshort : ¬Reached raw last torn amount := by
      rw [List.length_append] at hbehind
      rintro (heq | hreach) <;> omega
    rw [beforeLast_torn hnone, if_neg hshort]
    rfl
  · have hdrop : raw.drop (raw.length - amount) =
        (terminated front ++ last).drop (raw.length - amount) ++ 10 :: torn := by
      rw [hraw] at hbehind ⊢
      exact List.drop_append_of_le_length (by omega)
    rw [hdrop, beforeLast_append htorn]
    by_cases hfront : raw.length - amount < (terminated front).length
    · -- the amount holds the newline before the last line
      have hnonempty : front ≠ [] := fun hnil => by
        rw [hnil] at hfront
        exact absurd hfront (Nat.not_lt_zero _)
      obtain ⟨before, hbefore⟩ := terminated_ends hnonempty
      have hends := congrArg List.length hbefore
      rw [List.length_append, List.length_singleton] at hends
      have hcomplete : (terminated front ++ last).drop (raw.length - amount) =
          before.drop (raw.length - amount) ++ 10 :: last := by
        rw [hbefore, List.append_assoc, List.singleton_append,
          List.drop_append_of_le_length (by omega)]
      have hreach : Reached raw last torn amount := by
        refine .inr ?_
        omega
      rw [hcomplete, if_pos hreach, found, afterLast_line hlast, if_pos (by simp)]
    · have hcomplete : (terminated front ++ last).drop (raw.length - amount) =
          last.drop (raw.length - amount - (terminated front).length) := by
        rw [List.drop_append, List.drop_eq_nil_of_le (by omega), List.nil_append]
      rw [hcomplete]
      by_cases hall : amount = raw.length
      · have hdropped : last.drop (raw.length - amount - (terminated front).length) = last := by
          rw [hall, Nat.sub_self, Nat.zero_sub, List.drop_zero]
        have hreach : Reached raw last torn amount := .inl hall
        rw [hdropped, if_pos hreach, found, afterLast_self hlast, if_pos (by simp [hne, hall])]
      · have hnewline : 10 ∉ last.drop (raw.length - amount - (terminated front).length) :=
          fun hmem => hlast (List.mem_of_mem_drop hmem)
        have hshort : ¬Reached raw last torn amount := by
          rintro (heq | hreach)
          · exact hall heq
          · omega
        rw [if_neg hshort, found, if_neg]
        simp [hnewline, Ne.symm hall]

/-- **A backward read finds the last line exactly when its bound reaches it.** -/
theorem scanBack_eq {raw last : Str} {front : List Str}
    (hraw : raw = terminated front ++ last ++ 10 :: torn) (hlast : 10 ∉ last) (hne : last ≠ [])
    (htorn : 10 ∉ torn) {amount : ℕ} (hpos : 0 < amount) (hle : amount ≤ min raw.length tailBound) :
    scanBack raw amount =
      if Reached raw last torn (min raw.length tailBound) then some last else none := by
  induction hgap : min raw.length tailBound - amount using Nat.strong_induction_on
    generalizing amount with
  | _ gap ih =>
    have hturn : turn raw amount = if Reached raw last torn amount then some last else none :=
      turn_eq hraw hlast hne htorn (hle.trans (min_le_left _ _))
    rw [scanBack_turn, hturn]
    by_cases hreached : Reached raw last torn amount
    · have hbound : Reached raw last torn (min raw.length tailBound) := by
        rcases hreached with heq | hreach
        · exact .inl (le_antisymm (min_le_left _ _) (heq ▸ hle))
        · exact .inr (hreach.trans hle)
      rw [if_pos hreached, if_pos hbound]
      rfl
    · rw [if_neg hreached, Option.none_or]
      by_cases hmore : amount < min raw.length tailBound
      · rw [if_pos ⟨hpos, hmore⟩]
        exact ih _ (by omega) (by omega) (min_le_left _ _) rfl
      · have hend : amount = min raw.length tailBound := le_antisymm hle (by omega)
        rw [if_neg (fun h => hmore h.2), if_neg (hend ▸ hreached)]

/-- A file without a complete line has no last line. -/
theorem scanBack_torn (htorn : 10 ∉ torn) (amount : ℕ) : scanBack torn amount = none := by
  induction hgap : min torn.length tailBound - amount using Nat.strong_induction_on
    generalizing amount with
  | _ gap ih =>
    have hturn : turn torn amount = none := by
      unfold turn
      rw [beforeLast_torn fun hmem => htorn (List.mem_of_mem_drop hmem)]
      rfl
    rw [scanBack_turn, hturn, Option.none_or]
    split
    · exact ih _ (by omega) _ rfl
    · rfl

/-! ## Files of entries -/

variable (py float) in
/-- The line an entry is stored as: it fits, and its floats are read back. -/
structure Stored (e : EvidenceEntry) (line : Str) : Prop where
  written : ∃ document, entryToDocument e.toEntryFields = some document ∧
    line = Json.canonical py (.obj document)
  fits : line.length + 1 ≤ entryBound
  floats : Json.Floats (Json.FloatReads py.floatRepr float) (.obj e.body)

variable (py float) in
/-- The file of a chain entries were appended to, the last of which may be torn at any byte. -/
def Appended : Option Str → Prop
  | none => True
  | some raw => ∃ lines torn, raw = terminated lines ++ torn ∧
      (∀ line ∈ lines, ∃ e, Stored py float e line) ∧
      (torn = [] ∨ ∃ e line, Stored py float e line ∧ torn <+: line)

variable (py float fromIso) in
/-- `latest_sequence` answers, and answers the sequence of the last entry of the full read. -/
def Agrees (scope : Str) (file : Option Str) : Prop :=
  ∃ latest entries, latestSequence py float fromIso scope file = .ok latest ∧
    readRange py float fromIso scope file 1 none = .ok entries ∧
    latest = entries.getLast?.map (·.entry.sequence)

variable (py float fromIso) in
/-- Every complete line of a file is read as an entry. -/
def LinesRead (raw : Str) : Prop :=
  ∀ line ∈ completeLines raw, ∃ e, readLine py float fromIso line = .ok e

/-- A file is empty, or the bound of the backward read reaches its last complete line. -/
def LastReached (raw : Str) : Prop :=
  raw = [] ∨ ∃ last, (completeLines raw).getLast? = some last ∧
    (raw.length ≤ tailBound ∨ last.length + tornLength raw + 2 ≤ tailBound)

mutual

theorem floats_principal {F : PyFloat → Prop} : ∀ p : EvidencePrincipal, Json.Floats F p.toDocument
  | .mk _ _ via => by
    rw [EvidencePrincipal.toDocument]
    exact ⟨trivial, trivial, floats_principals via, trivial⟩

theorem floats_principals {F : PyFloat → Prop} : ∀ ps : List EvidencePrincipal,
    Json.FloatsItems F (EvidencePrincipal.toDocument.toDocuments ps)
  | [] => trivial
  | p :: ps => by
    rw [EvidencePrincipal.toDocument.toDocuments]
    exact ⟨floats_principal p, floats_principals ps⟩

end

/-- A stored line is text, and is not empty. -/
theorem Stored.plain {e : EvidenceEntry} {line : Str} (h : Stored py float e line) :
    Plain line ∧ line ≠ [] := by
  obtain ⟨document, hdoc, rfl⟩ := h.written
  obtain ⟨text, -, hdoc⟩ := Option.bind_eq_some_iff.1 hdoc
  have hprevious : Json.Floats (Json.FloatReads py.floatRepr float)
      (.ofOption .str e.previousHash) := by
    cases e.previousHash <;> trivial
  have hfloats : Json.Floats (Json.FloatReads py.floatRepr float) (.obj document) := by
    cases hdoc
    exact ⟨trivial, trivial, trivial, trivial, floats_principal e.principal, h.floats, trivial,
      hprevious, trivial, trivial, trivial⟩
  constructor
  · intro c hc
    have := Json.printable_dumps (fun _ h => h) hfloats c hc
    omega
  · rw [Json.canonical, Json.dumps]
    exact List.cons_ne_nil _ _

/-- What a file of entries holds. -/
theorem Appended.split {raw : Str} (h : Appended py float (some raw)) :
    ∃ lines torn, raw = terminated lines ++ torn ∧ (∀ line ∈ lines, Plain line ∧ line ≠ []) ∧
      Plain torn := by
  obtain ⟨lines, torn, hraw, hlines, htorn⟩ := h
  refine ⟨lines, torn, hraw, fun line hline => ?_, fun c hc => ?_⟩
  · obtain ⟨e, he⟩ := hlines line hline
    exact he.plain
  · rcases htorn with rfl | ⟨e, line, he, hprefix⟩
    · cases hc
    · exact he.plain.1 c (List.IsPrefix.subset hprefix hc)

/-! ## Both reads -/

section

variable (hlines : ∀ line ∈ lines, Plain line ∧ line ≠ []) (htorn : Plain torn)

include hlines htorn

theorem completeLines_file : completeLines (terminated lines ++ torn) = lines :=
  complete_terminated (fun line hline => ⟨(hlines line hline).2,
    (hlines line hline).1.newline_notMem⟩) htorn.newline_notMem

/-- The lines of a full read. -/
theorem forward_lines :
    (if (terminated lines ++ torn).getLast? = some 10 then splitLines [] (terminated lines ++ torn)
      else (splitLines [] (terminated lines ++ torn)).dropLast) = lines := by
  rw [splitLines_terminated (fun line hline => (hlines line hline).1) htorn]
  by_cases hwhole : torn = []
  · subst hwhole
    rw [if_pos rfl, List.append_nil, List.append_nil]
    by_cases hnil : lines = []
    · subst hnil
      rfl
    · obtain ⟨before, hbefore⟩ := terminated_ends hnil
      rw [hbefore, if_pos (by simp)]
  · have hlast : (terminated lines ++ torn).getLast? ≠ some 10 := by
      rw [List.getLast?_append_of_ne_nil _ hwhole]
      exact fun h => htorn.newline_notMem (List.mem_of_getLast? h)
    rw [if_neg hlast, if_neg hwhole, List.dropLast_concat]

/-- **A full read from the first sequence answers every line.** -/
theorem readRange_file {scope : Str} (hscope : scopePattern.fullmatch scope = true) :
    readRange py float fromIso scope (some (terminated lines ++ torn)) 1 none =
      lines.mapM (readLine py float fromIso) := by
  have hvalid : validateRange scope 1 none = .ok () := by
    unfold validateRange validateScope require
    rw [hscope]
    rfl
  have hkept : ∀ entries : List TimedEntry, (entries.filter fun e =>
      decide (1 ≤ e.entry.sequence) && (none : Option ℤ).all fun t => decide (e.entry.sequence ≤ t)) =
      entries := by
    intro entries
    refine List.filter_eq_self.2 fun e _ => ?_
    simp [e.entry.sequence_pos]
  unfold readRange
  rw [hvalid]
  simp only [bind, Except.bind]
  rw [forward_lines hlines htorn]
  cases lines.mapM (readLine py float fromIso) with
  | error e => rfl
  | ok entries => exact congrArg Except.ok (hkept entries)

end

/-- **A backward read answers the last line, where its bound reaches it.** -/
theorem lastEntry_line {raw last : Str} {front : List Str}
    (hraw : raw = terminated front ++ last ++ 10 :: torn) (hlast : Plain last ∧ last ≠ [])
    (htorn : Plain torn) :
    lastEntry py float fromIso raw =
      if Reached raw last torn (min raw.length tailBound) then
        (readLine py float fromIso last).map some
      else .error (.valueError "stored evidence entry exceeds the bounded tail") := by
  have hne : raw ≠ [] := by
    rw [hraw]
    simp
  have hpos : 0 < raw.length := List.length_pos_iff.2 hne
  have hbound : 4096 ≤ tailBound := by decide
  unfold lastEntry
  rw [if_neg hne, scanBack_eq hraw hlast.1.newline_notMem hlast.2 htorn.newline_notMem (by omega)
    (by omega)]
  by_cases hreached : Reached raw last torn (min raw.length tailBound)
  · rw [if_pos hreached, if_pos hreached]
  · rw [if_neg hreached, if_neg hreached]

theorem lastEntry_torn (htorn : Plain torn) (hne : torn ≠ []) :
    lastEntry py float fromIso torn =
      .error (.valueError "stored evidence entry exceeds the bounded tail") := by
  unfold lastEntry
  rw [if_neg hne, scanBack_torn htorn.newline_notMem]

theorem latestSequence_file {scope raw : Str} (hscope : scopePattern.fullmatch scope = true) :
    latestSequence py float fromIso scope (some raw) =
      (lastEntry py float fromIso raw).map fun last => last.map (·.entry.sequence) := by
  unfold latestSequence validateScope require
  rw [if_pos hscope]
  simp only [bind, Except.bind]
  cases lastEntry py float fromIso raw <;> rfl

/-- Every line is read, exactly when each is. -/
theorem readLines_iff : (∃ entries, lines.mapM (readLine py float fromIso) = .ok entries) ↔
    ∀ line ∈ lines, ∃ e, readLine py float fromIso line = .ok e := by
  simp only [Contract.mapM_ok]
  constructor
  · rintro ⟨entries, h⟩ line hline
    exact forall₂_left h line hline
  · intro h
    induction lines with
    | nil => exact ⟨[], .nil⟩
    | cons line lines ih =>
      obtain ⟨e, he⟩ := h line List.mem_cons_self
      obtain ⟨entries, hentries⟩ := ih fun l hl => h l (List.mem_cons_of_mem _ hl)
      exact ⟨e :: entries, .cons he hentries⟩

/-- The last entry of a full read is what the last line is read as. -/
theorem readLines_last {front : List Str} {last : Str} {entries : List TimedEntry}
    (h : (front ++ [last]).mapM (readLine py float fromIso) = .ok entries) :
    ∃ e, readLine py float fromIso last = .ok e ∧ entries.getLast? = some e := by
  rw [List.mapM_append] at h
  obtain ⟨before, -, h⟩ := bind_ok_iff.1 h
  obtain ⟨ends, hends, h⟩ := bind_ok_iff.1 h
  cases h
  rw [List.mapM_cons] at hends
  obtain ⟨e, he, hends⟩ := bind_ok_iff.1 hends
  cases hends
  exact ⟨e, he, by simp⟩

/-- The bound of a backward read reaches the last line. -/
theorem lastReached_iff {raw last : Str} {front : List Str}
    (hraw : raw = terminated front ++ last ++ 10 :: torn) (htorn : 10 ∉ torn)
    (hcomplete : completeLines raw = front ++ [last]) :
    LastReached raw ↔ Reached raw last torn (min raw.length tailBound) := by
  have hne : raw ≠ [] := by
    rw [hraw]
    simp
  have hlength : tornLength raw = torn.length := by
    rw [hraw, tornLength_append htorn]
  unfold LastReached Reached
  rw [hcomplete, hlength, List.getLast?_concat]
  constructor
  · rintro (hnil | ⟨_, ⟨⟩, hreach⟩)
    · exact absurd hnil hne
    · omega
  · intro hreach
    exact .inr ⟨last, rfl, by omega⟩

/-- **`latest_sequence` answers as the full read does exactly when every line is read and the last
one is within reach.** -/
theorem agrees_iff {scope raw : Str} (hscope : scopePattern.fullmatch scope = true)
    (happended : Appended py float (some raw)) :
    Agrees py float fromIso scope (some raw) ↔
      LinesRead py float fromIso raw ∧ LastReached raw := by
  obtain ⟨lines, torn, hraw, hlines, htorn⟩ := happended.split
  have hcomplete : completeLines raw = lines := by
    rw [hraw]
    exact completeLines_file hlines htorn
  have hrange : readRange py float fromIso scope (some raw) 1 none =
      lines.mapM (readLine py float fromIso) := by
    rw [hraw]
    exact readRange_file hlines htorn hscope
  unfold Agrees LinesRead
  rw [hrange, latestSequence_file hscope, hcomplete]
  rcases List.eq_nil_or_concat' lines with rfl | ⟨front, last, rfl⟩
  · -- no complete line
    obtain rfl : raw = torn := hraw
    by_cases hnil : raw = []
    · subst hnil
      exact iff_of_true ⟨none, [], rfl, rfl, rfl⟩ ⟨fun _ h => (by cases h), .inl rfl⟩
    · rw [lastEntry_torn htorn hnil]
      refine iff_of_false ?_ ?_
      · rintro ⟨latest, entries, h, -⟩
        cases h
      · rintro ⟨-, h | ⟨last, h, -⟩⟩
        · exact hnil h
        · rw [hcomplete] at h
          cases h
  · rw [terminated_snoc] at hraw
    rw [lastEntry_line hraw (hlines last (by simp)) htorn,
      lastReached_iff hraw htorn.newline_notMem hcomplete, ← readLines_iff]
    by_cases hreached : Reached raw last torn (min raw.length tailBound)
    · rw [if_pos hreached]
      constructor
      · rintro ⟨latest, entries, -, hentries, -⟩
        exact ⟨⟨entries, hentries⟩, hreached⟩
      · rintro ⟨⟨entries, hentries⟩, -⟩
        obtain ⟨e, he, hlast⟩ := readLines_last hentries
        refine ⟨some e.entry.sequence, entries, ?_, hentries, ?_⟩
        · rw [he]
          rfl
        · rw [hlast]
          rfl
    · rw [if_neg hreached]
      refine iff_of_false ?_ fun h => hreached h.2
      rintro ⟨latest, entries, h, -⟩
      cases h

/-- The line of a placed entry whose principal and body are JSON is read. -/
theorem readLine_placed {r : EvidenceRecord} {microsecond : Fin 1000000} {e : EntryOf r.scope}
    {line : Str} (hplaced : Placed py r e) (hlaw : IsoReads fromIso ⟨r.recordedAt, microsecond⟩)
    (hyears : ∀ c, r.recordedAt.utc = some c → 1000 ≤ c.year)
    (hprincipal : Json.Plain (Json.FloatReads py.floatRepr float) r.principal.toDocument)
    (hbody : Json.Plain (Json.FloatReads py.floatRepr float) (.obj r.body))
    (hstored : Stored py float e.1 line) : ∃ e', readLine py float fromIso line = .ok e' := by
  obtain ⟨document, hentry, hdoc, hplain, hread⟩ := hplaced.reads hlaw hyears hprincipal hbody
  obtain ⟨document', hdoc', rfl⟩ := hstored.written
  obtain rfl : document = document' := Option.some.inj (hdoc.symm.trans hdoc')
  refine ⟨⟨e.1.arrange hentry, 0⟩, ?_⟩
  unfold readLine
  rw [Json.canonical, Json.loads_dumps_arranged (fun _ h => h) hplain, Json.arranged_obj]
  exact hread

/-- **`latest_sequence` answers as the full read does exactly when every complete line is read and
the last one is within reach; and the lines of entries of JSON are read.** -/
theorem latest_sequence_iff (py : Interpreter) (float : Str → PyFloat) (fromIso : FromIso)
    (scope : Str) (file : Option Str) (hscope : scopePattern.fullmatch scope = true)
    (happended : Appended py float file) :
    (Agrees py float fromIso scope file ↔
      ∀ raw, file = some raw → LinesRead py float fromIso raw ∧ LastReached raw) ∧
    ∀ (r : EvidenceRecord) (microsecond : Fin 1000000) (e : EntryOf r.scope) (line : Str),
      Placed py r e → IsoReads fromIso ⟨r.recordedAt, microsecond⟩ →
      (∀ c, r.recordedAt.utc = some c → 1000 ≤ c.year) →
      Json.Plain (Json.FloatReads py.floatRepr float) r.principal.toDocument →
      Json.Plain (Json.FloatReads py.floatRepr float) (.obj r.body) →
      Stored py float e.1 line → ∃ e', readLine py float fromIso line = .ok e' := by
  refine ⟨?_, fun r microsecond e line hplaced hlaw hyears hprincipal hbody hstored =>
    readLine_placed hplaced hlaw hyears hprincipal hbody hstored⟩
  cases file with
  | none =>
    refine iff_of_true ⟨none, [], ?_, ?_, rfl⟩ (fun _ h => (by cases h))
    · unfold latestSequence validateScope require
      rw [if_pos hscope]
      rfl
    · unfold readRange validateRange validateScope require
      rw [if_pos hscope]
      rfl
  | some raw =>
    rw [agrees_iff hscope happended]
    exact ⟨fun h _ heq => Option.some.inj heq ▸ h, fun h => h raw rfl⟩

/-- The line of a list of components. -/
def sampleLine : Str :=
  ((entryToDocument sampleEntry.toEntryFields).map fun d => Json.canonical reference (.obj d)).getD []

theorem sampleLine_stored : Stored reference (fun _ => .nan) sampleEntry sampleLine :=
  ⟨⟨_, rfl, rfl⟩, by decide +kernel, ⟨trivial, trivial⟩⟩

/-- A file of one line, and behind it the first byte of another. -/
theorem latest_sequence_iff_sample :
    Agrees reference (fun _ => .nan) isoReader (lit "local") (some (sampleLine ++ [10, 123])) := by
  have happended : Appended reference (fun _ => .nan) (some (sampleLine ++ [10, 123])) := by
    refine ⟨[sampleLine], [123], by simp [terminated], ?_, .inr ⟨_, _, sampleLine_stored, ?_⟩⟩
    · intro line hline
      rw [List.mem_singleton.1 hline]
      exact ⟨_, sampleLine_stored⟩
    · exact ⟨sampleLine.tail, by decide +kernel⟩
  obtain ⟨hiff, hread⟩ := latest_sequence_iff reference (fun _ => .nan) isoReader (lit "local")
    (some (sampleLine ++ [10, 123])) (by decide) happended
  refine hiff.2 ?_
  rintro _ ⟨⟩
  have hcomplete : completeLines (sampleLine ++ [10, 123]) = [sampleLine] := by decide +kernel
  constructor
  · rw [LinesRead, hcomplete]
    intro line hline
    rw [List.mem_singleton.1 hline]
    refine hread componentsRecord 0 ⟨sampleEntry, rfl⟩ _ ⟨none, .inl ?_⟩ ⟨?_, ?_⟩ ?_ ?_ ?_
      sampleLine_stored
    · exact chained_first (by decide +kernel) rfl rfl
    · rintro c ⟨⟩ -
      decide +kernel
    · rintro c text ⟨⟩ - ⟨⟩
      decide +kernel
    · rintro c ⟨⟩
      decide
    · simp +decide [componentsRecord, sampleEntry, EvidencePrincipal.toDocument,
        EvidencePrincipal.toDocument.toDocuments, Json.Plain, Json.PlainMembers, Json.PlainItems]
    · simp +decide [componentsRecord, sampleEntry, Json.Plain, Json.PlainMembers, Json.PlainItems]
  · exact .inr ⟨sampleLine, by rw [hcomplete]; rfl, .inl (by decide +kernel)⟩

/-- A first append that stopped behind its first byte: the full read answers no entry, and
`latest_sequence` raises. -/
theorem latest_sequence_raises : Appended reference (fun _ => .nan) (some [123]) ∧
    readRange reference (fun _ => .nan) isoReader (lit "local") (some [123]) 1 none = .ok [] ∧
    ¬Agrees reference (fun _ => .nan) isoReader (lit "local") (some [123]) := by
  have hplain : Plain [123] := by
    intro c hc
    rw [List.mem_singleton.1 hc]
    decide
  refine ⟨⟨[], [123], rfl, by simp, .inr ⟨_, _, sampleLine_stored, ?_⟩⟩, ?_, ?_⟩
  · exact ⟨sampleLine.tail, by decide +kernel⟩
  · exact @readRange_file reference _ _ [] [123] (by simp) hplain (lit "local") (by decide)
  · rintro ⟨latest, entries, h, -⟩
    rw [latestSequence_file (by decide), lastEntry_torn hplain (by simp)] at h
    cases h

end SayFirst.Plane.EvidenceFile
