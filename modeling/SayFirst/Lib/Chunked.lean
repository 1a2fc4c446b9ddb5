import SayFirst.Lib.JsonText
import Mathlib.Data.List.DropRight

/-!
# HTTP/1.1 message bodies

The chunked coding and the list-valued length and coding fields of RFC 9112, and what a reader
that splits a stream at its newlines can know of them.

* `ChunkedText` — a chunked body in its parts.
* `Lined.unique` — a stream starts with one chunked body at most.
* `WellFormed.lined` — a body of the grammar ends where its lines end.
* `Frames` — how a message is framed.
-/

namespace SayFirst.Http

open Py (Bytes Str lit)

/-! ## Trimming -/

section

variable {α : Type} (p : α → Bool)

/-- `s.strip()` of the characters of `p`. -/
def strip (s : List α) : List α := (s.dropWhile p).rdropWhile p

variable {p} {s a b : List α}

theorem strip_spec : ∃ a b, s = a ++ strip p s ++ b ∧ (∀ c ∈ a, p c = true) ∧
    ∀ c ∈ b, p c = true := by
  refine ⟨s.takeWhile p, (s.dropWhile p).rtakeWhile p, ?_, ?_, ?_⟩
  · have hback : strip p s ++ (s.dropWhile p).rtakeWhile p = s.dropWhile p := by
      rw [strip, List.rdropWhile, List.rtakeWhile, ← List.reverse_append,
        List.takeWhile_append_dropWhile, List.reverse_reverse]
    rw [List.append_assoc, hback, List.takeWhile_append_dropWhile]
  · exact fun c hc => List.mem_takeWhile_imp hc
  · exact fun c hc => List.mem_rtakeWhile_imp hc

/-- What stands between characters of `p` is what is left of the whole. -/
theorem strip_eq (ha : ∀ c ∈ a, p c = true) (hs : ∀ c ∈ s, p c = false) (hne : s ≠ [])
    (hb : ∀ c ∈ b, p c = true) : strip p (a ++ s ++ b) = s := by
  obtain ⟨c, t, rfl⟩ := List.exists_cons_of_ne_nil hne
  have hc : p c = false := hs c List.mem_cons_self
  have hfront : (a ++ (c :: t) ++ b).dropWhile p = (c :: t) ++ b := by
    rw [List.append_assoc, List.dropWhile_append_of_pos ha, List.cons_append,
      List.dropWhile_cons_of_neg (by simp [hc])]
  have hlast : ((c :: t).reverse).dropWhile p = (c :: t).reverse := by
    cases hrev : (c :: t).reverse with
    | nil => rfl
    | cons d u =>
      have hd : d ∈ c :: t := List.mem_reverse.1 (hrev ▸ List.mem_cons_self)
      exact List.dropWhile_cons_of_neg (by simp [hs d hd])
  rw [strip, hfront, List.rdropWhile, List.reverse_append,
    List.dropWhile_append_of_pos (fun d hd => hb d (List.mem_reverse.1 hd)), hlast,
    List.reverse_reverse]

end

/-! ## The grammar -/

def isDigit (c : UInt8) : Bool := decide (48 ≤ c ∧ c ≤ 57)

def isAlpha (c : UInt8) : Bool := decide (65 ≤ c ∧ c ≤ 90) || decide (97 ≤ c ∧ c ≤ 122)

/-- `HEXDIG`, in either case. -/
def isHex (c : UInt8) : Bool :=
  isDigit c || decide (65 ≤ c ∧ c ≤ 70) || decide (97 ≤ c ∧ c ≤ 102)

/-- `tchar` -/
def isTokenChar (c : UInt8) : Bool :=
  isDigit c || isAlpha c || [33, 35, 36, 37, 38, 39, 42, 43, 45, 46, 94, 95, 96, 124, 126].contains c

/-- `SP / HTAB` -/
def isBlank (c : UInt8) : Bool := c == 32 || c == 9

/-- `HTAB / SP / VCHAR / obs-text` -/
def isText (c : UInt8) : Bool := c == 9 || decide (32 ≤ c ∧ c ≠ 127)

def Token (s : Bytes) : Prop := s ≠ [] ∧ ∀ c ∈ s, isTokenChar c = true

def Blanks (s : Bytes) : Prop := ∀ c ∈ s, isBlank c = true

/-- The value of hexadecimal digits, after those of `acc`. -/
def hexValue (acc : ℕ) : Bytes → ℕ
  | [] => acc
  | c :: s =>
    hexValue (16 * acc + (if c ≤ 57 then c.toNat - 48 else if c ≤ 70 then c.toNat - 55
      else c.toNat - 87)) s

/-- What stands between the quotes of a `quoted-string`. -/
inductive Quoted : Bytes → Prop
  | nil : Quoted []
  | text {c s} : isText c = true → c ≠ 34 → c ≠ 92 → Quoted s → Quoted (c :: s)
  | pair {c s} : isText c = true → Quoted s → Quoted (92 :: c :: s)

/-- `chunk-ext` -/
inductive ChunkExt : Bytes → Prop
  | nil : ChunkExt []
  | name {b b' n more} : Blanks b → Blanks b' → Token n → ChunkExt more →
      ChunkExt (b ++ 59 :: (b' ++ n ++ more))
  | token {b b' n d d' v more} : Blanks b → Blanks b' → Token n → Blanks d → Blanks d' → Token v →
      ChunkExt more → ChunkExt (b ++ 59 :: (b' ++ n ++ d ++ 61 :: (d' ++ v ++ more)))
  | quoted {b b' n d d' v more} : Blanks b → Blanks b' → Token n → Blanks d → Blanks d' →
      Quoted v → ChunkExt more →
      ChunkExt (b ++ 59 :: (b' ++ n ++ d ++ 61 :: (d' ++ 34 :: (v ++ 34 :: more))))

/-- `chunk-size [ chunk-ext ] CRLF` -/
def SizeLine (line : Bytes) (size : ℕ) : Prop :=
  ∃ digits ext, line = digits ++ ext ++ [13, 10] ∧ digits ≠ [] ∧
    (∀ c ∈ digits, isHex c = true) ∧ hexValue 0 digits = size ∧ ChunkExt ext

/-- The end of a line of fields: a recipient may read a single LF as one. -/
def IsEnd (s : Bytes) : Prop := s = [13, 10] ∨ s = [10]

instance (s : Bytes) : Decidable (IsEnd s) := inferInstanceAs (Decidable (_ ∨ _))

/-- A `field-line` of the trailer section, with its end. -/
def TrailerLine (line : Bytes) : Prop :=
  ∃ name value stop, line = name ++ 58 :: (value ++ stop) ∧ Token name ∧
    (∀ c ∈ value, isText c = true) ∧ IsEnd stop

/-! ## A chunked body in its parts -/

structure ChunkedText where
  /-- The size line and the data of each chunk. -/
  chunks : List (Bytes × Bytes)
  last : Bytes
  trailers : List Bytes
  stop : Bytes

namespace ChunkedText

def text (t : ChunkedText) : Bytes :=
  t.chunks.flatMap (fun c => c.1 ++ (c.2 ++ [13, 10])) ++ (t.last ++ (t.trailers.flatten ++ t.stop))

/-- The number of bytes of data. -/
def size (t : ChunkedText) : ℕ := (t.chunks.map fun c => c.2.length).sum

end ChunkedText

/-- A line with its newline. -/
def Ended (line : Bytes) : Prop := ∃ text, line = text ++ [10] ∧ 10 ∉ text

/-- A body whose lines end where their newlines are, their sizes read by `size`. -/
structure Lined (size : Bytes → Option ℕ) (t : ChunkedText) : Prop where
  chunk : ∀ c ∈ t.chunks, Ended c.1 ∧ size c.1 = some c.2.length ∧ c.2 ≠ []
  last : Ended t.last ∧ size t.last = some 0
  trailer : ∀ line ∈ t.trailers, Ended line ∧ ¬ IsEnd line
  stop : IsEnd t.stop

/-- A body of the grammar. -/
structure WellFormed (t : ChunkedText) : Prop where
  chunk : ∀ c ∈ t.chunks, SizeLine c.1 c.2.length ∧ c.2 ≠ []
  last : SizeLine t.last 0
  trailer : ∀ line ∈ t.trailers, TrailerLine line
  stop : IsEnd t.stop

theorem IsEnd.ended {s : Bytes} (h : IsEnd s) : Ended s := by
  rcases h with rfl | rfl
  · exact ⟨[13], rfl, by decide⟩
  · exact ⟨[], rfl, by decide⟩

/-- **A line ends at its newline.** -/
theorem Ended.unique {l l' r r' : Bytes} (h : Ended l) (h' : Ended l') (heq : l ++ r = l' ++ r') :
    l = l' ∧ r = r' := by
  obtain ⟨t, rfl, ht⟩ := h
  obtain ⟨t', rfl, ht'⟩ := h'
  rw [List.append_assoc, List.append_assoc, List.singleton_append, List.singleton_append] at heq
  have hp : ∀ u : Bytes, 10 ∉ u → ∀ c ∈ u, decide (c ≠ 10) = true := fun u hu c hc =>
    decide_eq_true fun hc' => hu (hc' ▸ hc)
  have htake := congrArg (List.takeWhile fun c => decide (c ≠ 10)) heq
  rw [List.takeWhile_append_of_pos (hp t ht), List.takeWhile_append_of_pos (hp t' ht')] at htake
  simp only [ne_eq, not_true_eq_false, decide_false, Bool.false_eq_true, not_false_eq_true,
    List.takeWhile_cons_of_neg, List.append_nil] at htake
  subst htake
  exact ⟨rfl, (List.cons.inj (List.append_cancel_left heq)).2⟩

theorem trailers_unique {ls ls' : List Bytes} {stop stop' r r' : Bytes}
    (h : ∀ line ∈ ls, Ended line ∧ ¬ IsEnd line) (h' : ∀ line ∈ ls', Ended line ∧ ¬ IsEnd line)
    (hstop : IsEnd stop) (hstop' : IsEnd stop')
    (heq : ls.flatten ++ stop ++ r = ls'.flatten ++ stop' ++ r') :
    ls = ls' ∧ stop = stop' ∧ r = r' := by
  induction ls generalizing ls' with
  | nil =>
    cases ls' with
    | nil =>
      obtain ⟨rfl, rfl⟩ := hstop.ended.unique hstop'.ended heq
      exact ⟨rfl, rfl, rfl⟩
    | cons l' ls' =>
      obtain ⟨hended, hnot⟩ := h' l' List.mem_cons_self
      simp only [List.flatten_nil, List.nil_append, List.flatten_cons, List.append_assoc] at heq
      obtain ⟨rfl, -⟩ := hstop.ended.unique hended heq
      exact (hnot hstop).elim
  | cons l ls ih =>
    obtain ⟨hl, hnot⟩ := h l List.mem_cons_self
    cases ls' with
    | nil =>
      simp only [List.flatten_nil, List.nil_append, List.flatten_cons, List.append_assoc] at heq
      obtain ⟨rfl, -⟩ := hl.unique hstop'.ended heq
      exact (hnot hstop').elim
    | cons l' ls' =>
      obtain ⟨hl', -⟩ := h' l' List.mem_cons_self
      rw [List.flatten_cons, List.flatten_cons, List.append_assoc, List.append_assoc,
        List.append_assoc, List.append_assoc] at heq
      obtain ⟨rfl, hrest⟩ := hl.unique hl' heq
      rw [← List.append_assoc, ← List.append_assoc] at hrest
      obtain ⟨rfl, rfl, rfl⟩ := ih (fun line hline => h line (List.mem_cons_of_mem _ hline))
        (fun line hline => h' line (List.mem_cons_of_mem _ hline)) hrest
      exact ⟨rfl, rfl, rfl⟩

variable {size : Bytes → Option ℕ}

/-- **One chunked body**: a stream starts with one body at most, and one rest is behind it. -/
theorem Lined.unique {t t' : ChunkedText} {r r' : Bytes} (h : Lined size t) (h' : Lined size t')
    (heq : t.text ++ r = t'.text ++ r') : t = t' ∧ r = r' := by
  obtain ⟨chunks, last, trailers, stop⟩ := t
  obtain ⟨chunks', last', trailers', stop'⟩ := t'
  obtain ⟨hchunk, hlast, htrailer, hstop⟩ := h
  obtain ⟨hchunk', hlast', htrailer', hstop'⟩ := h'
  simp only [ChunkedText.text] at heq hchunk hlast htrailer hstop hchunk' hlast' htrailer' hstop'
  induction chunks generalizing chunks' with
  | nil =>
    cases chunks' with
    | nil =>
      simp only [List.flatMap_nil, List.nil_append, List.append_assoc] at heq
      obtain ⟨rfl, hrest⟩ := hlast.1.unique hlast'.1 heq
      rw [← List.append_assoc, ← List.append_assoc] at hrest
      obtain ⟨rfl, rfl, rfl⟩ := trailers_unique htrailer htrailer' hstop hstop' hrest
      exact ⟨rfl, rfl⟩
    | cons c' chunks' =>
      obtain ⟨hended, hsize, hne⟩ := hchunk' c' List.mem_cons_self
      simp only [List.flatMap_nil, List.nil_append, List.flatMap_cons, List.append_assoc] at heq
      obtain ⟨rfl, -⟩ := hlast.1.unique hended heq
      have hzero := Option.some.inj (hlast.2.symm.trans hsize)
      exact (hne (List.length_eq_zero_iff.1 hzero.symm)).elim
  | cons c chunks ih =>
    obtain ⟨hended, hsize, hne⟩ := hchunk c List.mem_cons_self
    cases chunks' with
    | nil =>
      simp only [List.flatMap_nil, List.nil_append, List.flatMap_cons, List.append_assoc] at heq
      obtain ⟨heq, -⟩ := hended.unique hlast'.1 heq
      rw [heq] at hsize
      have hzero := Option.some.inj (hlast'.2.symm.trans hsize)
      exact (hne (List.length_eq_zero_iff.1 hzero.symm)).elim
    | cons c' chunks' =>
      obtain ⟨hended', hsize', -⟩ := hchunk' c' List.mem_cons_self
      obtain ⟨line, data⟩ := c
      obtain ⟨line', data'⟩ := c'
      simp only [List.flatMap_cons, List.append_assoc] at heq
      obtain ⟨rfl, hdata⟩ := hended.unique hended' heq
      have hlength : data.length = data'.length := Option.some.inj (hsize.symm.trans hsize')
      obtain ⟨rfl, hrest⟩ := List.append_inj hdata hlength
      have hrest := List.append_cancel_left hrest
      obtain ⟨hrec, hr⟩ := ih chunks' (by simpa only [List.append_assoc] using hrest)
        (fun c hc => hchunk c (List.mem_cons_of_mem _ hc))
        (fun c hc => hchunk' c (List.mem_cons_of_mem _ hc))
      cases hrec
      exact ⟨rfl, hr⟩

/-! ## The grammar is one of lines -/

theorem Blanks.no_newline {s : Bytes} (h : Blanks s) : 10 ∉ s := fun hmem => by
  have := h 10 hmem
  exact absurd this (by decide)

theorem Token.no_newline {s : Bytes} (h : Token s) : 10 ∉ s := fun hmem => by
  have := h.2 10 hmem
  exact absurd this (by decide)

theorem text_no_newline {s : Bytes} (h : ∀ c ∈ s, isText c = true) : 10 ∉ s := fun hmem => by
  have := h 10 hmem
  exact absurd this (by decide)

theorem Quoted.no_newline {s : Bytes} (h : Quoted s) : 10 ∉ s := by
  induction h with
  | nil => exact List.not_mem_nil
  | @text c s htext _ _ _ ih =>
    have hc : c ≠ 10 := by
      rintro rfl
      exact absurd htext (by decide)
    simp [hc.symm, ih]
  | @pair c s htext _ ih =>
    have hc : c ≠ 10 := by
      rintro rfl
      exact absurd htext (by decide)
    simp [hc.symm, ih]

theorem ChunkExt.no_newline {s : Bytes} (h : ChunkExt s) : 10 ∉ s := by
  induction h with
  | nil => exact List.not_mem_nil
  | name hb hb' hn _ ih => simp [hb.no_newline, hb'.no_newline, hn.no_newline, ih]
  | token hb hb' hn hd hd' hv _ ih =>
    simp [hb.no_newline, hb'.no_newline, hn.no_newline, hd.no_newline, hd'.no_newline,
      hv.no_newline, ih]
  | quoted hb hb' hn hd hd' hv _ ih =>
    simp [hb.no_newline, hb'.no_newline, hn.no_newline, hd.no_newline, hd'.no_newline,
      hv.no_newline, ih]

/-- An extension is nothing, or a semicolon behind blanks. -/
theorem ChunkExt.semicolon {s : Bytes} (h : ChunkExt s) :
    s = [] ∨ ∃ b rest, s = b ++ 59 :: rest ∧ Blanks b := by
  cases h with
  | nil => exact .inl rfl
  | name hb => exact .inr ⟨_, _, rfl, hb⟩
  | token hb => exact .inr ⟨_, _, rfl, hb⟩
  | quoted hb => exact .inr ⟨_, _, rfl, hb⟩

theorem SizeLine.ended {line : Bytes} {n : ℕ} (h : SizeLine line n) : Ended line := by
  obtain ⟨digits, ext, rfl, -, hhex, -, hext⟩ := h
  refine ⟨digits ++ ext ++ [13], by simp, ?_⟩
  have hdigits : 10 ∉ digits := fun hmem => absurd (hhex 10 hmem) (by decide)
  simp [hdigits, hext.no_newline]

theorem TrailerLine.ended {line : Bytes} (h : TrailerLine line) : Ended line ∧ ¬ IsEnd line := by
  obtain ⟨name, value, stop, rfl, hname, hvalue, hstop⟩ := h
  have hn := hname.no_newline
  have hv := text_no_newline hvalue
  constructor
  · obtain ⟨t, rfl, ht⟩ := hstop.ended
    exact ⟨name ++ 58 :: (value ++ t), by simp, by simp [hn, hv, ht]⟩
  · obtain ⟨c, rest, rfl⟩ := List.exists_cons_of_ne_nil hname.1
    have hc := hname.2 c List.mem_cons_self
    rintro (h | h)
    · rw [List.cons_append] at h
      rw [(List.cons.inj h).1] at hc
      exact absurd hc (by decide)
    · rw [List.cons_append] at h
      rw [(List.cons.inj h).1] at hc
      exact absurd hc (by decide)

/-- **A body of the grammar is one of lines**, for a reader of sizes that reads those of the
grammar. -/
theorem WellFormed.lined {t : ChunkedText} (h : WellFormed t)
    (hsize : ∀ line n, SizeLine line n → size line = some n) : Lined size t where
  chunk c hc := ⟨(h.chunk c hc).1.ended, hsize _ _ (h.chunk c hc).1, (h.chunk c hc).2⟩
  last := ⟨h.last.ended, hsize _ _ h.last⟩
  trailer line hline := (h.trailer line hline).ended
  stop := h.stop

/-! ## The framing of a message -/

/-- A field name or a coding without its case. -/
def lower (s : Str) : Str := s.map fun c => if 65 ≤ c ∧ c ≤ 90 then c + 32 else c

/-- The values of the fields of one name, in their order. -/
def fieldValues (fields : List (Str × Str)) (name : String) : List Str :=
  (fields.filter fun field => lower field.1 == lit name).map (·.2)

/-- Blank in a field value: a folded line is read as a space, as a bare CR is. -/
def isOws (c : ℕ) : Bool := [32, 9, 13, 10].contains c

/-- The elements of a list-valued field; empty ones are ignored. -/
def elements (value : Str) : List Str :=
  ((value.splitOn 44).map (strip isOws)).filter (· ≠ [])

/-- The elements of all fields of one name. -/
def combined (fields : List (Str × Str)) (name : String) : List Str :=
  (fieldValues fields name).flatMap elements

/-- The value of decimal digits, after those of `acc`. -/
def decimalValue (acc : ℕ) : Str → ℕ
  | [] => acc
  | c :: s => decimalValue (10 * acc + (c - 48)) s

/-- `1*DIGIT` of this value. -/
def IsLength (n : ℕ) (s : Str) : Prop :=
  s ≠ [] ∧ (∀ c ∈ s, 48 ≤ c ∧ c ≤ 57) ∧ decimalValue 0 s = n

inductive Frame where
  | length (n : ℕ)
  | chunked (t : ChunkedText)

namespace Frame

/-- The number of bytes of data. -/
def dataLength : Frame → ℕ
  | length n => n
  | chunked t => t.size

/-- The body of the frame is taken off the stream. -/
def Takes (after rest : Bytes) : Frame → Prop
  | length n => ∃ body, body.length = n ∧ after = body ++ rest
  | chunked t => after = t.text ++ rest

/-- The stream ends in the body of the frame. -/
def Cut (after : Bytes) : Frame → Prop
  | length n => after.length < n
  | chunked _ => False

end Frame

/-- **How a request is framed**: no body, one consistent length, or the chunked coding alone, which
only HTTP/1.1 has. -/
inductive Frames (chunks : Bool) (fields : List (Str × Str)) (after : Bytes) : Frame → Prop
  | empty : fieldValues fields "transfer-encoding" = [] →
      fieldValues fields "content-length" = [] → Frames chunks fields after (.length 0)
  | length {n} : fieldValues fields "transfer-encoding" = [] →
      combined fields "content-length" ≠ [] →
      (∀ element ∈ combined fields "content-length", IsLength n element) →
      Frames chunks fields after (.length n)
  | chunked {t rest} : chunks = true → fieldValues fields "content-length" = [] →
      (combined fields "transfer-encoding").map lower = [lit "chunked"] → WellFormed t →
      after = t.text ++ rest → Frames chunks fields after (.chunked t)

end SayFirst.Http
