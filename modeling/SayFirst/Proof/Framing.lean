import SayFirst.Spec.Framing

/-!
# Request framing

* `skipChunked_iff` — the bodies the skip goes over.
* `intOfText_length` — a length of the grammar is read as the length it is.
* `framing_kept_iff` — the requests of a connection are framed as HTTP/1.1 frames them exactly where
  no field is read otherwise than the grammar has it, and then each next request begins where the
  body of the one before it ends.
-/

namespace SayFirst.Plane

open Py
open Http

/-! ## Lines of the stream -/

theorem readLine_append : ∀ {limit : ℕ} {s : Bytes},
    (readLine limit s).1 ++ (readLine limit s).2 = s
  | 0, _ => rfl
  | _ + 1, [] => rfl
  | limit + 1, c :: s => by
    rw [readLine]
    split
    · rfl
    · rw [List.cons_append, readLine_append]

theorem readLine_ended : ∀ {limit : ℕ} {text rest : Bytes}, 10 ∉ text → text.length < limit →
    readLine limit (text ++ 10 :: rest) = (text ++ [10], rest)
  | 0, _, _, _, hlength => absurd hlength (Nat.not_lt_zero _)
  | limit + 1, [], rest, _, _ => by simp [readLine]
  | limit + 1, c :: text, rest, hno, hlength => by
    have hc : c ≠ 10 := fun heq => hno (heq ▸ List.mem_cons_self)
    have htext : 10 ∉ text := fun hmem => hno (List.mem_cons_of_mem _ hmem)
    rw [List.cons_append, readLine, if_neg hc,
      readLine_ended htext (by rw [List.length_cons] at hlength; omega)]
    rfl

/-- A line is ended, or is as long as asked for, or the stream ends with it. -/
theorem readLine_cases : ∀ (limit : ℕ) (s : Bytes), Ended (readLine limit s).1 ∨
    (readLine limit s).1.length = limit ∨ (readLine limit s).2 = []
  | 0, _ => .inr (.inl rfl)
  | _ + 1, [] => .inr (.inr rfl)
  | limit + 1, c :: s => by
    rw [readLine]
    by_cases hc : c = 10
    · subst hc
      rw [if_pos rfl]
      exact .inl ⟨[], rfl, List.not_mem_nil⟩
    · rw [if_neg hc]
      rcases readLine_cases limit s with ⟨text, htext, hno⟩ | h | h
      · exact .inl ⟨c :: text, by simp [htext], by simp [hno, Ne.symm hc]⟩
      · exact .inr (.inl (by simp [h]))
      · exact .inr (.inr h)

/-- A line that is not too long is there to its end, or the stream ends with it. -/
theorem line_cases {s line rest : Bytes} (h : readLine (maxFramingLine + 1) s = (line, rest))
    (hshort : overlong line = false) :
    s = line ++ rest ∧ line.length ≤ maxFramingLine ∧ line ≠ [] ∧ (Ended line ∨ rest = []) := by
  have happend := @readLine_append (maxFramingLine + 1) s
  have hcases := readLine_cases (maxFramingLine + 1) s
  rw [h] at happend hcases
  simp only [overlong, Bool.or_eq_false_iff, List.isEmpty_eq_false_iff, decide_eq_false_iff_not,
    Nat.not_lt, gt_iff_lt] at hshort
  refine ⟨happend.symm, hshort.2, hshort.1, ?_⟩
  rcases hcases with hended | hlength | hrest
  · exact .inl hended
  · have hlength : line.length = maxFramingLine + 1 := hlength
    omega
  · exact .inr hrest

/-- A line that ends in time is read. -/
theorem line_ended {line : Bytes} (rest : Bytes) (h : Ended line)
    (hshort : line.length ≤ maxFramingLine) :
    readLine (maxFramingLine + 1) (line ++ rest) = (line, rest) ∧ overlong line = false := by
  obtain ⟨text, rfl, hno⟩ := h
  rw [List.length_append, List.length_singleton] at hshort
  constructor
  · rw [List.append_assoc, List.singleton_append, readLine_ended hno (by omega)]
  · simp [overlong, List.length_append]
    omega

/-! ## The bodies the skip goes over -/

theorem skipTrailer_nil {fuel : ℕ} : skipTrailer fuel [] = none := by
  cases fuel <;> rfl

/-- A trailer section as the skip reads one. -/
theorem skipTrailer_iff : ∀ {fuel : ℕ} {s rest : Bytes}, s.length < fuel →
    (skipTrailer fuel s = some rest ↔ ∃ (lines : List Bytes) (stop : Bytes), s = lines.flatten ++ stop ++ rest ∧
      (∀ line ∈ lines, Ended line ∧ ¬ IsEnd line ∧ line.length ≤ maxFramingLine) ∧ IsEnd stop)
  | 0, _, _, h => absurd h (Nat.not_lt_zero _)
  | fuel + 1, s, rest, h => by
    rw [skipTrailer]
    cases hread : readLine (maxFramingLine + 1) s with
    | mk line after =>
      simp only
      constructor
      · intro hskip
        cases hshort : overlong line with
        | true => simp [hshort] at hskip
        | false =>
          rw [hshort, if_neg Bool.false_ne_true] at hskip
          obtain ⟨rfl, hlength, hne, hended⟩ := line_cases hread hshort
          by_cases hstop : line = [13, 10] ∨ line = [10]
          · rw [if_pos hstop] at hskip
            cases hskip
            exact ⟨[], line, by simp, by simp, hstop⟩
          · rw [if_neg hstop] at hskip
            have hpos := List.length_pos_of_ne_nil hne
            rw [List.length_append] at h
            obtain ⟨lines, stop, rfl, hlines, hend⟩ := (skipTrailer_iff (by omega)).1 hskip
            rcases hended with hended | hnil
            · refine ⟨line :: lines, stop, by simp, List.forall_mem_cons.2 ⟨?_, hlines⟩, hend⟩
              exact ⟨hended, hstop, hlength⟩
            · rw [hnil, skipTrailer_nil] at hskip
              cases hskip
      · rintro ⟨lines, stop, rfl, hlines, hend⟩
        cases lines with
        | nil =>
          obtain ⟨hline, hshort⟩ := line_ended rest hend.ended (by
            rcases hend with rfl | rfl <;> decide)
          rw [List.flatten_nil, List.nil_append, hline] at hread
          cases hread
          rw [hshort, if_neg Bool.false_ne_true, if_pos (show line = _ ∨ line = _ from hend)]
        | cons l lines =>
          obtain ⟨hended, hnot, hlength⟩ := hlines l List.mem_cons_self
          obtain ⟨hline, hshort⟩ :=
            line_ended (lines.flatten ++ stop ++ rest) hended hlength
          rw [List.flatten_cons, List.append_assoc, List.append_assoc, ← List.append_assoc _ stop,
            hline] at hread
          cases hread
          have hpos : 0 < line.length := by
            obtain ⟨text, rfl, -⟩ := hended
            simp
          rw [hshort, if_neg Bool.false_ne_true, if_neg (show ¬ (line = _ ∨ line = _) from hnot)]
          refine (skipTrailer_iff ?_).2 ⟨lines, stop, rfl,
            fun l hl => hlines l (List.mem_cons_of_mem _ hl), hend⟩
          simp only [List.length_append, List.flatten_cons] at h ⊢
          omega

/-- A chunked body as the skip reads one. -/
structure Skippable (t : ChunkedText) : Prop where
  lined : Lined sizeOf t
  short : (∀ c ∈ t.chunks, c.1.length ≤ maxFramingLine) ∧ t.last.length ≤ maxFramingLine ∧
    ∀ line ∈ t.trailers, line.length ≤ maxFramingLine

theorem skipChunks_nil {fuel skipped : ℕ} : skipChunks fuel skipped [] = none := by
  cases fuel <;> rfl

theorem skipChunks_sound : ∀ {fuel skipped : ℕ} {s rest : Bytes}, s.length < fuel →
    skipped ≤ maxBodyBytes → skipChunks fuel skipped s = some rest →
      ∃ t : ChunkedText, s = t.text ++ rest ∧ Skippable t ∧ skipped + t.size ≤ maxBodyBytes
  | 0, _, _, _, h, _, _ => absurd h (Nat.not_lt_zero _)
  | fuel + 1, skipped, s, rest, h, hbound, hskip => by
    rw [skipChunks] at hskip
    cases hread : readLine (maxFramingLine + 1) s with
    | mk line after =>
      simp only [hread] at hskip
      cases hshort : overlong line with
      | true => simp [hshort] at hskip
      | false =>
        rw [hshort, if_neg Bool.false_ne_true] at hskip
        obtain ⟨rfl, hlength, hne, hended⟩ := line_cases hread hshort
        have hpos := List.length_pos_of_ne_nil hne
        rw [List.length_append] at h
        cases hsize : sizeOf line with
        | none => simp [hsize] at hskip
        | some size =>
          cases size with
          | zero =>
            simp only [hsize] at hskip
            obtain ⟨lines, stop, rfl, hlines, hend⟩ := (skipTrailer_iff (by omega)).1 hskip
            replace hended : Ended line := by
              rcases hended with hended | hnil
              · exact hended
              · rw [hnil, skipTrailer_nil] at hskip
                cases hskip
            refine ⟨⟨[], line, lines, stop⟩, by simp [ChunkedText.text], ⟨⟨?_, ⟨hended, hsize⟩, ?_,
              hend⟩, ?_, hlength, ?_⟩, by simpa [ChunkedText.size] using hbound⟩
            · simp
            · exact fun l hl => ⟨(hlines l hl).1, (hlines l hl).2.1⟩
            · simp
            · exact fun l hl => (hlines l hl).2.2
          | succ n =>
            simp only [hsize] at hskip
            by_cases hover : skipped + (n + 1) > maxBodyBytes
            · simp [hover] at hskip
            rw [if_neg hover] at hskip
            by_cases hcut : after.length < n + 1
            · simp [hcut] at hskip
            rw [if_neg hcut] at hskip
            replace hended : Ended line := by
              rcases hended with hended | hnil
              · exact hended
              · rw [hnil] at hcut
                simp at hcut
            split at hskip
            · rename_i more hdrop
              have hafter : after = after.take (n + 1) ++ 13 :: 10 :: more := by
                rw [← hdrop, List.take_append_drop]
              have hdata : (after.take (n + 1)).length = n + 1 :=
                List.length_take_of_le (by omega)
              generalize after.take (n + 1) = data at hafter hdata
              subst hafter
              simp only [List.length_append, List.length_cons] at h
              obtain ⟨t, rfl, ⟨hlined, hchunks, hlast, htrailers⟩, hsum⟩ :=
                skipChunks_sound (by omega) (by omega) hskip
              refine ⟨{ t with chunks := (line, data) :: t.chunks }, ?_, ⟨⟨?_, hlined.last,
                hlined.trailer, hlined.stop⟩, ?_, hlast, htrailers⟩, ?_⟩
              · simp [ChunkedText.text]
              · refine List.forall_mem_cons.2 ⟨⟨hended, by rw [hsize, hdata], ?_⟩, hlined.chunk⟩
                rintro rfl
                simp at hdata
              · exact List.forall_mem_cons.2 ⟨hlength, hchunks⟩
              · simp only [ChunkedText.size, List.map_cons, List.sum_cons, hdata] at hsum ⊢
                omega
            · cases hskip

theorem skipChunks_complete : ∀ {chunks : List (Bytes × Bytes)} {fuel skipped : ℕ} {rest : Bytes}
    {t : ChunkedText}, t.chunks = chunks → (t.text ++ rest).length < fuel → Skippable t →
      skipped + t.size ≤ maxBodyBytes → skipChunks fuel skipped (t.text ++ rest) = some rest
  | [], 0, _, _, _, _, h, _, _ => absurd h (Nat.not_lt_zero _)
  | _ :: _, 0, _, _, _, _, h, _, _ => absurd h (Nat.not_lt_zero _)
  | [], fuel + 1, skipped, rest, ⟨_, last, trailers, stop⟩, rfl, h, ⟨hlined, _, hlast, hshorts⟩, _ => by
    obtain ⟨hended, hsize⟩ := hlined.last
    obtain ⟨hline, hshort⟩ :=
      line_ended (trailers.flatten ++ stop ++ rest) hended hlast
    have htext : (⟨[], last, trailers, stop⟩ : ChunkedText).text ++ rest =
        last ++ (trailers.flatten ++ stop ++ rest) := by simp [ChunkedText.text]
    rw [htext] at h ⊢
    rw [skipChunks]
    simp only [hline, hshort, Bool.false_eq_true, if_false, hsize]
    refine (skipTrailer_iff ?_).2 ⟨trailers, stop, rfl, fun l hl => ?_, hlined.stop⟩
    · have hpos : 0 < last.length := by
        obtain ⟨text, rfl, -⟩ := hended
        simp
      rw [List.length_append] at h
      omega
    · exact ⟨(hlined.trailer l hl).1, (hlined.trailer l hl).2, hshorts l hl⟩
  | (line, data) :: chunks, fuel + 1, skipped, rest, ⟨_, last, trailers, stop⟩, rfl, h,
      ⟨hlined, hchunks, hlast, hshorts⟩, hbound => by
    obtain ⟨hended, hsize, hne⟩ := hlined.chunk _ List.mem_cons_self
    have hlength := hchunks _ List.mem_cons_self
    have htext : (⟨(line, data) :: chunks, last, trailers, stop⟩ : ChunkedText).text ++ rest =
        line ++ (data ++ 13 :: 10 :: ((⟨chunks, last, trailers, stop⟩ : ChunkedText).text ++ rest)) := by
      simp [ChunkedText.text]
    obtain ⟨hline, hshort⟩ := line_ended (data ++ 13 :: 10 ::
      ((⟨chunks, last, trailers, stop⟩ : ChunkedText).text ++ rest)) hended hlength
    have hpos : 0 < data.length := List.length_pos_of_ne_nil hne
    obtain ⟨n, hn⟩ : ∃ n, data.length = n + 1 := ⟨data.length - 1, by omega⟩
    rw [htext] at h ⊢
    simp only [ChunkedText.size, List.map_cons, List.sum_cons] at hbound
    rw [hn] at hsize hbound
    rw [skipChunks]
    simp only [hline, hshort, Bool.false_eq_true, if_false, hsize]
    rw [if_neg (by omega), if_neg (by simp; omega), List.drop_left' hn]
    refine skipChunks_complete rfl ?_ ⟨⟨fun c hc => hlined.chunk c (List.mem_cons_of_mem _ hc),
      hlined.last, hlined.trailer, hlined.stop⟩, fun c hc => hchunks c (List.mem_cons_of_mem _ hc),
      hlast, hshorts⟩ ?_
    · simp only [List.length_append, List.length_cons] at h ⊢
      omega
    · simp only [ChunkedText.size]
      omega

/-- **What the skip goes over**: a body of lines, its data within the bound. -/
theorem skipChunked_iff {s rest : Bytes} : skipChunked s = some rest ↔
    ∃ t : ChunkedText, s = t.text ++ rest ∧ Skippable t ∧ t.size ≤ maxBodyBytes := by
  constructor
  · intro h
    obtain ⟨t, rfl, hskip, hsize⟩ := skipChunks_sound (by omega) (Nat.zero_le _) h
    exact ⟨t, rfl, hskip, by omega⟩
  · rintro ⟨t, rfl, hskip, hsize⟩
    exact skipChunks_complete rfl (by omega) hskip (by omega)

/-- A size line of the grammar is read as the size it is. -/
theorem sizeOf_sizeLine {line : Bytes} {n : ℕ} (h : SizeLine line n) : sizeOf line = some n := by
  obtain ⟨digits, ext, rfl, hne, hhex, rfl, hext⟩ := h
  have hsemicolon : ∀ c ∈ digits, decide (c ≠ 59) = true := fun c hc => by
    refine decide_eq_true ?_
    rintro rfl
    exact absurd (hhex 59 hc) (by decide)
  have hspace : ∀ c ∈ digits, isSpaceByte c = false := fun c hc => by
    have hlow : isHex c = true := hhex c hc
    cases hb : isSpaceByte c with
    | false => rfl
    | true =>
      simp only [isSpaceByte, Bool.or_eq_true, beq_iff_eq, Bool.and_eq_true,
        decide_eq_true_eq, UInt8.le_iff_toNat_le] at hb
      simp only [isHex, Http.isDigit, Bool.or_eq_true, decide_eq_true_eq,
        UInt8.le_iff_toNat_le] at hlow
      rcases hb with rfl | hb
      · simp at hlow
      · simp at hlow hb
        omega
  obtain ⟨blanks, hblanks, htake⟩ : ∃ blanks : Bytes, (∀ c ∈ blanks, isSpaceByte c = true) ∧
      (digits ++ ext ++ [13, 10]).takeWhile (· ≠ 59) = digits ++ blanks := by
    rcases hext.semicolon with rfl | ⟨b, rest, rfl, hb⟩
    · refine ⟨[13, 10], by simp [isSpaceByte], ?_⟩
      rw [List.append_nil, List.takeWhile_append_of_pos hsemicolon]
      rfl
    · refine ⟨b, fun c hc => ?_, ?_⟩
      · have := hb c hc
        simp only [isBlank, Bool.or_eq_true, beq_iff_eq] at this
        rcases this with rfl | rfl <;> rfl
      · have hbs : ∀ c ∈ b, decide (c ≠ 59) = true := fun c hc => by
          refine decide_eq_true ?_
          rintro rfl
          exact absurd (hb 59 hc) (by decide)
        rw [List.append_assoc, List.takeWhile_append_of_pos hsemicolon, List.append_assoc,
          List.takeWhile_append_of_pos hbs]
        simp
  have hstrip : strip isSpaceByte (digits ++ blanks) = digits :=
    strip_eq (a := []) (by simp) hspace hne hblanks
  rw [sizeOf, htake, hstrip]
  simp only [List.isEmpty_eq_false_iff.2 hne, Bool.false_eq_true, if_false,
    List.all_eq_true.2 hhex, if_true]

/-- **A body of the grammar ends where the skip ends**, if it skips it. -/
theorem wellFormed_lined {t : ChunkedText} (h : WellFormed t) : Lined sizeOf t :=
  h.lined fun _ _ => sizeOf_sizeLine

/-! ## The declared length -/

theorem plainDigits_chars {s digits : Str} (h : plainDigits s = some digits) :
    ∀ c ∈ s, (48 ≤ c ∧ c ≤ 57) ∨ c = 95 := by
  fun_induction plainDigits s generalizing digits with
  | case1 => simp
  | case2 c hc => simpa using .inl hc
  | case3 => cases h
  | case4 c s hc ih =>
    obtain ⟨rest, hrest, -⟩ := Option.map_eq_some_iff.1 h
    rw [List.forall_mem_cons, List.forall_mem_cons]
    exact ⟨.inl hc, .inr rfl, ih hrest⟩
  | case5 => cases h
  | case6 c d s _ hc ih =>
    obtain ⟨rest, hrest, -⟩ := Option.map_eq_some_iff.1 h
    exact List.forall_mem_cons.2 ⟨.inl hc, ih hrest⟩
  | case7 => cases h

theorem plainDigits_digits {s : Str} (hne : s ≠ []) (h : ∀ c ∈ s, 48 ≤ c ∧ c ≤ 57) :
    plainDigits s = some s := by
  fun_induction plainDigits s with
  | case1 => exact (hne rfl).elim
  | case2 => rfl
  | case3 c hc => exact (hc (h c List.mem_cons_self)).elim
  | case4 c s hc ih =>
    have := h 95 (by simp)
    omega
  | case5 c s hc => exact (hc (h c List.mem_cons_self)).elim
  | case6 c d s _ hc ih =>
    rw [ih (List.cons_ne_nil _ _) fun x hx => h x (List.mem_cons_of_mem _ hx)]
    rfl
  | case7 c d s _ hc => exact (hc (h c List.mem_cons_self)).elim

theorem intOfDigits_chars {s : Str} {n : ℕ} (h : intOfDigits s = some n) :
    ∀ c ∈ s, (48 ≤ c ∧ c ≤ 57) ∨ c = 95 := by
  rw [intOfDigits] at h
  cases hdigits : plainDigits s with
  | none => simp [hdigits] at h
  | some digits => exact plainDigits_chars hdigits

/-- What is read as a number has no comma. -/
theorem intOfText_comma {s : Str} {n : ℤ} (h : intOfText s = some n) : 44 ∉ s := by
  obtain ⟨a, b, hs, ha, hb⟩ := strip_spec (p := isSpace) (s := s)
  have hstrip : ∀ c ∈ strip isSpace s, c ≠ 44 := by
    rw [intOfText] at h
    split at h
    · rename_i digits heq
      obtain ⟨m, hm, -⟩ := Option.map_eq_some_iff.1 h
      rw [heq, List.forall_mem_cons]
      refine ⟨by decide, fun c hc => ?_⟩
      have := intOfDigits_chars hm c hc
      omega
    · rename_i digits heq
      obtain ⟨m, hm, -⟩ := Option.map_eq_some_iff.1 h
      rw [heq, List.forall_mem_cons]
      refine ⟨by decide, fun c hc => ?_⟩
      have := intOfDigits_chars hm c hc
      omega
    · obtain ⟨m, hm, -⟩ := Option.map_eq_some_iff.1 h
      intro c hc
      have := intOfDigits_chars hm c hc
      omega
  intro hmem
  rw [hs, List.mem_append, List.mem_append] at hmem
  rcases hmem with (hmem | hmem) | hmem
  · exact absurd (ha 44 hmem) (by decide)
  · exact hstrip 44 hmem rfl
  · exact absurd (hb 44 hmem) (by decide)

theorem isSpace_of_ows {c : ℕ} (h : isOws c = true) : isSpace c = true := by
  simp only [isOws, List.contains_cons, List.contains_nil, Bool.or_false, Bool.or_eq_true,
    beq_iff_eq] at h
  rcases h with rfl | rfl | rfl | rfl <;> rfl

/-- **One length**: what is read of a field whose elements are lengths of the grammar, all the
same, is that length. -/
theorem intOfText_length {s : Str} {n : ℤ} {m : ℕ} (h : intOfText s = some n)
    (hlength : ∀ element ∈ elements s, IsLength m element) : n = m := by
  obtain ⟨a, b, hs, ha, hb⟩ := strip_spec (p := isOws) (s := s)
  have hspace : ∀ {l : Str}, (∀ c ∈ l, isOws c = true) → ∀ c ∈ l, isSpace c = true :=
    fun hl c hc => isSpace_of_ows (hl c hc)
  have helements : elements s = [strip isOws s].filter (· ≠ []) := by
    rw [elements, List.splitOn_eq_singleton (intOfText_comma h)]
    rfl
  by_cases hnil : strip isOws s = []
  · -- Blanks alone are no number.
    rw [hnil, List.append_nil] at hs
    have hall : ∀ c ∈ s, isSpace c = true := by
      intro c hc
      rw [hs, List.mem_append] at hc
      exact hc.elim (hspace ha c) (hspace hb c)
    have hempty : strip isSpace s = [] := by
      rw [strip, List.dropWhile_eq_nil_iff.2 hall]
      rfl
    rw [intOfText, hempty] at h
    cases h
  · obtain ⟨hne, hdigits, hvalue⟩ := hlength (strip isOws s) (by simp [helements, hnil])
    have hno : ∀ c ∈ strip isOws s, isSpace c = false := by
      intro c hc
      have := hdigits c hc
      simp only [isSpace, Bool.or_eq_false_iff, Bool.and_eq_false_iff, decide_eq_false_iff_not,
        beq_eq_false_iff_ne]
      omega
    have hstrip : strip isSpace s = strip isOws s := by
      conv_lhs => rw [hs]
      exact strip_eq (hspace ha) hno hne (hspace hb)
    obtain ⟨c, rest, hcons⟩ := List.exists_cons_of_ne_nil hne
    have hc := hdigits c (hcons ▸ List.mem_cons_self)
    rw [intOfText, hstrip] at h
    split at h
    · rename_i heq
      rw [hcons] at heq
      cases heq
      omega
    · rename_i heq
      rw [hcons] at heq
      cases heq
      omega
    · obtain ⟨k, hk, rfl⟩ := Option.map_eq_some_iff.1 h
      rw [intOfDigits, plainDigits_digits hne hdigits] at hk
      simp only at hk
      split at hk
      · cases hk
      · rw [← hvalue, Option.some.inj hk]

/-! ## One request -/

variable {repr : Str → Str}

/-- HTTP/1.1 frames the request so, by its fields and the stream behind them. -/
def Exchange.FramedAs (e : Exchange) (frame : Frame) : Prop :=
  Frames (e.head.version = .http11) e.head.fields e.after frame

/-- A request is in step with its framing: the connection is kept only behind the body that its
framing has, within the bound, or at the end of the stream; and a request that has none is refused
and the connection closed. -/
structure InStep (repr : Str → Str) (e : Exchange) : Prop where
  kept : ∀ rest, (e.handled repr).rest = some rest → ∃ frame, e.FramedAs frame ∧
    frame.dataLength ≤ maxBodyBytes ∧ (frame.Takes e.after rest ∨ frame.Cut e.after ∧ rest = [])
  closed : (¬ ∃ frame, e.FramedAs frame) →
    (e.handled repr).refused = true ∧ (e.handled repr).rest = none

/-- A length that is read and is within the bound is one the grammar has, the same in every field. -/
def LengthsPlain (fields : List (Str × Str)) : Prop :=
  ∀ declared n, fieldValues fields "transfer-encoding" = [] →
    headerGet fields "content-length" = some declared → intOfText declared = some n → 0 ≤ n →
    n ≤ maxBodyBytes → combined fields "content-length" ≠ [] ∧
      ∃ m, ∀ element ∈ combined fields "content-length", IsLength m element

/-- A chunked body that is skipped is the only coding of a request in HTTP/1.1, and each of its
lines is one of the grammar. -/
def ChunksPlain (e : Exchange) : Prop :=
  ∀ encoding t rest, headerGet e.head.fields "transfer-encoding" = some encoding →
    fieldValues e.head.fields "content-length" = [] →
    lower (strip isSpace encoding) = lit "chunked" → e.after = t.text ++ rest → Skippable t →
    t.size ≤ maxBodyBytes → e.head.version = .http11 ∧
      (combined e.head.fields "transfer-encoding").map lower = [lit "chunked"] ∧ WellFormed t

/-- A request that is served has no framing that is read otherwise than the grammar has it. -/
def Plain (e : Exchange) : Prop :=
  e.head.version ≠ .other → e.serving.admitted = true → LengthsPlain e.head.fields ∧ ChunksPlain e

theorem headerGet_eq {fields : List (Str × Str)} {name : String} :
    headerGet fields name = (fieldValues fields name).head? := by
  rw [headerGet, fieldValues, List.head?_map, List.head?_filter]

theorem headerGet_none {fields : List (Str × Str)} {name : String} :
    headerGet fields name = none ↔ fieldValues fields name = [] := by
  rw [headerGet_eq, List.head?_eq_none_iff]

theorem handled_unserved {e : Exchange} (h : e.head.version = .other ∨ e.serving.admitted = false) :
    e.handled repr = ⟨true, none⟩ := by
  rw [Exchange.handled, handle, if_pos h]

theorem handled_served {e : Exchange} (hversion : e.head.version ≠ .other)
    (hadmitted : e.serving.admitted = true) :
    e.handled repr = answer e.serving e.head (consumeBody repr e.head.fields e.after) := by
  rw [Exchange.handled, handle, if_neg (by simp [hversion, hadmitted])]

theorem inStep_refused {e : Exchange} (h : e.handled repr = ⟨true, none⟩) : InStep repr e where
  kept rest hrest := by
    rw [h] at hrest
    cases hrest
  closed _ := by
    rw [h]
    exact ⟨rfl, rfl⟩

/-- A framing by a coding that is not skipped is refused. -/
theorem refuseFraming_refused {fields : List (Str × Str)} {encoding : Str} {after : Bytes}
    (h : ¬ ∃ t rest, fieldValues fields "content-length" = [] ∧
      lower (strip isSpace encoding) = lit "chunked" ∧ after = t.text ++ rest ∧ Skippable t ∧
      t.size ≤ maxBodyBytes) :
    ∃ message, refuseFraming fields encoding after = .refused message := by
  rw [refuseFraming]
  by_cases hchunked : (headerGet fields "content-length").isNone = true ∧
      lower (strip isSpace encoding) = lit "chunked"
  · rw [if_pos hchunked]
    cases hskip : skipChunked after with
    | none => exact ⟨_, rfl⟩
    | some rest =>
      obtain ⟨t, hafter, hline, hsize⟩ := skipChunked_iff.1 hskip
      have hlength := headerGet_none.1 (Option.isNone_iff_eq_none.1 hchunked.1)
      exact (h ⟨t, rest, hlength, hchunked.2, hafter, hline, hsize⟩).elim
  · rw [if_neg hchunked]
    exact ⟨_, rfl⟩

/-- A request whose length is read. -/
theorem inStep_length_iff {e : Exchange} {declared : Str} {n : ℤ}
    (hversion : e.head.version ≠ .other) (hadmitted : e.serving.admitted = true)
    (hcoding : fieldValues e.head.fields "transfer-encoding" = [])
    (hget : headerGet e.head.fields "content-length" = some declared)
    (hn : intOfText declared = some n) (hpos : 0 ≤ n) (hbound : n ≤ maxBodyBytes) :
    InStep repr e ↔ combined e.head.fields "content-length" ≠ [] ∧
      ∃ m, ∀ element ∈ combined e.head.fields "content-length", IsLength m element := by
  have hhandled : e.handled repr = ⟨false, if e.head.close || e.serving.ends (e.after.take n.toNat)
      then none else some (e.after.drop n.toNat)⟩ := by
    rw [handled_served hversion hadmitted, consumeBody, headerGet_none.2 hcoding, hget]
    simp only [answer, hn, if_neg (show ¬ n < 0 by omega), if_neg (show ¬ n > maxBodyBytes by omega)]
  constructor
  · intro h
    by_contra hno
    obtain ⟨hrefused, -⟩ := h.closed fun ⟨frame, hframe⟩ => by
      cases hframe with
      | empty _ hlength => simp [headerGet_none.2 hlength] at hget
      | length _ hne hlengths => exact hno ⟨hne, _, hlengths⟩
      | chunked _ hlength _ _ _ => simp [headerGet_none.2 hlength] at hget
    simp [hhandled] at hrefused
  · rintro ⟨hne, m, hlengths⟩
    have hframe : e.FramedAs (.length m) := .length hcoding hne hlengths
    have hnm : n = m := by
      refine intOfText_length hn fun element helement => hlengths element ?_
      rw [headerGet_eq] at hget
      exact List.mem_flatMap.2 ⟨declared, List.mem_of_head? hget, helement⟩
    subst hnm
    refine ⟨fun rest hrest => ⟨.length m, hframe, ?_, ?_⟩, fun hno => (hno ⟨_, hframe⟩).elim⟩
    · exact Int.ofNat_le.1 hbound
    · rw [hhandled] at hrest
      simp only [Int.toNat_natCast] at hrest
      split at hrest
      · cases hrest
      · cases hrest
        by_cases hcut : e.after.length < m
        · exact .inr ⟨hcut, List.drop_eq_nil_of_le (by omega)⟩
        · refine .inl ⟨e.after.take m, List.length_take_of_le (by omega), ?_⟩
          exact (List.take_append_drop m e.after).symm

/-- A request whose chunked body is skipped. -/
theorem inStep_chunked_iff {e : Exchange} {encoding : Str} {t : ChunkedText} {rest : Bytes}
    (hversion : e.head.version ≠ .other) (hadmitted : e.serving.admitted = true)
    (hget : headerGet e.head.fields "transfer-encoding" = some encoding)
    (hlength : fieldValues e.head.fields "content-length" = [])
    (hcoding : lower (strip isSpace encoding) = lit "chunked") (hafter : e.after = t.text ++ rest)
    (hskip : Skippable t) (hsize : t.size ≤ maxBodyBytes) :
    InStep repr e ↔ e.head.version = .http11 ∧
      (combined e.head.fields "transfer-encoding").map lower = [lit "chunked"] ∧ WellFormed t := by
  have hhandled : e.handled repr = ⟨true, some rest⟩ := by
    rw [handled_served hversion hadmitted, consumeBody, hget]
    simp only [answer, refuseFraming, headerGet_none.2 hlength, hcoding, Option.isNone_none, and_self,
      if_true, skipChunked_iff.2 ⟨t, hafter, hskip, hsize⟩]
  constructor
  · intro h
    by_contra hno
    obtain ⟨-, hclosed⟩ := h.closed fun ⟨frame, hframe⟩ => by
      cases hframe with
      | empty hnone => simp [headerGet_none.2 hnone] at hget
      | length hnone => simp [headerGet_none.2 hnone] at hget
      | @chunked t' rest' hchunks _ hcodings hwell hafter' =>
        obtain ⟨rfl, -⟩ := hskip.lined.unique (wellFormed_lined hwell) (hafter.symm.trans hafter')
        exact hno ⟨of_decide_eq_true hchunks, hcodings, hwell⟩
    simp [hhandled] at hclosed
  · rintro ⟨hchunks, hcodings, hwell⟩
    have hframe : e.FramedAs (.chunked t) :=
      .chunked (decide_eq_true hchunks) hlength hcodings hwell hafter
    refine ⟨fun rest' hrest => ⟨.chunked t, hframe, hsize, .inl ?_⟩,
      fun hno => (hno ⟨_, hframe⟩).elim⟩
    rw [hhandled] at hrest
    cases hrest
    exact hafter

/-- **One request**: it is in step exactly where its framing is plain. -/
theorem inStep_iff {e : Exchange} : InStep repr e ↔ Plain e := by
  by_cases hserved : e.head.version = .other ∨ e.serving.admitted = false
  · refine iff_of_true (inStep_refused (handled_unserved hserved)) fun hversion hadmitted => ?_
    rcases hserved with h | h
    · exact (hversion h).elim
    · simp [hadmitted] at h
  simp only [not_or, Bool.not_eq_false] at hserved
  obtain ⟨hversion, hadmitted⟩ := hserved
  have hplain : Plain e ↔ LengthsPlain e.head.fields ∧ ChunksPlain e :=
    ⟨fun h => h hversion hadmitted, fun h _ _ => h⟩
  rw [hplain]
  cases hencoding : headerGet e.head.fields "transfer-encoding" with
  | some encoding =>
    have hlengths : LengthsPlain e.head.fields := by
      intro declared n hnone
      simp [headerGet_none.2 hnone] at hencoding
    by_cases hskipped : ∃ t rest, fieldValues e.head.fields "content-length" = [] ∧
        lower (strip isSpace encoding) = lit "chunked" ∧ e.after = t.text ++ rest ∧ Skippable t ∧
        t.size ≤ maxBodyBytes
    · obtain ⟨t, rest, hlength, hcoding, hafter, hskip, hsize⟩ := hskipped
      rw [inStep_chunked_iff hversion hadmitted hencoding hlength hcoding hafter hskip hsize]
      constructor
      · refine fun h => ⟨hlengths, ?_⟩
        intro encoding' t' rest' _ _ _ hafter' hskip' _
        obtain ⟨rfl, -⟩ := hskip.lined.unique hskip'.lined (hafter.symm.trans hafter')
        exact h
      · exact fun h => h.2 encoding t rest hencoding hlength hcoding hafter hskip hsize
    · refine iff_of_true (inStep_refused ?_) ⟨hlengths, ?_⟩
      · obtain ⟨message, hrefused⟩ := refuseFraming_refused hskipped
        rw [handled_served hversion hadmitted, consumeBody, hencoding]
        simp only [hrefused, answer]
      · intro encoding' t rest hget hlength hcoding hafter hskip hsize
        rw [hencoding] at hget
        cases hget
        exact (hskipped ⟨t, rest, hlength, hcoding, hafter, hskip, hsize⟩).elim
  | none =>
    have hnone := headerGet_none.1 hencoding
    have hchunks : ChunksPlain e := by
      intro encoding t rest hget
      rw [hencoding] at hget
      cases hget
    by_cases hread : ∃ declared n, headerGet e.head.fields "content-length" = some declared ∧
        intOfText declared = some n ∧ 0 ≤ n ∧ n ≤ maxBodyBytes
    · obtain ⟨declared, n, hget, hn, hpos, hbound⟩ := hread
      rw [inStep_length_iff hversion hadmitted hnone hget hn hpos hbound]
      constructor
      · exact fun h => ⟨fun _ _ _ _ _ _ _ => h, hchunks⟩
      · exact fun h => h.1 declared n hnone hget hn hpos hbound
    · refine iff_of_true ?_ ⟨?_, hchunks⟩
      · cases hget : headerGet e.head.fields "content-length" with
        | none =>
          have hframe : e.FramedAs (.length 0) := .empty hnone (headerGet_none.1 hget)
          refine ⟨fun rest hrest => ⟨.length 0, hframe, Nat.zero_le _, .inl ⟨[], rfl, ?_⟩⟩,
            fun hno => (hno ⟨_, hframe⟩).elim⟩
          rw [handled_served hversion hadmitted, consumeBody, hencoding, hget] at hrest
          simp only [answer] at hrest
          split at hrest
          · cases hrest
          · cases hrest
            rfl
        | some declared =>
          refine inStep_refused ?_
          rw [handled_served hversion hadmitted, consumeBody, hencoding, hget]
          simp only
          cases hn : intOfText declared with
          | none => rfl
          | some n =>
            simp only
            by_cases hneg : n < 0
            · rw [if_pos hneg]
              rfl
            · by_cases hover : n > maxBodyBytes
              · rw [if_neg hneg, if_pos hover]
                rfl
              · exact (hread ⟨declared, n, hget, hn, by omega, by omega⟩).elim
      · intro declared n _ hget hn hpos hbound
        exact (hread ⟨declared, n, hget, hn, hpos, hbound⟩).elim

/-! ## A connection -/

/-- The messages of a stream, each next one read behind the body of the one before it. -/
inductive Messages (reader : HeadReader) : Bytes → List Head → Prop
  | none {s} : Messages reader s []
  | last {s head after} : reader.head s = some (head, after) → Messages reader s [head]
  | next {s head after frame rest more} : reader.head s = some (head, after) →
      Frames (head.version = .http11) head.fields after frame → frame.Takes after rest →
      Messages reader rest more → Messages reader s (head :: more)

/-- No request is read of a stream that has ended. -/
theorem Run.ended {reader : HeadReader} {es : List Exchange} (h : Run repr reader [] es) :
    es = [] := by
  cases h with
  | idle => rfl
  | closed hhead => simp [reader.ended] at hhead
  | kept hhead => simp [reader.ended] at hhead

/-- **In step throughout**: where every request is in step, the requests are the messages of the
stream. -/
theorem Run.messages {reader : HeadReader} {s : Bytes} {es : List Exchange}
    (h : Run repr reader s es) (hstep : ∀ e ∈ es, InStep repr e) :
    Messages reader s (es.map (·.head)) := by
  induction h with
  | idle => exact .none
  | closed hhead => exact .last hhead
  | @kept s e rest more hhead hrest hrun ih =>
    obtain ⟨he, hmore⟩ := List.forall_mem_cons.1 hstep
    obtain ⟨frame, hframe, -, htakes | ⟨-, rfl⟩⟩ := he.kept rest hrest
    · exact .next hhead hframe htakes (ih hmore)
    · rw [hrun.ended]
      exact .last hhead

/-- The bytes of a text. -/
def asciiBytes (s : String) : Bytes := (lit s).map UInt8.ofNat

/-- A request of these fields, served to its end. -/
def sampleExchange (version : Version) (fields : List (Str × Str)) (after : Bytes) : Exchange :=
  ⟨⟨version, fields, false⟩, after, ⟨true, fun _ => false⟩⟩

def sampleText : Bytes := asciiBytes "GET /whoami HTTP/1.1\r\nContent-Length: 2\r\n\r\n"

/-- A request with a body of two bytes. -/
def sampleRequest (after : Bytes) : Exchange :=
  sampleExchange .http11 [(lit "Content-Length", lit "2")] after

/-- The base handler, on streams of such requests. -/
def sampleReader : HeadReader where
  head s :=
    if sampleText.isPrefixOf s then
      some ((sampleRequest []).head, s.drop sampleText.length)
    else none
  ended := by decide

theorem lastChunk_skippable {chunks : List (Bytes × Bytes)} {trailers : List Bytes}
    (hchunks : ∀ c ∈ chunks, (Ended c.1 ∧ sizeOf c.1 = some c.2.length ∧ c.2 ≠ []) ∧
      c.1.length ≤ maxFramingLine)
    (h : ∀ line ∈ trailers, (Ended line ∧ ¬ IsEnd line) ∧ line.length ≤ maxFramingLine) :
    Skippable ⟨chunks, asciiBytes "0\r\n", trailers, asciiBytes "\r\n"⟩ where
  lined :=
    ⟨fun c hc => (hchunks c hc).1, ⟨⟨asciiBytes "0\r", rfl, by decide⟩, rfl⟩,
      fun line hline => (h line hline).1, .inl rfl⟩
  short :=
    ⟨fun c hc => (hchunks c hc).2, of_decide_eq_true rfl, fun line hline => (h line hline).2⟩

end SayFirst.Plane
