import SayFirst.Lib.Utf8
import Mathlib.Data.List.SplitBy

/-!
# Percent-encoded text (`urllib.parse`)

A text is written into a URL by its UTF-8 bytes, each byte that is not always safe as a percent
sign and two digits. It is read back run by run: the bytes an ASCII run stands for are decoded
together, and what is no UTF-8 of them becomes the replacement character.

* `decodeReplace_utf8` — the bytes of a text decode to it.
* `unquote_quote`, `unquote_quotePlus` — what was quoted reads back.
* `parseQsl_urlencode` — so does a query.
-/

namespace SayFirst.Py

/-! ## Decoding (`bytes.decode("utf-8", "replace")`) -/

/-- What a first byte announces: how many bytes follow, and the bounds of the next one. -/
def announces (b : ℕ) : Option (ℕ × ℕ × ℕ) :=
  if 0xC2 ≤ b ∧ b ≤ 0xDF then some (1, 0x80, 0xBF)
  else if b = 0xE0 then some (2, 0xA0, 0xBF)
  else if b = 0xED then some (2, 0x80, 0x9F)
  else if 0xE1 ≤ b ∧ b ≤ 0xEF then some (2, 0x80, 0xBF)
  else if b = 0xF0 then some (3, 0x90, 0xBF)
  else if 0xF1 ≤ b ∧ b ≤ 0xF3 then some (3, 0x80, 0xBF)
  else if b = 0xF4 then some (3, 0x80, 0x8F)
  else none

/-- The bits a first byte carries. -/
def firstBits (more b : ℕ) : ℕ := b % 2 ^ (6 - more)

/-- The bytes behind a first one: the code point where they are all there, and the rest. -/
def following : ℕ → ℕ → ℕ → ℕ → Bytes → Option ℕ × Bytes
  | 0, _, _, acc, s => (some acc, s)
  | _ + 1, _, _, _, [] => (none, [])
  | more + 1, low, high, acc, b :: s =>
    if low ≤ b.toNat ∧ b.toNat ≤ high then
      following more 0x80 0xBF (acc * 64 + b.toNat % 64) s
    -- The byte that breaks off is not taken: the decoder goes on with it.
    else (none, b :: s)

/-- The decoder: a sequence that breaks off is replaced up to where it does. -/
def decodeFrom : ℕ → Bytes → Str
  | 0, _ => []
  | _ + 1, [] => []
  | fuel + 1, b :: s =>
    if b.toNat < 0x80 then b.toNat :: decodeFrom fuel s
    else
      match announces b.toNat with
      | none => 0xFFFD :: decodeFrom fuel s
      | some (more, low, high) =>
        let (code, rest) := following more low high (firstBits more b.toNat) s
        code.getD 0xFFFD :: decodeFrom fuel rest

/-- `raw.decode("utf-8", "replace")` -/
def decodeReplace (raw : Bytes) : Str := decodeFrom raw.length raw

theorem toNat_ofNat {n : ℕ} (h : n < 256) : (UInt8.ofNat n).toNat = n := by
  rw [UInt8.toNat_ofNat']
  omega

/-- A byte that continues what was announced. -/
theorem following_cons {more low high acc n : ℕ} {s : Bytes} (hlow : low ≤ n) (hhigh : n ≤ high)
    (hn : n < 256) : following (more + 1) low high acc (.ofNat n :: s) =
      following more 0x80 0xBF (acc * 64 + n % 64) s := by
  rw [following, toNat_ofNat hn, if_pos ⟨hlow, hhigh⟩]

theorem decodeFrom_ascii {n : ℕ} (h : n < 0x80) (fuel : ℕ) (s : Bytes) :
    decodeFrom (fuel + 1) (.ofNat n :: s) = n :: decodeFrom fuel s := by
  rw [decodeFrom, toNat_ofNat (by omega), if_pos h]

theorem decodeFrom_announced {n c more low high : ℕ} {s rest : Bytes} (fuel : ℕ)
    (hn : n < 256) (hannounces : announces n = some (more, low, high))
    (hrest : following more low high (firstBits more n) s = (some c, rest)) :
    decodeFrom (fuel + 1) (.ofNat n :: s) = c :: decodeFrom fuel rest := by
  have hfirst : ¬n < 0x80 := by
    intro hsmall
    unfold announces at hannounces
    split_ifs at hannounces <;> omega
  rw [decodeFrom, toNat_ofNat hn, if_neg hfirst, hannounces]
  simp only [hrest, Option.getD_some]

/-- What the first of three bytes announces lets in the second one: the narrower bounds keep out
what two bytes write, and the surrogates. -/
theorem announces_three {c : ℕ} (hc : 0x800 ≤ c ∧ c < 0x10000)
    (hplain : ¬(0xD800 ≤ c ∧ c < 0xE000)) :
    ∃ low high, announces (0xE0 + c / 4096) = some (2, low, high) ∧
      low ≤ 0x80 + c / 64 % 64 ∧ 0x80 + c / 64 % 64 ≤ high := by
  by_cases hzero : c / 4096 = 0
  · -- `0xE0`: anything below 0xA0 would be short enough for two bytes.
    exact ⟨0xA0, 0xBF, by rw [hzero]; rfl, by omega, by omega⟩
  · by_cases hlast : c / 4096 = 13
    · -- `0xED`: from 0xA0 on it would be a surrogate, which no text is encoded with.
      exact ⟨0x80, 0x9F, by rw [hlast]; rfl, by omega, by omega⟩
    · refine ⟨0x80, 0xBF, ?_, by omega, by omega⟩
      rw [announces, if_neg (by omega), if_neg (by omega), if_neg (by omega), if_pos (by omega)]

/-- The same of the first of four: what three bytes write is kept out, and what is no code point. -/
theorem announces_four {c : ℕ} (hc : 0x10000 ≤ c ∧ c < 0x110000) :
    ∃ low high, announces (0xF0 + c / 262144) = some (3, low, high) ∧
      low ≤ 0x80 + c / 4096 % 64 ∧ 0x80 + c / 4096 % 64 ≤ high := by
  by_cases hzero : c / 262144 = 0
  · exact ⟨0x90, 0xBF, by rw [hzero]; rfl, by omega, by omega⟩
  · by_cases hlast : c / 262144 = 4
    · exact ⟨0x80, 0x8F, by rw [hlast]; rfl, by omega, by omega⟩
    · refine ⟨0x80, 0xBF, ?_, by omega, by omega⟩
      rw [announces, if_neg (by omega), if_neg (by omega), if_neg (by omega), if_neg (by omega),
        if_neg (by omega), if_pos (by omega)]

/-- One character reads back in front of anything. -/
theorem decodeFrom_utf8Char {c : ℕ} {b : Bytes} (h : utf8Char c = some b) (fuel : ℕ)
    (rest : Bytes) : decodeFrom (fuel + 1) (b ++ rest) = c :: decodeFrom fuel rest := by
  have hplain : ¬(0xD800 ≤ c ∧ c < 0xE000) := by
    intro hsurrogate
    rw [utf8Char, if_neg (by omega), if_neg (by omega), if_pos hsurrogate] at h
    cases h
  rcases utf8Char_some h with ⟨hc, rfl⟩ | ⟨hc, rfl⟩ | ⟨hc, rfl⟩ | ⟨hc, rfl⟩
  · exact decodeFrom_ascii hc fuel rest
  · have hannounces : announces (0xC0 + c / 64) = some (1, 0x80, 0xBF) := by
      rw [announces, if_pos (by omega)]
    refine decodeFrom_announced fuel (by omega) hannounces ?_
    show following 1 0x80 0xBF _ (.ofNat (0x80 + c % 64) :: rest) = _
    rw [following_cons (by omega) (by omega) (by omega), following, firstBits]
    have hcode : (0xC0 + c / 64) % 2 ^ (6 - 1) * 64 + (0x80 + c % 64) % 64 = c := by omega
    rw [hcode]
  · obtain ⟨low, high, hannounces, hlow, hhigh⟩ := announces_three hc hplain
    refine decodeFrom_announced fuel (by omega) hannounces ?_
    show following 2 low high _ (.ofNat (0x80 + c / 64 % 64) :: .ofNat (0x80 + c % 64) :: rest) = _
    rw [following_cons hlow hhigh (by omega), following_cons (by omega) (by omega) (by omega),
      following, firstBits]
    have hcode : ((0xE0 + c / 4096) % 2 ^ (6 - 2) * 64 + (0x80 + c / 64 % 64) % 64) * 64 +
        (0x80 + c % 64) % 64 = c := by
      omega
    rw [hcode]
  · obtain ⟨low, high, hannounces, hlow, hhigh⟩ := announces_four hc
    refine decodeFrom_announced fuel (by omega) hannounces ?_
    show following 3 low high _ (.ofNat (0x80 + c / 4096 % 64) :: .ofNat (0x80 + c / 64 % 64) ::
      .ofNat (0x80 + c % 64) :: rest) = _
    rw [following_cons hlow hhigh (by omega), following_cons (by omega) (by omega) (by omega),
      following_cons (by omega) (by omega) (by omega), following, firstBits]
    have hcode : (((0xF0 + c / 262144) % 2 ^ (6 - 3) * 64 + (0x80 + c / 4096 % 64) % 64) * 64 +
        (0x80 + c / 64 % 64) % 64) * 64 + (0x80 + c % 64) % 64 = c := by
      omega
    rw [hcode]

theorem decodeFrom_utf8 {s : Str} : ∀ {raw : Bytes}, utf8 s = some raw →
    ∀ fuel, s.length ≤ fuel → decodeFrom fuel raw = s := by
  induction s with
  | nil =>
    intro raw h fuel _
    obtain rfl : raw = [] := (Option.some.inj h).symm
    cases fuel <;> rfl
  | cons c s ih =>
    intro raw h fuel hfuel
    obtain ⟨b, bs, hc, hs, rfl⟩ := utf8_cons h
    obtain ⟨fuel, rfl⟩ : ∃ n, fuel = n + 1 := ⟨fuel - 1, by
      rw [List.length_cons] at hfuel
      omega⟩
    rw [decodeFrom_utf8Char hc, ih hs fuel (by simpa using hfuel)]

/-- **The bytes of a text decode to it.** -/
theorem decodeReplace_utf8 {s : Str} {raw : Bytes} (h : utf8 s = some raw) :
    decodeReplace raw = s :=
  decodeFrom_utf8 h _ (length_le_of_utf8 h)

/-! ## Quoting -/

/-- `_ALWAYS_SAFE` -/
def alwaysSafe (c : ℕ) : Bool :=
  isUpper c || isLower c || isDigit c || c == 95 || c == 46 || c == 45 || c == 126

/-- A hexadecimal digit, as `{:X}` writes it. -/
def hexUpper (n : ℕ) : ℕ := if n < 10 then 48 + n else 55 + n

/-- `"%{:02X}".format(b)` -/
def percent (b : UInt8) : Str := [37, hexUpper (b.toNat / 16), hexUpper (b.toNat % 16)]

/-- `Quoter` with no safe characters of its own. -/
def quoteByte (b : UInt8) : Str := if alwaysSafe b.toNat then [b.toNat] else percent b

/-- `quote(text, safe="")`; none where the encoding raises. -/
def quote (s : Str) : Option Str := (utf8 s).map (·.flatMap quoteByte)

/-- A byte of `quote_plus`. -/
def plusByte (b : UInt8) : Str := if b = 32 then [43] else quoteByte b

/-- `quote_plus(text)`; none where the encoding raises. -/
def quotePlus (s : Str) : Option Str := (utf8 s).map (·.flatMap plusByte)

/-- A hexadecimal digit of either case. -/
def hexOf (c : ℕ) : Option ℕ :=
  if 48 ≤ c ∧ c ≤ 57 then some (c - 48)
  else if 65 ≤ c ∧ c ≤ 70 then some (c - 55)
  else if 97 ≤ c ∧ c ≤ 102 then some (c - 87)
  else none

/-- `unquote_to_bytes` of ASCII text. -/
def unquoteToBytes : Str → Bytes
  | [] => []
  | 37 :: a :: b :: s =>
    match hexOf a, hexOf b with
    | some m, some n => .ofNat (16 * m + n) :: unquoteToBytes s
    -- Without two digits the percent sign stands for itself, and what follows is read on.
    | _, _ => 37 :: unquoteToBytes (a :: b :: s)
  | c :: s => .ofNat c :: unquoteToBytes s

/-- A run of `_generate_unquoted_parts`: ASCII is decoded, the rest stands. -/
def unquotePart (run : Str) : Str :=
  if run.all (· < 0x80) then decodeReplace (unquoteToBytes run) else run

/-- `unquote(text)` -/
def unquote (s : Str) : Str :=
  (s.splitBy fun c d => decide (c < 0x80) == decide (d < 0x80)).flatMap unquotePart

theorem hexOf_hexUpper {n : ℕ} (h : n < 16) : hexOf (hexUpper n) = some n := by
  unfold hexOf hexUpper
  by_cases hdigit : n < 10
  · rw [if_pos hdigit, if_pos (by omega)]
    congr 1
    omega
  · rw [if_neg hdigit, if_neg (by omega), if_pos (by omega)]
    congr 1
    omega

/-- A character that is no percent sign stands for itself. -/
theorem unquoteToBytes_cons {c : ℕ} (h : c ≠ 37) (s : Str) :
    unquoteToBytes (c :: s) = .ofNat c :: unquoteToBytes s := by
  rw [unquoteToBytes]
  rintro a b t rfl
  exact absurd rfl h

theorem unquoteToBytes_percent (b : UInt8) (s : Str) :
    unquoteToBytes (percent b ++ s) = b :: unquoteToBytes s := by
  have hb := b.toNat_lt
  show unquoteToBytes (37 :: hexUpper (b.toNat / 16) :: hexUpper (b.toNat % 16) :: s) = _
  rw [unquoteToBytes, hexOf_hexUpper (by omega), hexOf_hexUpper (by omega)]
  have hvalue : 16 * (b.toNat / 16) + b.toNat % 16 = b.toNat := by omega
  simp only [hvalue, UInt8.ofNat_toNat]

/-- A safe character is ASCII, and none of the marks of a URL. -/
theorem alwaysSafe_bounds {c : ℕ} (h : alwaysSafe c = true) :
    45 ≤ c ∧ c < 127 ∧ c ≠ 47 ∧ c ≠ 61 ∧ c ≠ 63 := by
  simp only [alwaysSafe, isUpper, isLower, isDigit, Bool.or_eq_true, Bool.and_eq_true,
    decide_eq_true_eq, beq_iff_eq] at h
  omega

theorem unquoteToBytes_quoteByte (b : UInt8) (s : Str) :
    unquoteToBytes (quoteByte b ++ s) = b :: unquoteToBytes s := by
  unfold quoteByte
  by_cases hsafe : alwaysSafe b.toNat = true
  · have hbounds := alwaysSafe_bounds hsafe
    rw [if_pos hsafe, List.singleton_append, unquoteToBytes_cons (by omega), UInt8.ofNat_toNat]
  · rw [if_neg hsafe, unquoteToBytes_percent]

theorem unquoteToBytes_flatMap (raw : Bytes) :
    unquoteToBytes (raw.flatMap quoteByte) = raw := by
  induction raw with
  | nil => rfl
  | cons b raw ih => rw [List.flatMap_cons, unquoteToBytes_quoteByte, ih]

theorem hexUpper_bounds {n : ℕ} (h : n < 16) :
    48 ≤ hexUpper n ∧ hexUpper n ≤ 70 ∧ hexUpper n ≠ 61 ∧ hexUpper n ≠ 63 := by
  unfold hexUpper
  split_ifs <;> omega

/-- What is written of a byte is ASCII behind the hash, and of the marks of a URL the percent sign
alone. -/
theorem quoteByte_bounds {b : UInt8} {c : ℕ} (h : c ∈ quoteByte b) :
    37 ≤ c ∧ c < 127 ∧ c ≠ 38 ∧ c ≠ 43 ∧ c ≠ 47 ∧ c ≠ 61 ∧ c ≠ 63 := by
  have hb := b.toNat_lt
  unfold quoteByte at h
  split_ifs at h with hsafe
  · obtain rfl := List.mem_singleton.1 h
    have := alwaysSafe_bounds hsafe
    omega
  · have hfirst := hexUpper_bounds (n := b.toNat / 16) (by omega)
    have hsecond := hexUpper_bounds (n := b.toNat % 16) (by omega)
    simp only [percent, List.mem_cons, List.not_mem_nil, or_false] at h
    omega

theorem quote_bounds {s q : Str} (h : quote s = some q) {c : ℕ} (hc : c ∈ q) :
    37 ≤ c ∧ c < 127 ∧ c ≠ 38 ∧ c ≠ 43 ∧ c ≠ 47 ∧ c ≠ 61 ∧ c ≠ 63 := by
  obtain ⟨raw, -, rfl⟩ := Option.map_eq_some_iff.1 h
  obtain ⟨b, -, hmem⟩ := List.mem_flatMap.1 hc
  exact quoteByte_bounds hmem

/-- ASCII is one run. -/
theorem unquote_of_ascii {s : Str} (h : ∀ c ∈ s, c < 0x80) :
    unquote s = decodeReplace (unquoteToBytes s) := by
  by_cases hs : s = []
  · rw [hs]
    rfl
  · have hrun : s.IsChain fun c d => decide (c < 0x80) == decide (d < 0x80) := by
      apply List.Pairwise.isChain
      apply List.pairwise_of_forall_mem_list
      intro c hc d hd
      simp [h c hc, h d hd]
    rw [unquote, List.splitBy_of_isChain hs hrun, List.flatMap_singleton, unquotePart, if_pos]
    simpa using h

example : unquote (lit "a%e2%82%AC%zz%E0%80%C3") =
    lit "a" ++ 0x20AC :: lit "%zz" ++ [0xFFFD, 0xFFFD, 0xFFFD] := by decide

/-- **What was quoted reads back.** -/
theorem unquote_quote {s q : Str} (h : quote s = some q) : unquote q = s := by
  have hascii : ∀ c ∈ q, c < 0x80 := by
    intro c hc
    have := quote_bounds h hc
    omega
  obtain ⟨raw, hraw, rfl⟩ := Option.map_eq_some_iff.1 h
  rw [unquote_of_ascii hascii, unquoteToBytes_flatMap, decodeReplace_utf8 hraw]

/-! ## Queries -/

/-- `k + "=" + v` of `urlencode`. -/
def queryMember (m : Str × Str) : Option Str := do
  return (← quotePlus m.1) ++ 61 :: (← quotePlus m.2)

/-- `urlencode(members)` -/
def urlencode (members : List (Str × Str)) : Option Str :=
  (members.mapM queryMember).map ([38].intercalate ·)

/-- `text.replace("+", " ")` -/
def plusToSpace (c : ℕ) : ℕ := if c = 43 then 32 else c

/-- `unquote(text.replace("+", " "))` -/
def unquotePlus (s : Str) : Str := unquote (s.map plusToSpace)

/-- The name and the value of a part of a query. -/
def queryPart (part : Str) : Str × Str :=
  (unquotePlus (part.takeWhile (· ≠ 61)), unquotePlus ((part.dropWhile (· ≠ 61)).drop 1))

/-- `parse_qsl(query, keep_blank_values=True)` -/
def parseQsl (query : Str) : List (Str × Str) :=
  ((query.splitOn 38).filter (· ≠ [])).map queryPart

/-- The plus sign of a query is a mark as well, but neither of the two that part it. -/
theorem plusByte_bounds {b : UInt8} {c : ℕ} (h : c ∈ plusByte b) :
    37 ≤ c ∧ c < 127 ∧ c ≠ 38 ∧ c ≠ 61 := by
  unfold plusByte at h
  split_ifs at h
  · obtain rfl := List.mem_singleton.1 h
    omega
  · have := quoteByte_bounds h
    omega

theorem quotePlus_bounds {s q : Str} (h : quotePlus s = some q) {c : ℕ} (hc : c ∈ q) :
    37 ≤ c ∧ c < 127 ∧ c ≠ 38 ∧ c ≠ 61 := by
  obtain ⟨raw, -, rfl⟩ := Option.map_eq_some_iff.1 h
  obtain ⟨b, -, hmem⟩ := List.mem_flatMap.1 hc
  exact plusByte_bounds hmem

theorem unquoteToBytes_plusByte (b : UInt8) (s : Str) :
    unquoteToBytes ((plusByte b).map plusToSpace ++ s) = b :: unquoteToBytes s := by
  unfold plusByte
  by_cases hspace : b = 32
  · rw [if_pos hspace, hspace]
    show unquoteToBytes (32 :: s) = _
    rw [unquoteToBytes_cons (by omega)]
    rfl
  · have hkept : (quoteByte b).map plusToSpace = quoteByte b := by
      refine (List.map_congr_left fun c hc => ?_).trans (List.map_id' _)
      have hbounds := quoteByte_bounds hc
      rw [plusToSpace, if_neg (by omega)]
    rw [if_neg hspace, hkept, unquoteToBytes_quoteByte]

theorem unquoteToBytes_plus (raw : Bytes) :
    unquoteToBytes ((raw.flatMap plusByte).map plusToSpace) = raw := by
  induction raw with
  | nil => rfl
  | cons b raw ih => rw [List.flatMap_cons, List.map_append, unquoteToBytes_plusByte, ih]

theorem unquotePlus_quotePlus {s q : Str} (h : quotePlus s = some q) : unquotePlus q = s := by
  have hascii : ∀ c ∈ q.map plusToSpace, c < 0x80 := by
    intro d hd
    obtain ⟨c, hc, rfl⟩ := List.mem_map.1 hd
    have hbounds := quotePlus_bounds h hc
    unfold plusToSpace
    split_ifs <;> omega
  obtain ⟨raw, hraw, rfl⟩ := Option.map_eq_some_iff.1 h
  rw [unquotePlus, unquote_of_ascii hascii, unquoteToBytes_plus, decodeReplace_utf8 hraw]

theorem queryMember_some {m : Str × Str} {part : Str} (h : queryMember m = some part) :
    ∃ name value, quotePlus m.1 = some name ∧ quotePlus m.2 = some value ∧
      part = name ++ 61 :: value := by
  unfold queryMember at h
  obtain ⟨name, hname, h⟩ := Option.bind_eq_some_iff.1 h
  obtain ⟨value, hvalue, h⟩ := Option.bind_eq_some_iff.1 h
  exact ⟨name, value, hname, hvalue, (Option.some.inj h).symm⟩

/-- No ampersand stands in a part of a query. -/
theorem queryMember_bounds {m : Str × Str} {part : Str} (h : queryMember m = some part) {c : ℕ}
    (hc : c ∈ part) : 37 ≤ c ∧ c < 127 ∧ c ≠ 38 := by
  obtain ⟨name, value, hname, hvalue, rfl⟩ := queryMember_some h
  rcases List.mem_append.1 hc with hc | hc
  · have := quotePlus_bounds hname hc
    omega
  · rcases List.mem_cons.1 hc with rfl | hc
    · omega
    · have := quotePlus_bounds hvalue hc
      omega

/-- A member reads back: the first equals sign is the one behind its name. -/
theorem queryPart_queryMember {m : Str × Str} {part : Str} (h : queryMember m = some part) :
    queryPart part = m ∧ part ≠ [] := by
  obtain ⟨name, value, hname, hvalue, rfl⟩ := queryMember_some h
  have hbefore : ∀ c ∈ name, decide (c ≠ 61) = true := by
    intro c hc
    rw [decide_eq_true_eq]
    have := quotePlus_bounds hname hc
    omega
  have htake : (name ++ 61 :: value).takeWhile (· ≠ 61) = name := by
    rw [List.takeWhile_append_of_pos hbefore]
    simp
  have hdrop : (name ++ 61 :: value).dropWhile (· ≠ 61) = 61 :: value := by
    rw [List.dropWhile_append_of_pos hbefore]
    simp
  refine ⟨?_, by simp⟩
  rw [queryPart, htake, hdrop, List.drop_one, List.tail_cons, unquotePlus_quotePlus hname,
    unquotePlus_quotePlus hvalue]

theorem parts_of_mapM {members : List (Str × Str)} : ∀ {parts : List Str},
    members.mapM queryMember = some parts →
    List.Forall₂ (fun m part => queryMember m = some part) members parts := by
  induction members with
  | nil =>
    intro parts h
    obtain rfl : parts = [] := (Option.some.inj h).symm
    exact .nil
  | cons m members ih =>
    intro parts h
    rw [List.mapM_cons] at h
    obtain ⟨part, hpart, h⟩ := Option.bind_eq_some_iff.1 h
    obtain ⟨rest, hrest, h⟩ := Option.bind_eq_some_iff.1 h
    obtain rfl : parts = part :: rest := (Option.some.inj h).symm
    exact .cons hpart (ih hrest)

/-- No hash ends a query early. -/
theorem urlencode_bounds {members : List (Str × Str)} {q : Str} (h : urlencode members = some q)
    {c : ℕ} (hc : c ∈ q) : 37 ≤ c ∧ c < 127 := by
  obtain ⟨parts, hparts, rfl⟩ := Option.map_eq_some_iff.1 h
  have hall := parts_of_mapM hparts
  clear hparts h
  induction hall with
  | nil => cases hc
  | @cons m part members parts hpart hall ih =>
    have hbounds := fun c hc => queryMember_bounds (c := c) hpart hc
    cases parts with
    | nil =>
      have := hbounds c (by simpa using hc)
      omega
    | cons next parts =>
      -- Behind the part stands the ampersand, then what is joined of the rest.
      rw [List.intercalate_cons_cons] at hc
      rcases List.mem_append.1 hc with hc | hc
      · rcases List.mem_append.1 hc with hc | hc
        · have := hbounds c hc
          omega
        · obtain rfl := List.mem_singleton.1 hc
          omega
      · exact ih hc

/-- **A query reads back**, whatever its members are. -/
theorem parseQsl_urlencode {members : List (Str × Str)} {q : Str}
    (h : urlencode members = some q) : parseQsl q = members := by
  obtain ⟨parts, hparts, rfl⟩ := Option.map_eq_some_iff.1 h
  have hall := parts_of_mapM hparts
  clear hparts h
  have hread : (parts.filter (· ≠ [])).map queryPart = members := by
    induction hall with
    | nil => rfl
    | @cons m part members parts hpart hall ih =>
      obtain ⟨hpart, hne⟩ := queryPart_queryMember hpart
      rw [List.filter_cons_of_pos (by simpa using hne), List.map_cons, hpart, ih]
  have hsep : ∀ part ∈ parts, 38 ∉ part := by
    clear hread
    induction hall with
    | nil => intro part hmem; cases hmem
    | @cons m part members parts hpart hall ih =>
      intro other hmem
      rcases List.mem_cons.1 hmem with rfl | hmem
      · intro hamp
        have := queryMember_bounds hpart hamp
        omega
      · exact ih other hmem
  unfold parseQsl
  by_cases hnil : parts = []
  · subst hnil
    rw [← hread]
    rfl
  · rw [List.splitOn_intercalate 38 hsep hnil, hread]

end SayFirst.Py
