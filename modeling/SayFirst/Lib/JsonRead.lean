import SayFirst.Lib.JsonText

/-!
# Reading JSON (`json.loads`)

`loads` reads what the scanner of Python's `json` reads: strict strings, integers of
any length, floats by `float(text)` (a parameter), `NaN` and the infinities, and of a
member named twice the last.

* `readString_quote` — a string is read back from its escapes.
-/

namespace SayFirst.Py.Json

/-! ## The scanner -/

/-- `WHITESPACE.match` -/
def skipWs : Str → Str
  | c :: cs => if c = 32 ∨ c = 9 ∨ c = 10 ∨ c = 13 then skipWs cs else c :: cs
  | [] => []

def hexValue (c : ℕ) : Option ℕ :=
  if isDigit c then some (c - 48)
  else if 97 ≤ c ∧ c ≤ 102 then some (c - 87)
  else if 65 ≤ c ∧ c ≤ 70 then some (c - 55)
  else none

/-- `_decode_uXXXX` -/
def hexUnit (a b c d : ℕ) : Option ℕ :=
  match hexValue a, hexValue b, hexValue c, hexValue d with
  | some a, some b, some c, some d => some (a * 4096 + b * 256 + c * 16 + d)
  | _, _, _, _ => none

/-- `BACKSLASH` -/
def unescape (c : ℕ) : Option ℕ :=
  if c = 34 ∨ c = 92 ∨ c = 47 then some c
  else if c = 98 then some 8
  else if c = 102 then some 12
  else if c = 110 then some 10
  else if c = 114 then some 13
  else if c = 116 then some 9
  else none

def isHigh (c : ℕ) : Bool := 0xD800 ≤ c && c < 0xDC00
def isLow (c : ℕ) : Bool := 0xDC00 ≤ c && c < 0xE000

/-- An escaped code unit after a high one that is held back: what is read for certain, and what
is held back now. -/
def joinUnit (held : Option ℕ) (unit : ℕ) : Str × Option ℕ :=
  match held with
  | some high =>
    if isLow unit then ([0x10000 + (high - 0xD800) * 1024 + (unit - 0xDC00)], none)
    else if isHigh unit then ([high], some unit)
    else ([high, unit], none)
  | none => if isHigh unit then ([], some unit) else ([unit], none)

/-- What stands behind an opening quote: the string and what follows its closing quote. A high
surrogate that was escaped is held back, for a low one may follow. -/
def readString (held : Option ℕ) : Str → Option (Str × Str)
  | [] => none
  | 34 :: rest => some (held.toList, rest)
  | 92 :: 117 :: a :: b :: c :: d :: rest =>
    match hexUnit a b c d with
    | none => none
    | some unit =>
      (readString (joinUnit held unit).2 rest).map fun r => ((joinUnit held unit).1 ++ r.1, r.2)
  | 92 :: c :: rest =>
    match unescape c with
    | none => none
    | some c => (readString none rest).map fun r => (held.toList ++ c :: r.1, r.2)
  | c :: rest =>
    if c < 32 then none else (readString none rest).map fun r => (held.toList ++ c :: r.1, r.2)

/-- `int(text)` of decimal digits. -/
def digitsValue (digits : Str) : ℕ := digits.foldl (fun n c => 10 * n + (c - 48)) 0

/-- The fraction a number goes on with. -/
def readFraction : Str → Str × Str
  | 46 :: s =>
    if (s.takeWhile isDigit).isEmpty then ([], 46 :: s)
    else (46 :: s.takeWhile isDigit, s.dropWhile isDigit)
  | s => ([], s)

/-- The exponent a number goes on with. -/
def readExponent : Str → Str × Str
  | [] => ([], [])
  | e :: s =>
    if e = 101 ∨ e = 69 then
      let sign := s.take (if s.head? = some 43 ∨ s.head? = some 45 then 1 else 0)
      let digits := (s.drop sign.length).takeWhile isDigit
      if digits.isEmpty then ([], e :: s)
      else (e :: sign ++ digits, (s.drop sign.length).dropWhile isDigit)
    else ([], e :: s)

/-- `_match_number`, from behind the sign. -/
def readNumeral (float : Str → PyFloat) (negative : Bool) (s : Str) : Option (Json × Str) :=
  let whole := if s.head? = some 48 then [48] else s.takeWhile isDigit
  if whole.isEmpty then none
  else
    let fraction := readFraction (s.drop whole.length)
    let exponent := readExponent fraction.2
    if fraction.1.isEmpty && exponent.1.isEmpty then
      some (.int (if negative then -(digitsValue whole : ℤ) else digitsValue whole), exponent.2)
    else
      some (.float (float ((if negative then [45] else []) ++ whole ++ fraction.1 ++ exponent.1)),
        exponent.2)

/-- A number, with its sign. -/
def readNumber (float : Str → PyFloat) : Str → Option (Json × Str)
  | 45 :: s => readNumeral float true s
  | s => readNumeral float false s

/-- `d[key] = value` -/
def setItem (members : List (Str × Json)) (key : Str) (value : Json) : List (Str × Json) :=
  if members.any (·.1 == key) then members.map fun m => if m.1 = key then (key, value) else m
  else members ++ [(key, value)]

/-- `dict(pairs)` -/
def dict (pairs : List (Str × Json)) : List (Str × Json) :=
  pairs.foldl (fun d p => setItem d p.1 p.2) []

/-- What `text` begins with, when it is the literal. -/
def afterLiteral (literal : String) (s : Str) : Option Str :=
  if (lit literal).isPrefixOf s then some (s.drop (lit literal).length) else none

/-- The constants, and the numbers. -/
def readScalar (float : Str → PyFloat) (s : Str) : Option (Json × Str) :=
  match afterLiteral "null" s, afterLiteral "true" s, afterLiteral "false" s,
    afterLiteral "NaN" s, afterLiteral "Infinity" s, afterLiteral "-Infinity" s with
  | some rest, _, _, _, _, _ => some (.null, rest)
  | _, some rest, _, _, _, _ => some (.bool true, rest)
  | _, _, some rest, _, _, _ => some (.bool false, rest)
  | _, _, _, some rest, _, _ => some (.float .nan, rest)
  | _, _, _, _, some rest, _ => some (.float (.infinite false), rest)
  | _, _, _, _, _, some rest => some (.float (.infinite true), rest)
  | _, _, _, _, _, _ => readNumber float s

mutual

/-- `scan_once`; the first argument bounds the nesting. -/
def readValue (float : Str → PyFloat) : ℕ → Str → Option (Json × Str)
  | 0, _ => none
  | n + 1, s =>
    match s with
    | 34 :: rest => (readString none rest).map fun r => (.str r.1, r.2)
    | 123 :: rest =>
      match skipWs rest with
      | 125 :: rest => some (.obj [], rest)
      | inner => (readMembers float n inner).map fun r => (.obj (dict r.1), r.2)
    | 91 :: rest =>
      match skipWs rest with
      | 93 :: rest => some (.arr [], rest)
      | inner => (readItems float n inner).map fun r => (.arr r.1, r.2)
    | s => readScalar float s

/-- The items of an array, and its closing bracket. -/
def readItems (float : Str → PyFloat) : ℕ → Str → Option (List Json × Str)
  | 0, _ => none
  | n + 1, s =>
    match readValue float n s with
    | none => none
    | some (value, rest) =>
      match skipWs rest with
      | 93 :: rest => some ([value], rest)
      | 44 :: rest => (readItems float n (skipWs rest)).map fun r => (value :: r.1, r.2)
      | _ => none

/-- The members of an object, and its closing brace. -/
def readMembers (float : Str → PyFloat) : ℕ → Str → Option (List (Str × Json) × Str)
  | 0, _ => none
  | n + 1, s =>
    match s with
    | 34 :: s =>
      match readString none s with
      | none => none
      | some (key, rest) =>
        match skipWs rest with
        | 58 :: rest =>
          match readValue float n (skipWs rest) with
          | none => none
          | some (value, rest) =>
            match skipWs rest with
            | 125 :: rest => some ([(key, value)], rest)
            | 44 :: rest =>
              (readMembers float n (skipWs rest)).map fun r => ((key, value) :: r.1, r.2)
            | _ => none
        | _ => none
    | _ => none

end

/-- `json.loads(text)`; none where it raises `JSONDecodeError`. -/
def loads (float : Str → PyFloat) (s : Str) : Option Json :=
  match readValue float (2 * s.length + 1) (skipWs s) with
  | some (value, rest) => if skipWs rest = [] then some value else none
  | none => none

example : (loads (fun _ => .nan) (lit " \x7b\"b\": [1, -20], \"a\": \"x\\u00e9\\n\", \"b\": null\x7d ")).map
    (dumps fun _ => []) = some (lit "\x7b\"a\":\"x\\u00e9\\n\",\"b\":null\x7d") := by decide +kernel

/-! ## Strings -/

/-- A text of code points without a surrogate pair: what `json` writes of one reads as the
character it stands for. -/
def spelled : Str → Bool
  | [] => true
  | c :: rest => c < 0x110000 && !(isHigh c && rest.head?.any isLow) && spelled rest

theorem hexValue_hexDigit {k : ℕ} (h : k < 16) : hexValue (hexDigit k) = some k := by
  unfold hexValue hexDigit isDigit
  split
  · rw [if_pos (by simp; omega)]
    congr 1
    omega
  · rw [if_neg (by simp; omega), if_pos (by omega)]
    congr 1
    omega

theorem hexUnit_hex4 {c : ℕ} (h : c < 0x10000) :
    hexUnit (hexDigit (c / 4096 % 16)) (hexDigit (c / 256 % 16)) (hexDigit (c / 16 % 16))
      (hexDigit (c % 16)) = some c := by
  unfold hexUnit
  rw [hexValue_hexDigit (Nat.mod_lt _ (by omega)), hexValue_hexDigit (Nat.mod_lt _ (by omega)),
    hexValue_hexDigit (Nat.mod_lt _ (by omega)), hexValue_hexDigit (Nat.mod_lt _ (by omega))]
  simp only [Option.some.injEq]
  omega

section Strings

variable {held : Option ℕ} {c : ℕ} {rest : Str}

theorem readString_close : readString held (34 :: rest) = some (held.toList, rest) := rfl

theorem readString_plain (h : 32 ≤ c) (hq : c ≠ 34) (hb : c ≠ 92) :
    readString held (c :: rest) =
      (readString none rest).map fun r => (held.toList ++ c :: r.1, r.2) := by
  rw [readString.eq_5 held c rest (by simpa using hq) (fun _ _ _ _ _ hc => absurd hc hb)
    (fun _ _ hc => absurd hc hb), if_neg (by omega)]

theorem readString_simple {e : ℕ} (hu : c ≠ 117) (he : unescape c = some e) :
    readString held (92 :: c :: rest) =
      (readString none rest).map fun r => (held.toList ++ e :: r.1, r.2) := by
  rw [readString.eq_4 held c rest (fun _ _ _ _ _ hc => absurd hc hu), he]

theorem readString_unit (h : c < 0x10000) :
    readString held (92 :: 117 :: hex4 c ++ rest) =
      (readString (joinUnit held c).2 rest).map fun r => ((joinUnit held c).1 ++ r.1, r.2) := by
  simp only [hex4, List.cons_append, List.nil_append]
  rw [readString.eq_3, hexUnit_hex4 h]

end Strings

/-- The four ways a character is written. -/
theorem escapeChar_cases (c : ℕ) :
    (∃ e, escapeChar c = [92, e] ∧ e ≠ 117 ∧ unescape e = some c) ∨
    (escapeChar c = [c] ∧ 32 ≤ c ∧ c ≠ 34 ∧ c ≠ 92) ∨
    (c < 0x10000 ∧ escapeChar c = 92 :: 117 :: hex4 c) ∨
    (0x10000 ≤ c ∧ escapeChar c = 92 :: 117 :: hex4 (0xD800 + (c - 0x10000) / 1024) ++
      (92 :: 117 :: hex4 (0xDC00 + (c - 0x10000) % 1024))) := by
  unfold escapeChar
  by_cases h34 : c = 34
  · subst h34; exact .inl ⟨34, rfl, by decide, rfl⟩
  by_cases h92 : c = 92
  · subst h92; exact .inl ⟨92, rfl, by decide, rfl⟩
  by_cases hplain : 32 ≤ c ∧ c < 127
  · rw [if_neg h34, if_neg h92, if_pos hplain]
    exact .inr (.inl ⟨rfl, hplain.1, h34, h92⟩)
  by_cases h10 : c = 10
  · subst h10; exact .inl ⟨110, rfl, by decide, rfl⟩
  by_cases h13 : c = 13
  · subst h13; exact .inl ⟨114, rfl, by decide, rfl⟩
  by_cases h9 : c = 9
  · subst h9; exact .inl ⟨116, rfl, by decide, rfl⟩
  by_cases h12 : c = 12
  · subst h12; exact .inl ⟨102, rfl, by decide, rfl⟩
  by_cases h8 : c = 8
  · subst h8; exact .inl ⟨98, rfl, by decide, rfl⟩
  rw [if_neg h34, if_neg h92, if_neg hplain, if_neg h10, if_neg h13, if_neg h9, if_neg h12,
    if_neg h8]
  by_cases hsmall : c < 0x10000
  · rw [if_pos hsmall]
    exact .inr (.inr (.inl ⟨hsmall, rfl⟩))
  · rw [if_neg hsmall]
    exact .inr (.inr (.inr ⟨by omega, rfl⟩))

/-- A unit that does not complete what was held back is read after it. -/
theorem joinUnit_split {held : Option ℕ} {unit : ℕ}
    (h : ∀ high, held = some high → isLow unit = false) :
    (joinUnit held unit).1 ++ (joinUnit held unit).2.toList = held.toList ++ [unit] ∧
      ∀ high, (joinUnit held unit).2 = some high → high = unit ∧ isHigh unit = true := by
  unfold joinUnit
  cases held with
  | none =>
    simp only
    split
    · rename_i hu
      exact ⟨rfl, fun high hhigh => by cases hhigh; exact ⟨rfl, hu⟩⟩
    · exact ⟨rfl, fun high hhigh => by cases hhigh⟩
  | some high =>
    simp only [h high rfl, Bool.false_eq_true, if_false]
    split
    · rename_i hu
      exact ⟨rfl, fun high hhigh => by cases hhigh; exact ⟨rfl, hu⟩⟩
    · exact ⟨rfl, fun high hhigh => by cases hhigh⟩

theorem spelled_cons {c : ℕ} {s : Str} (h : spelled (c :: s) = true) :
    c < 0x110000 ∧ (isHigh c = true → ∀ d, s.head? = some d → isLow d = false) ∧
      spelled s = true := by
  unfold spelled at h
  simp only [Bool.and_eq_true, decide_eq_true_eq, Bool.not_eq_true', Bool.and_eq_false_iff] at h
  refine ⟨h.1.1, fun hc d hd => ?_, h.2⟩
  rcases h.1.2 with hf | hf
  · rw [hc] at hf; cases hf
  · rw [hd] at hf; exact hf

/-- A text escapes to what reads back, whatever was held back before it. -/
theorem readString_escaped : ∀ {s : Str} {held : Option ℕ} {rest : Str},
    (∀ high, held = some high → isHigh high = true) → spelled (held.toList ++ s) = true →
      readString held (s.flatMap escapeChar ++ 34 :: rest) = some (held.toList ++ s, rest) := by
  intro s
  induction s with
  | nil =>
    intro held rest _ _
    rw [List.flatMap_nil, List.nil_append, readString_close, List.append_nil]
  | cons c cs ih =>
    intro held rest hheld hspelled
    -- what was held back is followed by no low surrogate
    have hboth : (∀ high, held = some high → isLow c = false) ∧ spelled (c :: cs) = true := by
      cases held with
      | none => exact ⟨fun high hhigh => (by cases hhigh), hspelled⟩
      | some high =>
        obtain ⟨-, hnext, hrest⟩ := spelled_cons hspelled
        refine ⟨fun high' hhigh => ?_, hrest⟩
        exact hnext (hheld high rfl) c rfl
    obtain ⟨hlow, hspelled'⟩ := hboth
    obtain ⟨hrange, hnext, hcs⟩ := spelled_cons hspelled'
    have hplain := @ih none rest (fun high hhigh => by cases hhigh) hcs
    rw [List.flatMap_cons, List.append_assoc]
    rcases escapeChar_cases c with ⟨e, he, hu, hc⟩ | ⟨he, h32, hq, hb⟩ | ⟨hsmall, he⟩ | ⟨hbig, he⟩
    · rw [he]
      change readString held (92 :: e :: (cs.flatMap escapeChar ++ 34 :: rest)) = _
      rw [readString_simple hu hc, hplain]
      rfl
    · rw [he]
      change readString held (c :: (cs.flatMap escapeChar ++ 34 :: rest)) = _
      rw [readString_plain h32 hq hb, hplain]
      rfl
    · obtain ⟨hsplit, hheld'⟩ := joinUnit_split hlow
      rw [he, readString_unit hsmall, ih ?_ ?_]
      · simp only [Option.map_some, ← List.append_assoc, hsplit]
        rw [List.append_assoc]
        rfl
      · intro high hhigh
        obtain ⟨rfl, hhigh⟩ := hheld' high hhigh
        exact hhigh
      · cases hj : (joinUnit held c).2 with
        | none => exact hcs
        | some high =>
          obtain ⟨rfl, -⟩ := hheld' high hj
          exact hspelled'
    · have hhigh : isHigh (0xD800 + (c - 0x10000) / 1024) = true := by
        unfold isHigh
        simp only [Bool.and_eq_true, decide_eq_true_eq]
        omega
      have hnot : isLow (0xD800 + (c - 0x10000) / 1024) = false := by
        unfold isLow
        simp only [Bool.and_eq_false_iff, decide_eq_false_iff_not]
        omega
      have hlow' : isLow (0xDC00 + (c - 0x10000) % 1024) = true := by
        unfold isLow
        simp only [Bool.and_eq_true, decide_eq_true_eq]
        omega
      have hfirst : joinUnit held (0xD800 + (c - 0x10000) / 1024) =
          (held.toList, some (0xD800 + (c - 0x10000) / 1024)) := by
        unfold joinUnit
        cases held <;> simp [hhigh, hnot]
      have hsecond : joinUnit (some (0xD800 + (c - 0x10000) / 1024))
          (0xDC00 + (c - 0x10000) % 1024) = ([c], none) := by
        unfold joinUnit
        simp only [hlow', if_true, Prod.mk.injEq, List.cons.injEq, and_true]
        omega
      rw [he, List.append_assoc, readString_unit (by omega), readString_unit (by omega), hfirst,
        hsecond, hplain]
      rfl

/-- **A string is read back from its quotes.** -/
theorem readString_quote {s rest : Str} (h : spelled s = true) :
    readString none (s.flatMap escapeChar ++ 34 :: rest) = some (s, rest) :=
  readString_escaped (fun high hhigh => by cases hhigh) h

end SayFirst.Py.Json
