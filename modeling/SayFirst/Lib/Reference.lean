import SayFirst.Lib.Interpreter
import SayFirst.Lib.Sha256

/-!
# A reference library

`reference` is an interpreter's library that computes: SHA-256 and strict base64 in
full, instants in the two spellings `YYYY-MM-DDTHH:MM:SS+00:00` and
`YYYY-MM-DDTHH:MM:SSZ`, numbers in plain decimal.
-/

namespace SayFirst.Py

/-- A text of decimal digits. -/
def readDecimal (s : Str) : Option ℕ :=
  if s ≠ [] ∧ s.all isDigit then some (s.foldl (fun n c => 10 * n + (c - 48)) 0) else none

/-- A decimal text with its sign. -/
def readInt : Str → Option ℤ
  | 45 :: s => (readDecimal s).map fun n => -(n : ℤ)
  | 43 :: s => (readDecimal s).map (↑)
  | s => (readDecimal s).map (↑)

/-! ## Instants -/

/-- `YYYY-MM-DDTHH:MM:SS`, with `+00:00` or `Z` behind it. -/
def readInstant (s : Str) : Option Stamp :=
  match readDecimal (s.take 4), readDecimal ((s.drop 5).take 2), readDecimal ((s.drop 8).take 2),
    readDecimal ((s.drop 11).take 2), readDecimal ((s.drop 14).take 2),
    readDecimal ((s.drop 17).take 2) with
  | some year, some month, some day, some hour, some minute, some second =>
    if held : (1 ≤ year ∧ year ≤ 9999) ∧ (1 ≤ month ∧ month ≤ 12) ∧
        (1 ≤ day ∧ day ≤ daysIn year month) ∧ hour < 24 ∧ minute < 60 ∧ second < 60 then
      let c : Civil := ⟨year, month, day, hour, minute, second, held⟩
      if s = c.text ∨ s = c.isoformat then some (some ⟨some c⟩) else none
    else none
  | _, _, _, _, _, _ => none

/-! ## Base64 -/

/-- The six bits a character of the alphabet stands for. -/
def sixBits (c : ℕ) : Option ℕ :=
  if isUpper c then some (c - 65)
  else if isLower c then some (c - 71)
  else if isDigit c then some (c + 4)
  else if c = 43 then some 62
  else if c = 47 then some 63
  else none

/-- The bytes of one group of four characters. -/
def base64Group (a b c d : ℕ) : Option Bytes := do
  let a ← sixBits a
  let b ← sixBits b
  if c = 61 ∧ d = 61 then return [.ofNat (a * 4 + b / 16)]
  let c ← sixBits c
  if d = 61 then return [.ofNat (a * 4 + b / 16), .ofNat (b % 16 * 16 + c / 4)]
  let d ← sixBits d
  return [.ofNat (a * 4 + b / 16), .ofNat (b % 16 * 16 + c / 4), .ofNat (c % 4 * 64 + d)]

/-- `base64.b64decode(text, validate=True)`: padding ends the text. -/
def base64Decode : Str → Option Bytes
  | [] => some []
  | a :: b :: c :: d :: rest =>
    if d = 61 ∧ rest ≠ [] then none
    else
      match base64Group a b c d, base64Decode rest with
      | some group, some bytes => some (group ++ bytes)
      | _, _ => none
  | _ => none

/-- `float.__repr__` of a whole number. -/
def wholeRepr (f : PyFloat) : Str := (f.asInt.map intText).getD [] ++ lit ".0"

def reference : Interpreter where
  sha256 := Sha256.hexdigest
  floatRepr := wholeRepr
  repr
    | .null => lit "None"
    | .bool true => lit "True"
    | .bool false => lit "False"
    | .int n => intText n
    | .float f => wholeRepr f
    | .str s => s
    | .arr _ => lit "[]"
    | .obj _ => lit "\x7b\x7d"
  intOfText := readInt
  fromIso := readInstant
  b64decode := base64Decode

/-- What a digest of `reference` is evaluated with. -/
theorem reference_blocks : reference = { reference with sha256 := Sha256.hexdigestBlocks } := by
  rw [← Sha256.hexdigest_blocks]
  rfl

example : reference.fromIso (lit "2026-02-28T09:30:00+00:00") =
    some (some ⟨some ⟨2026, 2, 28, 9, 30, 0, by decide⟩⟩) := by decide +kernel

example : reference.b64decode (lit "aGVsbG8=") = some (ascii (lit "hello")) := by decide +kernel

end SayFirst.Py
