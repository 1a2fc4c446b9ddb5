import SayFirst.Lib.Json
import Mathlib.Data.UInt

/-!
# Writing JSON (`json.dumps`)

`dumps` is `json.dumps(value, sort_keys=True, separators=(",", ":"),
ensure_ascii=True)`: every character it writes is ASCII, so the text is its own
bytes. A finite float is written by `float.__repr__`, a parameter.
-/

namespace SayFirst.Py

/-- Bytes, as Python's `bytes`. -/
abbrev Bytes := List UInt8

/-- The bytes of a text that is ASCII. -/
def ascii (s : Str) : Bytes := s.map UInt8.ofNat

/-- The UTF-8 bytes of one code point; none for a surrogate. -/
def utf8Char (c : ℕ) : Option Bytes :=
  if c < 0x80 then some [.ofNat c]
  else if c < 0x800 then some [.ofNat (0xC0 + c / 64), .ofNat (0x80 + c % 64)]
  else if 0xD800 ≤ c ∧ c < 0xE000 then none
  else if c < 0x10000 then
    some [.ofNat (0xE0 + c / 4096), .ofNat (0x80 + c / 64 % 64), .ofNat (0x80 + c % 64)]
  else if c < 0x110000 then
    some [.ofNat (0xF0 + c / 262144), .ofNat (0x80 + c / 4096 % 64),
      .ofNat (0x80 + c / 64 % 64), .ofNat (0x80 + c % 64)]
  else none

/-- `s.encode()`; none where it raises `UnicodeEncodeError`. -/
def utf8 : Str → Option Bytes
  | [] => some []
  | c :: cs =>
    match utf8Char c, utf8 cs with
    | some b, some bs => some (b ++ bs)
    | _, _ => none

def hexDigit (n : ℕ) : ℕ := if n < 10 then 48 + n else 87 + n

/-- `'{0:04x}'.format(n)` -/
def hex4 (n : ℕ) : Str :=
  [hexDigit (n / 4096 % 16), hexDigit (n / 256 % 16), hexDigit (n / 16 % 16), hexDigit (n % 16)]

namespace Json

/-- `py_encode_basestring_ascii` on one character. -/
def escapeChar (c : ℕ) : Str :=
  if c = 34 then [92, 34]
  else if c = 92 then [92, 92]
  else if 32 ≤ c ∧ c < 127 then [c]
  else if c = 10 then [92, 110]
  else if c = 13 then [92, 114]
  else if c = 9 then [92, 116]
  else if c = 12 then [92, 102]
  else if c = 8 then [92, 98]
  else if c < 0x10000 then 92 :: 117 :: hex4 c
  else
    92 :: 117 :: hex4 (0xD800 + (c - 0x10000) / 1024) ++
      (92 :: 117 :: hex4 (0xDC00 + (c - 0x10000) % 1024))

/-- A string between its quotes. -/
def quote (s : Str) : Str := 34 :: (s.flatMap escapeChar ++ [34])

/-- The items with commas between them. -/
def joined : List Str → Str
  | [] => []
  | [x] => x
  | x :: y :: rest => x ++ 44 :: joined (y :: rest)

/-- A member of an object, as text. -/
def member (m : Str × Str) : Str := quote m.1 ++ 58 :: m.2

/-- `sorted(items)`, by key. -/
def byKey (members : List (Str × Str)) : List (Str × Str) :=
  members.insertionSort fun a b => Str.le a.1 b.1

/-- The text of a float. -/
def floatText (repr : PyFloat → Str) : PyFloat → Str
  | .nan => lit "NaN"
  | .infinite false => lit "Infinity"
  | .infinite true => lit "-Infinity"
  | f => repr f

mutual

def dumps (repr : PyFloat → Str) : Json → Str
  | null => lit "null"
  | bool true => lit "true"
  | bool false => lit "false"
  | int n => intText n
  | float f => floatText repr f
  | str s => quote s
  | arr items => 91 :: (joined (dumpsItems repr items) ++ [93])
  | obj members => 123 :: (joined ((byKey (dumpsMembers repr members)).map member) ++ [125])

def dumpsItems (repr : PyFloat → Str) : List Json → List Str
  | [] => []
  | v :: vs => dumps repr v :: dumpsItems repr vs

def dumpsMembers (repr : PyFloat → Str) : List (Str × Json) → List (Str × Str)
  | [] => []
  | (k, v) :: ms => (k, dumps repr v) :: dumpsMembers repr ms

end

example : dumps (fun _ => []) (.obj [(lit "b", .int 2), (lit "a", .arr [.null, .str (lit "x\"y")])])
    = lit "\x7b\"a\":[null,\"x\\\"y\"],\"b\":2\x7d" := by decide

end Json

end SayFirst.Py
