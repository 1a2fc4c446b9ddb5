import SayFirst.Lib.JsonText

/-!
# The interpreter's library

What the modelled code calls of Python's standard library and is not modelled
itself: hashing, base64, `repr`, and the reading of numbers and instants from text.
-/

namespace SayFirst.Py

def daysIn (year month : ℕ) : ℕ :=
  if month = 2 then if year % 4 = 0 ∧ (year % 100 ≠ 0 ∨ year % 400 = 0) then 29 else 28
  else if [4, 6, 9, 11].contains month then 30
  else 31

/-- An instant of the calendar, read in UTC to the second. -/
structure Civil where
  year : ℕ
  month : ℕ
  day : ℕ
  hour : ℕ
  minute : ℕ
  second : ℕ
  held : (1 ≤ year ∧ year ≤ 9999) ∧ (1 ≤ month ∧ month ≤ 12) ∧
    (1 ≤ day ∧ day ≤ daysIn year month) ∧ hour < 24 ∧ minute < 60 ∧ second < 60
  deriving DecidableEq

/-- The instant the samples are of. -/
def Civil.sample : Civil := ⟨2026, 1, 5, 10, 0, 0, by decide⟩

/-- An offset-aware `datetime`: its reading in UTC, or none where `astimezone(UTC)` leaves
the calendar and raises `OverflowError`. -/
structure Instant where
  utc : Option Civil
  deriving DecidableEq

/-- `n` with `width` digits, zeroes before. -/
def padded (width n : ℕ) : Str :=
  List.replicate (width - (decimal n).length) 48 ++ decimal n

/-- `strftime("%Y-%m-%dT%H:%M:%S")` -/
def Civil.stem (c : Civil) : Str :=
  padded 4 c.year ++ 45 :: padded 2 c.month ++ 45 :: padded 2 c.day ++ 84 :: padded 2 c.hour ++
    58 :: padded 2 c.minute ++ 58 :: padded 2 c.second

/-- `strftime("%Y-%m-%dT%H:%M:%SZ")` -/
def Civil.text (c : Civil) : Str := c.stem ++ [90]

/-- `isoformat()` of the instant in UTC. -/
def Civil.isoformat (c : Civil) : Str := c.stem ++ lit "+00:00"

/-- What `datetime.fromisoformat` answers: a naive `datetime` has no instant. -/
abbrev Stamp := Option Instant

structure Interpreter where
  /-- `hashlib.sha256(raw).hexdigest()` -/
  sha256 : Bytes → Str
  /-- `float.__repr__` of a finite float -/
  floatRepr : PyFloat → Str
  /-- `repr(value)`: `str(value)` of a value that is no string -/
  repr : Json → Str
  /-- `int(text)`; none where it raises `ValueError` -/
  intOfText : Str → Option ℤ
  /-- `datetime.fromisoformat(text)`; none where it raises `ValueError` -/
  fromIso : Str → Option Stamp
  /-- `base64.b64decode(text, validate=True)`; none where it raises `ValueError` -/
  b64decode : Str → Option Bytes

/-- The exceptions the modelled code raises. -/
inductive PyError where
  | invalidBundle (message : Str)
  | invalidEvidence (message : String)
  | valueError (message : String)
  | typeError
  | keyError
  | overflowError
  | assertionError
  deriving DecidableEq, Repr

/-- `if not ok: raise error` -/
def require (ok : Bool) (error : PyError) : Except PyError Unit := if ok then .ok () else .error error

theorem ok_of_toOption {α : Type} {x : Except PyError α} {a : α} (h : x.toOption = some a) :
    x = .ok a := by
  cases x with
  | ok b => cases h; rfl
  | error r => cases h

namespace Json

/-- `str(value)` -/
def text (py : Interpreter) : Json → Str
  | str s => s
  | other => py.repr other

/-- `isinstance(value, int)`: a `bool` is one. -/
def int? : Json → Option ℤ
  | int n => some n
  | bool b => some (if b then 1 else 0)
  | _ => none

/-- `isinstance(value, int) and not isinstance(value, bool)` -/
def plainInt? : Json → Option ℤ
  | int n => some n
  | _ => none

def str? : Json → Option Str
  | str s => some s
  | _ => none

/-- `isinstance(value, str) and value` -/
def isText : Json → Bool
  | str (_ :: _) => true
  | _ => false

/-- `isinstance(value, list)` or `isinstance(value, Mapping)`: what a set cannot look up. -/
def isUnhashable : Json → Bool
  | arr _ => true
  | obj _ => true
  | _ => false

/-- `value == text` -/
def eqText (value : Json) (t : String) : Bool := value.str? == some (lit t)

/-- `value in (texts)` -/
def isOneOf (value : Json) (texts : List String) : Bool := texts.any value.eqText

/-- `int(value)` -/
def toInt (py : Interpreter) : Json → Except PyError ℤ
  | int n => .ok n
  | bool b => .ok (if b then 1 else 0)
  | float (.finite negative mantissa exponent) =>
    .ok (if negative then -(PyFloat.whole mantissa exponent : ℤ) else PyFloat.whole mantissa exponent)
  | float (.infinite _) => .error .overflowError
  | float .nan => .error (.valueError "cannot convert float NaN to integer")
  | str s =>
    match py.intOfText s with
    | some n => .ok n
    | none => .error (.valueError "invalid literal for int() with base 10")
  | null => .error .typeError
  | arr _ => .error .typeError
  | obj _ => .error .typeError

/-- `canonical_json(value)`: the text is its own bytes. -/
def canonical (py : Interpreter) (value : Json) : Str := dumps py.floatRepr value

end Json

end SayFirst.Py
