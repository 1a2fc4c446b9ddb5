import SayFirst.Lib.Text

/-!
# JSON values as Python holds them

What `json.loads` answers: `bool` is not `int`, a number with a fraction or an
exponent is a `float`, and an object is the members in the order they came in.
-/

namespace SayFirst.Py

/-- A binary float: a sign with `mantissa * 2 ^ exponent`, an infinity, or no number. -/
inductive PyFloat where
  | finite (negative : Bool) (mantissa : ℕ) (exponent : ℤ)
  | infinite (negative : Bool)
  | nan
  deriving DecidableEq, Repr

namespace PyFloat

/-- The whole part of `mantissa * 2 ^ exponent`. -/
def whole (mantissa : ℕ) (exponent : ℤ) : ℕ :=
  if 0 ≤ exponent then mantissa * 2 ^ exponent.toNat else mantissa / 2 ^ (-exponent).toNat

/-- The value, when it is a whole number. -/
def asInt : PyFloat → Option ℤ
  | finite negative mantissa exponent =>
    if exponent < 0 ∧ mantissa % 2 ^ (-exponent).toNat ≠ 0 then none
    else some (if negative then -(whole mantissa exponent : ℤ) else whole mantissa exponent)
  | infinite _ => none
  | nan => none

end PyFloat

inductive Json where
  | null
  | bool (b : Bool)
  | int (n : ℤ)
  | float (f : PyFloat)
  | str (s : Str)
  | arr (items : List Json)
  | obj (members : List (Str × Json))

namespace Json

/-- `document.get(key)` -/
def get (members : List (Str × Json)) (key : String) : Option Json := members.lookup (lit key)

/-- `document.get(key)` as a string, when it is one. -/
def getStr (members : List (Str × Json)) (key : String) : Option Str :=
  match get members key with
  | some (.str s) => some s
  | _ => none

def ofOption (f : α → Json) : Option α → Json
  | none => null
  | some a => f a

/-- `value == n`: a `bool` is one of the integers 0 and 1, a float is compared by value. -/
def eqInt (value : Json) (n : ℤ) : Bool :=
  match value with
  | bool b => (if b then 1 else 0) == n
  | int m => m == n
  | float f => f.asInt == some n
  | _ => false

end Json

end SayFirst.Py
