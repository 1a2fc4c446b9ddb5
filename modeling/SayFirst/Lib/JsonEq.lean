import SayFirst.Lib.Json
import Mathlib.Algebra.Group.Int.Defs

/-!
# Equality of JSON values (`==`)

Python compares a `bool`, an `int` and a `float` by value, lists item by item and
objects member by member, whatever the order of the members.
-/

namespace SayFirst.Py

namespace PyFloat

/-- A numerator over a power of two; none of what is no number. -/
def dyadic : PyFloat → Option (ℤ × ℤ)
  | finite negative mantissa exponent =>
    some (if negative then -(mantissa : ℤ) else mantissa, exponent)
  | _ => none

/-- `a * 2 ^ m == b * 2 ^ n` -/
def sameDyadic (a b : ℤ × ℤ) : Bool :=
  let low := min a.2 b.2
  a.1 * 2 ^ (a.2 - low).toNat == b.1 * 2 ^ (b.2 - low).toNat

end PyFloat

namespace Json

/-- What a value is as a number. -/
def number? : Json → Option (ℤ × ℤ)
  | bool b => some (if b then 1 else 0, 0)
  | int n => some (n, 0)
  | float f => f.dyadic
  | _ => none

/-- `a == b`, of values of which one is no list and no object. -/
def sameScalar : Json → Json → Bool
  | null, null => true
  | str s, str t => s == t
  | float (.infinite a), float (.infinite b) => a == b
  | a, b =>
    match a.number?, b.number? with
    | some a, some b => PyFloat.sameDyadic a b
    | _, _ => false

mutual

/-- `a == b` -/
def same : Json → Json → Bool
  | arr items, arr others => sameItems items others
  | obj members, obj others => members.length == others.length && sameMembers others members
  | null, b => sameScalar null b
  | bool c, b => sameScalar (bool c) b
  | int n, b => sameScalar (int n) b
  | float f, b => sameScalar (float f) b
  | str s, b => sameScalar (str s) b
  | arr _, _ => false
  | obj _, _ => false

def sameItems : List Json → List Json → Bool
  | [], [] => true
  | a :: as, b :: bs => same a b && sameItems as bs
  | _, _ => false

/-- Every member is one of `others`. -/
def sameMembers (others : List (Str × Json)) : List (Str × Json) → Bool
  | [] => true
  | (key, value) :: rest =>
    (match others.lookup key with
      | some other => same value other
      | none => false) && sameMembers others rest

end

example : same (.obj [(lit "a", .int 1), (lit "b", .null)])
    (.obj [(lit "b", .null), (lit "a", .bool true)]) = true := by decide

end Json

end SayFirst.Py
