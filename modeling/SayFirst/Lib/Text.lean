import Mathlib.Data.List.Sort
import Mathlib.Data.List.Dedup
import Mathlib.Data.String.Basic

/-!
# Python text

A Python `str` is a sequence of code points, lone surrogates included, compared
code point by code point. Patterns are matched by derivatives, so `fullmatch`
means what `re.fullmatch` means: the whole string, a trailing newline included.
-/

namespace SayFirst.Py

/-- A Python `str`: its code points. -/
abbrev Str := List ℕ

instance lawfulBEq_str : LawfulBEq Str := inferInstance

/-- The code points of a literal of ASCII characters, each one byte. -/
def lit (s : String) : Str := s.toByteArray.data.toList.map UInt8.toNat

@[simp] theorem lit_inj {a b : String} : lit a = lit b ↔ a = b := by
  constructor
  · intro h
    have hinj : Function.Injective UInt8.toNat := fun c d hcd => UInt8.toNat_inj.1 hcd
    have hdata := Array.toList_inj.1 (List.map_injective_iff.2 hinj h)
    exact String.toByteArray_inj.1 (ByteArray.ext hdata)
  · rintro rfl; rfl

/-- Code point order, the order of `sorted` on strings. -/
def Str.le : Str → Str → Bool
  | [], _ => true
  | _ :: _, [] => false
  | a :: as, b :: bs => a < b || (a == b && Str.le as bs)

/-- `sorted(set(l))`. -/
def sortedSet (l : List Str) : List Str := l.dedup.insertionSort (Str.le · ·)

@[simp] theorem mem_sortedSet {l : List Str} {s : Str} : s ∈ sortedSet l ↔ s ∈ l := by
  simp [sortedSet]

theorem Str.le_total : ∀ a b : Str, Str.le a b = true ∨ Str.le b a = true := by
  intro a
  induction a with
  | nil => intro b; exact .inl rfl
  | cons x a ih =>
    intro b
    cases b with
    | nil => exact .inr rfl
    | cons y b =>
      simp only [Str.le, Bool.or_eq_true, Bool.and_eq_true, decide_eq_true_eq, beq_iff_eq]
      rcases Nat.lt_trichotomy x y with h | h | h
      · exact .inl (.inl h)
      · rcases ih b with hab | hba
        · exact .inl (.inr ⟨h, hab⟩)
        · exact .inr (.inr ⟨h.symm, hba⟩)
      · exact .inr (.inl h)

theorem Str.le_trans : ∀ a b c : Str, Str.le a b = true → Str.le b c = true →
    Str.le a c = true := by
  intro a
  induction a with
  | nil => intro b c _ _; rfl
  | cons x a ih =>
    intro b c hab hbc
    cases b with
    | nil => cases hab
    | cons y b =>
      cases c with
      | nil => cases hbc
      | cons z c =>
        simp only [Str.le, Bool.or_eq_true, Bool.and_eq_true, decide_eq_true_eq, beq_iff_eq]
          at hab hbc ⊢
        rcases hab with hab | ⟨rfl, hab⟩
        · rcases hbc with hbc | ⟨rfl, hbc⟩
          · exact .inl (Nat.lt_trans hab hbc)
          · exact .inl hab
        · rcases hbc with hbc | ⟨rfl, hbc⟩
          · exact .inl hbc
          · exact .inr ⟨rfl, ih b c hab hbc⟩

theorem Str.le_antisymm : ∀ a b : Str, Str.le a b = true → Str.le b a = true → a = b := by
  intro a
  induction a with
  | nil =>
    intro b _ hba
    cases b with
    | nil => rfl
    | cons y b => cases hba
  | cons x a ih =>
    intro b hab hba
    cases b with
    | nil => cases hab
    | cons y b =>
      simp only [Str.le, Bool.or_eq_true, Bool.and_eq_true, decide_eq_true_eq, beq_iff_eq] at hab hba
      rcases hab with hab | ⟨rfl, hab⟩
      · rcases hba with hba | ⟨rfl, -⟩
        · exact absurd hba (Nat.lt_asymm hab)
        · exact absurd hab (Nat.lt_irrefl _)
      · rcases hba with hba | ⟨-, hba⟩
        · exact absurd hba (Nat.lt_irrefl _)
        · rw [ih b hab hba]

instance : Std.Total fun a b : Str => Str.le a b = true := ⟨Str.le_total⟩

instance : IsTrans Str fun a b => Str.le a b = true := ⟨Str.le_trans⟩

/-- What is sorted and unique already is kept. -/
theorem sortedSet_sortedSet (l : List Str) : sortedSet (sortedSet l) = sortedSet l := by
  have hnodup : (sortedSet l).Nodup :=
    (List.perm_insertionSort _ _).nodup_iff.2 (List.nodup_dedup l)
  have hsorted : (sortedSet l).Pairwise fun a b => Str.le a b = true :=
    List.pairwise_insertionSort _ _
  change (sortedSet l).dedup.insertionSort (Str.le · ·) = sortedSet l
  rw [hnodup.dedup]
  exact hsorted.insertionSort_eq

/-! ## Decimal text -/

def decimalAux : ℕ → ℕ → Str → Str
  | 0, _, acc => acc
  | k + 1, n, acc =>
    if n < 10 then (48 + n) :: acc else decimalAux k (n / 10) ((48 + n % 10) :: acc)

/-- `str(n)` of a natural number. -/
def decimal (n : ℕ) : Str := decimalAux (n + 1) n []

/-- `str(n)` of an integer. -/
def intText : ℤ → Str
  | .ofNat n => decimal n
  | .negSucc n => 45 :: decimal (n + 1)

/-! ## Character classes and patterns -/

def isDigit (c : ℕ) : Bool := 48 ≤ c && c ≤ 57
def isLower (c : ℕ) : Bool := 97 ≤ c && c ≤ 122
def isUpper (c : ℕ) : Bool := 65 ≤ c && c ≤ 90
def isLowerHex (c : ℕ) : Bool := isDigit c || (97 ≤ c && c ≤ 102)

/-- `unicodedata.category(c) == "Cc"`. -/
def isControl (c : ℕ) : Bool := c < 32 || (127 ≤ c && c ≤ 159)

/-- A regular expression over code points. -/
inductive Pattern where
  | none
  | empty
  | cls (p : ℕ → Bool)
  | seq (a b : Pattern)
  | alt (a b : Pattern)
  | star (a : Pattern)

namespace Pattern

/-- Whether the pattern matches the empty string. -/
def nullable : Pattern → Bool
  | none => false
  | empty => true
  | cls _ => false
  | seq a b => a.nullable && b.nullable
  | alt a b => a.nullable || b.nullable
  | star _ => true

/-- What is left of the pattern to match after the code point `c`. -/
def deriv (c : ℕ) : Pattern → Pattern
  | none => none
  | empty => none
  | cls p => if p c then empty else none
  | seq a b => if a.nullable then alt (seq (deriv c a) b) (deriv c b) else seq (deriv c a) b
  | alt a b => alt (deriv c a) (deriv c b)
  | star a => seq (deriv c a) (star a)

/-- `re.fullmatch(p, s) is not None`. -/
def fullmatch (p : Pattern) (s : Str) : Bool := (s.foldl (fun q c => deriv c q) p).nullable

/-- The literal text `s`. -/
def text (s : String) : Pattern := (lit s).foldr (fun c q => seq (cls (· == c)) q) empty

/-- `p{n}`. -/
def times (p : Pattern) : ℕ → Pattern
  | 0 => empty
  | n + 1 => seq p (times p n)

/-- `p{0,n}`. -/
def upTo (p : Pattern) : ℕ → Pattern
  | 0 => empty
  | n + 1 => alt empty (seq p (upTo p n))

end Pattern

end SayFirst.Py
