import SayFirst.Lib.JsonSize
import SayFirst.Lib.JsonRead

/-!
# What is written is read back

`loads_dumps`: a value whose floats are read back, whose texts carry no surrogate pair and whose
objects hold their members in the order of their keys, is read back from its canonical text.
-/

namespace SayFirst.Py

/-! ## Numbers -/

/-- What a decimal text is: digits, without a zero before them, of the number's value. -/
theorem decimalAux_spec : ∀ {fuel n : ℕ} {acc : Str}, n < fuel →
    ∃ digits, decimalAux fuel n acc = digits ++ acc ∧ digits ≠ [] ∧
      (∀ c ∈ digits, isDigit c = true) ∧ Json.digitsValue digits = n ∧
      (digits.head? = some 48 → digits = [48]) := by
  intro fuel
  induction fuel with
  | zero => intro n acc h; omega
  | succ fuel ih =>
    intro n acc h
    unfold decimalAux
    split
    · rename_i hten
      refine ⟨[48 + n], rfl, by simp, ?_, by simp [Json.digitsValue], ?_⟩
      · intro c hc
        obtain rfl := List.mem_singleton.1 hc
        simp only [isDigit, Bool.and_eq_true, decide_eq_true_eq]
        omega
      · intro hhead
        rw [List.head?_cons, Option.some.injEq] at hhead
        rw [hhead]
    · rename_i hten
      obtain ⟨digits, heq, hne, hdigits, hvalue, hhead⟩ :=
        @ih (n / 10) ((48 + n % 10) :: acc) (by omega)
      refine ⟨digits ++ [48 + n % 10], by rw [heq]; simp, by simp, ?_, ?_, ?_⟩
      · intro c hc
        rcases List.mem_append.1 hc with hc | hc
        · exact hdigits c hc
        · obtain rfl := List.mem_singleton.1 hc
          simp only [isDigit, Bool.and_eq_true, decide_eq_true_eq]
          omega
      · unfold Json.digitsValue at hvalue ⊢
        rw [List.foldl_append, hvalue]
        simp only [List.foldl_cons, List.foldl_nil]
        omega
      · intro hzero
        rw [List.head?_append_of_ne_nil _ hne] at hzero
        rw [hhead hzero] at hvalue
        simp only [Json.digitsValue, List.foldl_cons, List.foldl_nil] at hvalue
        omega

theorem decimal_spec (n : ℕ) : decimal n ≠ [] ∧ (∀ c ∈ decimal n, isDigit c = true) ∧
    Json.digitsValue (decimal n) = n ∧ ((decimal n).head? = some 48 → decimal n = [48]) := by
  obtain ⟨digits, heq, hne, hdigits, hvalue, hhead⟩ :=
    @decimalAux_spec (n + 1) n [] (Nat.lt_succ_self n)
  rw [List.append_nil] at heq
  rw [decimal, heq]
  exact ⟨hne, hdigits, hvalue, hhead⟩

namespace Json

/-- What may stand behind a value: nothing, a comma or a closing bracket. -/
def Ends (rest : Str) : Prop := ∀ c, rest.head? = some c → c = 44 ∨ c = 93 ∨ c = 125

theorem takeWhile_digits {digits rest : Str} (h : ∀ c ∈ digits, isDigit c = true)
    (hrest : Ends rest) : (digits ++ rest).takeWhile isDigit = digits := by
  rw [List.takeWhile_append_of_pos h]
  cases rest with
  | nil => simp
  | cons c rest =>
    have hc : isDigit c = false := by
      obtain rfl | rfl | rfl := hrest c rfl <;> rfl
    simp [hc]

theorem readFraction_ends {rest : Str} (h : Ends rest) : readFraction rest = ([], rest) := by
  cases rest with
  | nil => rfl
  | cons c rest => obtain rfl | rfl | rfl := h c rfl <;> rfl

theorem readExponent_ends {rest : Str} (h : Ends rest) : readExponent rest = ([], rest) := by
  cases rest with
  | nil => rfl
  | cons c rest => obtain rfl | rfl | rfl := h c rfl <;> rfl

variable {float : Str → PyFloat}

/-- The digits of a number read as its value. -/
theorem readNumeral_decimal {negative : Bool} {n : ℕ} {rest : Str} (h : Ends rest) :
    readNumeral float negative (decimal n ++ rest) =
      some (.int (if negative then -(n : ℤ) else n), rest) := by
  obtain ⟨hne, hdigits, hvalue, hhead⟩ := decimal_spec n
  have hwhole : (if (decimal n ++ rest).head? = some 48 then [48]
      else (decimal n ++ rest).takeWhile isDigit) = decimal n := by
    rw [List.head?_append_of_ne_nil _ hne]
    split
    · rename_i hzero
      exact (hhead hzero).symm
    · exact takeWhile_digits hdigits h
  unfold readNumeral
  simp only [hwhole, List.drop_left, readFraction_ends h, readExponent_ends h, hvalue,
    List.isEmpty_eq_false_iff.2 hne, List.isEmpty_nil, Bool.and_self, if_true, Bool.false_eq_true,
    if_false]

/-- A text that begins otherwise is no literal. -/
theorem afterLiteral_none {literal : String} {c : ℕ} {s : Str}
    (h : (lit literal).head? ≠ some c) (hne : lit literal ≠ []) :
    afterLiteral literal (c :: s) = none := by
  unfold afterLiteral
  cases hl : lit literal with
  | nil => exact absurd hl hne
  | cons d ds =>
    have hd : d ≠ c := by
      intro hd
      rw [hl] at h
      exact h (congrArg some hd)
    simp [hd]

theorem readScalar_digit {c : ℕ} {s : Str} (h : isDigit c = true) :
    readScalar float (c :: s) = readNumber float (c :: s) := by
  simp only [isDigit, Bool.and_eq_true, decide_eq_true_eq] at h
  have hnone : ∀ literal ∈ ["null", "true", "false", "NaN", "Infinity", "-Infinity"],
      afterLiteral literal (c :: s) = none := by
    intro literal hmem
    simp only [List.mem_cons, List.not_mem_nil, or_false] at hmem
    obtain rfl | rfl | rfl | rfl | rfl | rfl := hmem <;>
      refine afterLiteral_none ?_ (by decide) <;> intro hc <;>
      · have hlit := Option.some.inj hc
        subst hlit
        revert h
        decide
  simp only [readScalar, hnone "null" (by simp), hnone "true" (by simp), hnone "false" (by simp),
    hnone "NaN" (by simp), hnone "Infinity" (by simp), hnone "-Infinity" (by simp)]

theorem readScalar_minus {c : ℕ} {s : Str} (h : isDigit c = true) :
    readScalar float (45 :: c :: s) = readNumeral float true (c :: s) := by
  have hc : c ≠ 73 := by
    rintro rfl
    exact absurd h (by decide)
  have hnone : ∀ literal ∈ ["null", "true", "false", "NaN", "Infinity"],
      afterLiteral literal (45 :: c :: s) = none := by
    intro literal hmem
    simp only [List.mem_cons, List.not_mem_nil, or_false] at hmem
    obtain rfl | rfl | rfl | rfl | rfl := hmem <;>
      exact afterLiteral_none (by decide) (by decide)
  have hinfinity : afterLiteral "-Infinity" (45 :: c :: s) = none := by
    have hlit : lit "-Infinity" = 45 :: 73 :: lit "nfinity" := by decide
    unfold afterLiteral
    rw [hlit]
    simp [Ne.symm hc]
  simp only [readScalar, hnone "null" (by simp), hnone "true" (by simp), hnone "false" (by simp),
    hnone "NaN" (by simp), hnone "Infinity" (by simp), hinfinity, readNumber]

/-- **A number is read back from its text.** -/
theorem readScalar_int {n : ℤ} {rest : Str} (h : Ends rest) :
    readScalar float (intText n ++ rest) = some (.int n, rest) := by
  cases n with
  | ofNat n =>
    obtain ⟨hne, hdigits, -⟩ := decimal_spec n
    have hread := @readNumeral_decimal float false n _ h
    cases hd : decimal n with
    | nil => exact absurd hd hne
    | cons c ds =>
      have hc : isDigit c = true := hdigits c (by simp [hd])
      have htext : intText (.ofNat n) = c :: ds := hd
      rw [hd] at hread
      rw [htext, List.cons_append, readScalar_digit hc, readNumber]
      · exact hread
      · intro _ heq
        obtain ⟨rfl, -⟩ := List.cons.inj heq
        exact absurd hc (by decide)
  | negSucc n =>
    obtain ⟨hne, hdigits, -⟩ := decimal_spec (n + 1)
    have hread := @readNumeral_decimal float true (n + 1) _ h
    cases hd : decimal (n + 1) with
    | nil => exact absurd hd hne
    | cons c ds =>
      have hc : isDigit c = true := hdigits c (by simp [hd])
      have htext : intText (.negSucc n) = 45 :: c :: ds := congrArg (45 :: ·) hd
      rw [hd] at hread
      rw [htext, List.cons_append, List.cons_append, readScalar_minus hc]
      exact hread

/-! ## Floats -/

/-- The fraction of a numeral, or nothing. -/
def Fraction (s : Str) : Prop := s = [] ∨ ∃ ds, s = 46 :: ds ∧ ds ≠ [] ∧ ∀ c ∈ ds, isDigit c = true

/-- The exponent of a numeral, or nothing. -/
def Exponent (s : Str) : Prop :=
  s = [] ∨ ∃ sign ds, s = 101 :: (sign ++ ds) ∧ sign ∈ [[], [43], [45]] ∧ ds ≠ [] ∧
    ∀ c ∈ ds, isDigit c = true

/-- A numeral that is no integer's: what `float.__repr__` writes. -/
structure Numeral (s : Str) : Prop where
  parts : ∃ (negative : Bool) (n : ℕ) (fraction exponent : Str),
    s = (if negative then [45] else []) ++ (decimal n ++ (fraction ++ exponent)) ∧
      Fraction fraction ∧ Exponent exponent ∧ (fraction ≠ [] ∨ exponent ≠ [])

/-- The float is read back from its text, which is a numeral where it is finite. -/
def FloatReads (repr : PyFloat → Str) (float : Str → PyFloat) : PyFloat → Prop
  | .finite negative mantissa exponent =>
    Numeral (repr (.finite negative mantissa exponent)) ∧
      float (repr (.finite negative mantissa exponent)) = .finite negative mantissa exponent
  | _ => True

theorem takeWhile_digits_of {digits rest : Str} (h : ∀ c ∈ digits, isDigit c = true)
    (hrest : ∀ c, rest.head? = some c → isDigit c = false) :
    (digits ++ rest).takeWhile isDigit = digits ∧ (digits ++ rest).dropWhile isDigit = rest := by
  rw [List.takeWhile_append_of_pos h, List.dropWhile_append_of_pos h]
  cases rest with
  | nil => simp
  | cons c rest => simp [hrest c rfl]

theorem Ends.noDigit {rest : Str} (h : Ends rest) :
    ∀ c, rest.head? = some c → isDigit c = false := by
  intro c hc
  obtain rfl | rfl | rfl := h c hc <;> rfl

theorem Exponent.noDigit {exponent rest : Str} (h : Exponent exponent) (hrest : Ends rest) :
    ∀ c, (exponent ++ rest).head? = some c → isDigit c = false := by
  rcases h with rfl | ⟨sign, ds, rfl, -⟩
  · exact hrest.noDigit
  · rintro c hc
    obtain rfl := Option.some.inj hc
    rfl

theorem readFraction_of {fraction rest : Str} (h : Fraction fraction)
    (hrest : ∀ c, rest.head? = some c → isDigit c = false)
    (hpoint : rest.head? ≠ some 46) :
    readFraction (fraction ++ rest) = (fraction, rest) := by
  rcases h with rfl | ⟨ds, rfl, hne, hds⟩
  · cases rest with
    | nil => rfl
    | cons c rest =>
      have hc : c ≠ 46 := fun hc => hpoint (hc ▸ rfl)
      rw [List.nil_append, readFraction]
      simpa using hc
  · obtain ⟨htake, hdrop⟩ := takeWhile_digits_of hds hrest
    rw [List.cons_append, readFraction, htake, hdrop, if_neg (by simpa using hne)]

theorem readExponent_of {exponent rest : Str} (h : Exponent exponent) (hrest : Ends rest) :
    readExponent (exponent ++ rest) = (exponent, rest) := by
  rcases h with rfl | ⟨sign, ds, rfl, hsign, hne, hds⟩
  · exact readExponent_ends hrest
  · obtain ⟨htake, hdrop⟩ := takeWhile_digits_of hds hrest.noDigit
    obtain ⟨d, ds', rfl⟩ := List.exists_cons_of_ne_nil hne
    have hd : isDigit d = true := hds d List.mem_cons_self
    have hd' : d ≠ 43 ∧ d ≠ 45 := by
      constructor <;> rintro rfl <;> exact absurd hd (by decide)
    have hlen : (if ((sign ++ d :: ds') ++ rest).head? = some 43 ∨
        ((sign ++ d :: ds') ++ rest).head? = some 45 then 1 else 0) = sign.length := by
      simp only [List.mem_cons, List.not_mem_nil, or_false] at hsign
      rcases hsign with rfl | rfl | rfl
      · simp [hd'.1, hd'.2]
      · rfl
      · rfl
    rw [List.cons_append, readExponent]
    simp only [hlen, true_or, if_true]
    rw [List.append_assoc, List.take_left, List.drop_left, htake, hdrop]
    simp

/-- **A float is read back from its text.** -/
theorem readNumeral_float {float : Str → PyFloat} {negative : Bool} {n : ℕ}
    {fraction exponent rest : Str} (hfraction : Fraction fraction) (hexponent : Exponent exponent)
    (hne : fraction ≠ [] ∨ exponent ≠ []) (hrest : Ends rest) :
    readNumeral float negative (decimal n ++ (fraction ++ exponent) ++ rest) =
      some (.float (float ((if negative then [45] else []) ++
        (decimal n ++ (fraction ++ exponent)))), rest) := by
  obtain ⟨hwhole, hdigits, -, hhead⟩ := decimal_spec n
  have hpoint : (exponent ++ rest).head? ≠ some 46 := by
    rcases hexponent with rfl | ⟨sign, ds, rfl, -⟩
    · intro hc
      obtain h | h | h := hrest 46 hc <;> exact absurd h (by decide)
    · simp
  have hbehind : ∀ c, (fraction ++ (exponent ++ rest)).head? = some c → isDigit c = false := by
    rcases hfraction with rfl | ⟨ds, rfl, -⟩
    · exact hexponent.noDigit hrest
    · rintro c hc
      obtain rfl := Option.some.inj hc
      rfl
  have hsplit : decimal n ++ (fraction ++ exponent) ++ rest =
      decimal n ++ (fraction ++ (exponent ++ rest)) := by simp
  have hread : (if (decimal n ++ (fraction ++ (exponent ++ rest))).head? = some 48 then [48]
      else (decimal n ++ (fraction ++ (exponent ++ rest))).takeWhile isDigit) = decimal n := by
    rw [List.head?_append_of_ne_nil _ hwhole]
    split
    · rename_i hzero
      exact (hhead hzero).symm
    · exact (takeWhile_digits_of hdigits hbehind).1
  have hempty : (fraction.isEmpty && exponent.isEmpty) = false := by
    rcases hne with h | h <;> simp [h]
  unfold readNumeral
  rw [hsplit]
  simp only [hread, List.drop_left, readFraction_of hfraction (hexponent.noDigit hrest) hpoint,
    readExponent_of hexponent hrest, List.isEmpty_eq_false_iff.2 hwhole, hempty,
    Bool.false_eq_true, if_false, List.append_assoc]

theorem readScalar_float {repr : PyFloat → Str} {float : Str → PyFloat} {f : PyFloat} {rest : Str}
    (h : FloatReads repr float f) (hrest : Ends rest) :
    readScalar float (floatText repr f ++ rest) = some (.float f, rest) := by
  cases f with
  | nan => rfl
  | infinite negative => cases negative <;> rfl
  | finite sign mantissa exponent =>
    obtain ⟨⟨negative, n, fraction, power, htext, hfraction, hexponent, hne⟩, hfloat⟩ := h
    obtain ⟨hwhole, hdigits, -⟩ := decimal_spec n
    have hread := @readNumeral_float float negative n _ _ rest hfraction hexponent hne hrest
    rw [← htext, hfloat] at hread
    change readScalar float (repr (.finite sign mantissa exponent) ++ rest) = _
    obtain ⟨c, ds, hd⟩ := List.exists_cons_of_ne_nil hwhole
    have hc : isDigit c = true := hdigits c (by simp [hd])
    rw [htext]
    rw [hd] at hread ⊢
    cases negative with
    | true =>
      simp only [if_true, List.cons_append, List.nil_append] at hread ⊢
      rw [readScalar_minus hc]
      exact hread
    | false =>
      simp only [Bool.false_eq_true, if_false, List.cons_append, List.nil_append] at hread ⊢
      rw [readScalar_digit hc, readNumber]
      · exact hread
      · intro _ heq
        obtain ⟨rfl, -⟩ := List.cons.inj heq
        exact absurd hc (by decide)

/-- How the text of a float begins. -/
theorem floatText_head {repr : PyFloat → Str} {float : Str → PyFloat} {f : PyFloat}
    (h : FloatReads repr float f) :
    ∃ c t, floatText repr f = c :: t ∧ (isDigit c = true ∨ c ∈ [45, 73, 78]) := by
  cases f with
  | nan => exact ⟨78, lit "aN", rfl, by decide⟩
  | infinite negative =>
    cases negative with
    | false => exact ⟨73, lit "nfinity", rfl, by decide⟩
    | true => exact ⟨45, lit "Infinity", rfl, by decide⟩
  | finite sign mantissa exponent =>
    obtain ⟨⟨negative, n, fraction, power, htext, -⟩, -⟩ := h
    obtain ⟨hwhole, hdigits, -⟩ := decimal_spec n
    obtain ⟨c, ds, hd⟩ := List.exists_cons_of_ne_nil hwhole
    change ∃ c t, repr (.finite sign mantissa exponent) = c :: t ∧ _
    rw [htext, hd]
    cases negative with
    | true => exact ⟨45, _, rfl, by decide⟩
    | false => exact ⟨c, _, rfl, .inl (hdigits c (by simp [hd]))⟩

/-! ## Values -/

/-- The members stand in the order of their keys, each key once. -/
def KeySorted (members : List (Str × Json)) : Prop :=
  members.Pairwise fun a b => Str.le a.1 b.1 = true ∧ a.1 ≠ b.1

theorem keySorted_keys {members : List (Str × Json)} : KeySorted members ↔
    (members.map (·.1)).Pairwise fun a b => Str.le a b = true ∧ a ≠ b := by
  rw [KeySorted, List.pairwise_map]

mutual

/-- A value that is read back from its text: floats of `F`, no surrogate pair, members by key. -/
def CanonicalWith (F : PyFloat → Prop) : Json → Prop
  | .null => True
  | .bool _ => True
  | .int _ => True
  | .float f => F f
  | .str s => spelled s = true
  | .arr items => CanonicalItems F items
  | .obj members => CanonicalMembers F members ∧ KeySorted members

def CanonicalItems (F : PyFloat → Prop) : List Json → Prop
  | [] => True
  | v :: vs => CanonicalWith F v ∧ CanonicalItems F vs

def CanonicalMembers (F : PyFloat → Prop) : List (Str × Json) → Prop
  | [] => True
  | (k, v) :: ms => spelled k = true ∧ CanonicalWith F v ∧ CanonicalMembers F ms

end

/-- A value without floats that is read back from its text. -/
abbrev Canonical : Json → Prop := CanonicalWith fun _ => False

theorem setItem_new {members : List (Str × Json)} {key : Str} {value : Json}
    (h : ∀ m ∈ members, m.1 ≠ key) : setItem members key value = members ++ [(key, value)] := by
  unfold setItem
  rw [if_neg]
  simp only [List.any_eq_true, beq_iff_eq, not_exists, not_and]
  exact h

theorem foldl_setItem : ∀ {pairs members : List (Str × Json)},
    (members ++ pairs).Pairwise (fun a b => a.1 ≠ b.1) →
    pairs.foldl (fun d p => setItem d p.1 p.2) members = members ++ pairs := by
  intro pairs
  induction pairs with
  | nil => intro members _; simp
  | cons p pairs ih =>
    intro members h
    have hnew : ∀ m ∈ members, m.1 ≠ p.1 := fun m hm =>
      (List.pairwise_append.1 h).2.2 m hm p (by simp)
    rw [List.foldl_cons, setItem_new hnew, ih (by simpa using h)]
    simp

/-- `dict` of pairs under different keys. -/
theorem dict_of_sorted {pairs : List (Str × Json)} (h : KeySorted pairs) : dict pairs = pairs :=
  @foldl_setItem pairs [] (h.imp fun hab => hab.2)

variable {repr : PyFloat → Str} {F : PyFloat → Prop}

theorem byKey_of_sorted {members : List (Str × Json)} (h : KeySorted members) :
    byKey (dumpsMembers repr members) = dumpsMembers repr members := by
  rw [dumpsMembers_eq]
  refine List.Pairwise.insertionSort_eq ?_
  rw [List.pairwise_map]
  exact h.imp fun hab => hab.1

/-- A text that begins with no blank and no closing bracket. -/
def Starts (s : Str) : Prop := ∃ c t, s = c :: t ∧ c ∉ [32, 9, 10, 13, 93, 125]

theorem Starts.append {s rest : Str} (h : Starts s) : Starts (s ++ rest) := by
  obtain ⟨c, t, rfl, hc⟩ := h
  exact ⟨c, t ++ rest, rfl, hc⟩

theorem Starts.skipWs {s : Str} (h : Starts s) : Json.skipWs s = s := by
  obtain ⟨c, t, rfl, hc⟩ := h
  simp only [List.mem_cons, List.not_mem_nil, or_false, not_or] at hc
  rw [Json.skipWs, if_neg (by simp [hc])]

theorem dumps_starts (hF : ∀ f, F f → FloatReads repr float f) {v : Json} (h : CanonicalWith F v) : Starts (dumps repr v) := by
  cases v with
  | null => exact ⟨110, lit "ull", rfl, by decide⟩
  | bool b =>
    cases b with
    | false => exact ⟨102, lit "alse", rfl, by decide⟩
    | true => exact ⟨116, lit "rue", rfl, by decide⟩
  | int n =>
    rw [dumps]
    cases n with
    | ofNat n =>
      obtain ⟨hne, hdigits, -⟩ := decimal_spec n
      obtain ⟨c, ds, hd⟩ := List.exists_cons_of_ne_nil hne
      refine ⟨c, ds, hd, ?_⟩
      have hc := hdigits c (by simp [hd])
      simp only [isDigit, Bool.and_eq_true, decide_eq_true_eq] at hc
      simp only [List.mem_cons, List.not_mem_nil, or_false]
      omega
    | negSucc n => exact ⟨45, decimal (n + 1), rfl, by decide⟩
  | float f =>
    obtain ⟨c, t, htext, hc⟩ := floatText_head (hF f h)
    refine ⟨c, t, htext, ?_⟩
    rcases hc with hc | hc
    · simp only [isDigit, Bool.and_eq_true, decide_eq_true_eq] at hc
      simp only [List.mem_cons, List.not_mem_nil, or_false]
      omega
    · simp only [List.mem_cons, List.not_mem_nil, or_false] at hc ⊢
      omega
  | str s => exact ⟨34, _, by rw [dumps, quote], by decide⟩
  | arr items => exact ⟨91, _, by rw [dumps], by decide⟩
  | obj members => exact ⟨123, _, by rw [dumps], by decide⟩

/-- A number is not the beginning of another value. -/
theorem readValue_int {n : ℤ} {fuel : ℕ} {rest : Str} (h : Ends rest) :
    readValue float (fuel + 1) (intText n ++ rest) = some (.int n, rest) := by
  have hstart : ∃ c t, intText n ++ rest = c :: t ∧ c ≠ 34 ∧ c ≠ 123 ∧ c ≠ 91 := by
    cases n with
    | ofNat n =>
      obtain ⟨hne, hdigits, -⟩ := decimal_spec n
      obtain ⟨c, ds, hd⟩ := List.exists_cons_of_ne_nil hne
      have hc := hdigits c (by simp [hd])
      simp only [isDigit, Bool.and_eq_true, decide_eq_true_eq] at hc
      refine ⟨c, ds ++ rest, ?_, by omega, by omega, by omega⟩
      rw [← List.cons_append, ← hd]
      rfl
    | negSucc n => exact ⟨45, decimal (n + 1) ++ rest, rfl, by decide, by decide, by decide⟩
  have hread := @readScalar_int float n _ h
  obtain ⟨c, t, heq, h34, h123, h91⟩ := hstart
  rw [heq] at hread ⊢
  unfold readValue
  split
  · rename_i hc; exact absurd (List.cons.inj hc).1 h34
  · rename_i hc; exact absurd (List.cons.inj hc).1 h123
  · rename_i hc; exact absurd (List.cons.inj hc).1 h91
  · exact hread

theorem readValue_float {f : PyFloat} {fuel : ℕ} {rest : Str} (hf : FloatReads repr float f)
    (h : Ends rest) :
    readValue float (fuel + 1) (floatText repr f ++ rest) = some (.float f, rest) := by
  have hread := readScalar_float hf h
  obtain ⟨c, t, heq, hc⟩ := floatText_head hf
  have hne : c ≠ 34 ∧ c ≠ 123 ∧ c ≠ 91 := by
    rcases hc with hc | hc
    · simp only [isDigit, Bool.and_eq_true, decide_eq_true_eq] at hc
      omega
    · simp only [List.mem_cons, List.not_mem_nil, or_false] at hc
      omega
  rw [heq, List.cons_append] at hread ⊢
  unfold readValue
  split
  · rename_i hcons; exact absurd (List.cons.inj hcons).1 hne.1
  · rename_i hcons; exact absurd (List.cons.inj hcons).1 hne.2.1
  · rename_i hcons; exact absurd (List.cons.inj hcons).1 hne.2.2
  · exact hread

/-- The rest of an array or an object, behind a value. -/
theorem ends_comma {rest : Str} : Ends (44 :: rest) := by
  intro c hc
  cases hc
  exact .inl rfl

theorem ends_bracket {rest : Str} : Ends (93 :: rest) := by
  intro c hc
  cases hc
  exact .inr (.inl rfl)

theorem ends_brace {rest : Str} : Ends (125 :: rest) := by
  intro c hc
  cases hc
  exact .inr (.inr rfl)

theorem joined_cons {x y : Str} {ys : List Str} :
    joined (x :: y :: ys) = x ++ 44 :: joined (y :: ys) := rfl

theorem joined_starts {x : Str} {xs : List Str} (h : Starts x) : Starts (joined (x :: xs)) := by
  cases xs with
  | nil => exact h
  | cons y ys => exact h.append

theorem skipWs_colon (s : Str) : skipWs (58 :: s) = 58 :: s := rfl

theorem member_starts {m : Str × Str} : Starts (member m) := ⟨34, _, rfl, by decide⟩

/-- The reading of one kind of text within a fuel. -/
structure ReadsBack (F : PyFloat → Prop) (repr : PyFloat → Str) (float : Str → PyFloat) (fuel : ℕ) :
    Prop where
  value : ∀ {v : Json} {rest : Str}, CanonicalWith F v → 2 * (dumps repr v).length + 1 ≤ fuel →
    Ends rest → readValue float fuel (dumps repr v ++ rest) = some (v, rest)
  items : ∀ {v : Json} {vs : List Json} {rest : Str}, CanonicalItems F (v :: vs) →
    2 * (joined (dumpsItems repr (v :: vs))).length + 2 ≤ fuel →
      readItems float fuel (joined (dumpsItems repr (v :: vs)) ++ 93 :: rest) = some (v :: vs, rest)
  members : ∀ {m : Str × Json} {ms : List (Str × Json)} {rest : Str},
    CanonicalMembers F (m :: ms) →
      2 * (joined ((dumpsMembers repr (m :: ms)).map member)).length + 2 ≤ fuel →
      readMembers float fuel (joined ((dumpsMembers repr (m :: ms)).map member) ++ 125 :: rest) =
        some (m :: ms, rest)

section Step

variable {fuel : ℕ} {rest : Str} (hF : ∀ f, F f → FloatReads repr float f)
  (ih : ReadsBack F repr float fuel)

include hF ih

/-- The items of an array, when what stands in it is read back. -/
theorem items_step {v : Json} {vs : List Json} (h : CanonicalItems F (v :: vs))
    (hfuel : 2 * (joined (dumpsItems repr (v :: vs))).length + 2 ≤ fuel + 1) :
    readItems float (fuel + 1) (joined (dumpsItems repr (v :: vs)) ++ 93 :: rest) =
      some (v :: vs, rest) := by
  obtain ⟨hv, hvs⟩ := h
  cases vs with
  | nil =>
    have hlen : 2 * (dumps repr v).length + 1 ≤ fuel := by
      simp only [dumpsItems, joined] at hfuel
      omega
    have hread := @ReadsBack.value _ _ _ _ ih _ (93 :: rest) hv hlen ends_bracket
    simp only [dumpsItems, joined, readItems, hread]
    rfl
  | cons w ws =>
    have hsplit : joined (dumpsItems repr (v :: w :: ws)) =
        dumps repr v ++ 44 :: joined (dumpsItems repr (w :: ws)) := rfl
    rw [hsplit, List.length_append, List.length_cons] at hfuel
    have hread := @ReadsBack.value _ _ _ _ ih _
      (44 :: (joined (dumpsItems repr (w :: ws)) ++ 93 :: rest)) hv (by omega) ends_comma
    have hstarts : Starts (joined (dumpsItems repr (w :: ws)) ++ 93 :: rest) :=
      (joined_starts (dumps_starts hF hvs.1)).append
    have hrest := @ReadsBack.items _ _ _ _ ih _ _ rest hvs (by omega)
    rw [hsplit, List.append_assoc, List.cons_append, readItems, hread]
    change (readItems float fuel (skipWs (joined (dumpsItems repr (w :: ws)) ++ 93 :: rest))).map _ = _
    rw [hstarts.skipWs, hrest]
    rfl

/-- A member, and what stands behind it. -/
theorem member_step {k : Str} {v : Json} (hk : spelled k = true) (hv : CanonicalWith F v)
    (hfuel : 2 * (member (k, dumps repr v)).length + 2 ≤ fuel + 1) (hrest : Ends rest) :
    ∃ s, member (k, dumps repr v) ++ rest = 34 :: s ∧
      readString none s = some (k, 58 :: (dumps repr v ++ rest)) ∧
      readValue float fuel (skipWs (dumps repr v ++ rest)) = some (v, rest) := by
  refine ⟨k.flatMap escapeChar ++ 34 :: 58 :: (dumps repr v ++ rest), ?_, readString_quote hk, ?_⟩
  · simp [member, quote]
  · have hlen : 2 * (dumps repr v).length + 1 ≤ fuel := by
      simp only [member, List.length_append, List.length_cons] at hfuel
      omega
    rw [(dumps_starts hF hv).append.skipWs]
    exact ih.value hv hlen hrest

/-- The members of an object, when what stands in it is read back. -/
theorem members_step {m : Str × Json} {ms : List (Str × Json)} (h : CanonicalMembers F (m :: ms))
    (hfuel : 2 * (joined ((dumpsMembers repr (m :: ms)).map member)).length + 2 ≤ fuel + 1) :
    readMembers float (fuel + 1) (joined ((dumpsMembers repr (m :: ms)).map member) ++ 125 :: rest) =
      some (m :: ms, rest) := by
  obtain ⟨k, v⟩ := m
  obtain ⟨hk, hv, hms⟩ := h
  cases ms with
  | nil =>
    have hone : joined ((dumpsMembers repr [(k, v)]).map member) = member (k, dumps repr v) := rfl
    rw [hone] at hfuel ⊢
    obtain ⟨s, heq, hkey, hvalue⟩ := @member_step _ _ _ _ (125 :: rest) hF ih _ _ hk hv hfuel ends_brace
    rw [heq, readMembers, hkey]
    simp only [skipWs_colon, hvalue]
    rfl
  | cons m ms =>
    have hsplit : joined ((dumpsMembers repr ((k, v) :: m :: ms)).map member) =
        member (k, dumps repr v) ++ 44 :: joined ((dumpsMembers repr (m :: ms)).map member) := rfl
    rw [hsplit, List.length_append, List.length_cons] at hfuel
    obtain ⟨s, heq, hkey, hvalue⟩ := @member_step _ _ _ _
      (44 :: (joined ((dumpsMembers repr (m :: ms)).map member) ++ 125 :: rest)) hF ih _ _ hk hv
      (by omega) ends_comma
    have hstarts : Starts (joined ((dumpsMembers repr (m :: ms)).map member) ++ 125 :: rest) :=
      (joined_starts member_starts).append
    have hrest := @ReadsBack.members _ _ _ _ ih _ _ rest hms (by omega)
    rw [hsplit, List.append_assoc, List.cons_append, heq, readMembers, hkey]
    simp only [skipWs_colon, hvalue]
    change (readMembers float fuel (skipWs
      (joined ((dumpsMembers repr (m :: ms)).map member) ++ 125 :: rest))).map _ = _
    rw [hstarts.skipWs, hrest]
    rfl

/-- A value, when what stands in it is read back. -/
theorem value_step {v : Json} (h : CanonicalWith F v) (hfuel : 2 * (dumps repr v).length + 1 ≤ fuel + 1)
    (hrest : Ends rest) : readValue float (fuel + 1) (dumps repr v ++ rest) = some (v, rest) := by
  cases v with
  | null => rfl
  | bool b => cases b <;> rfl
  | int n => exact readValue_int hrest
  | float f => exact readValue_float (hF f h) hrest
  | str s =>
    have hread := @readString_quote _ rest h
    rw [dumps, quote, List.cons_append, List.append_assoc, List.singleton_append, readValue, hread]
    rfl
  | arr items =>
    cases items with
    | nil => rfl
    | cons v vs =>
      rw [dumps, List.length_cons, List.length_append] at hfuel
      have hitems := @ReadsBack.items _ _ _ _ ih _ _ rest h (by simp only [List.length_singleton] at hfuel; omega)
      have hstarts : Starts (joined (dumpsItems repr (v :: vs)) ++ 93 :: rest) :=
        (joined_starts (dumps_starts hF h.1)).append
      rw [dumps, List.cons_append, List.append_assoc, List.singleton_append, readValue,
        hstarts.skipWs]
      obtain ⟨c, t, heq, hc⟩ := hstarts
      rw [heq] at hitems ⊢
      split
      · rename_i hclose
        obtain ⟨rfl, -⟩ := List.cons.inj hclose
        exact absurd (by decide) hc
      · rw [hitems]
        rfl
  | obj members =>
    obtain ⟨hmembers, hsorted⟩ := h
    cases members with
    | nil => rfl
    | cons m ms =>
      rw [dumps, byKey_of_sorted hsorted, List.length_cons, List.length_append] at hfuel
      have hread := @ReadsBack.members _ _ _ _ ih _ _ rest hmembers
        (by simp only [List.length_singleton] at hfuel; omega)
      have hstarts : Starts (joined ((dumpsMembers repr (m :: ms)).map member) ++ 125 :: rest) :=
        (joined_starts member_starts).append
      rw [dumps, byKey_of_sorted hsorted, List.cons_append, List.append_assoc,
        List.singleton_append, readValue, hstarts.skipWs]
      obtain ⟨c, t, heq, hc⟩ := hstarts
      rw [heq] at hread ⊢
      split
      · rename_i hclose
        obtain ⟨rfl, -⟩ := List.cons.inj hclose
        exact absurd (by decide) hc
      · rw [hread]
        simp only [Option.map_some, dict_of_sorted hsorted]

end Step

theorem readsBack (hF : ∀ f, F f → FloatReads repr float f) :
    ∀ fuel, ReadsBack F repr float fuel := by
  intro fuel
  induction fuel with
  | zero => exact ⟨fun _ h => by omega, fun _ h => by omega, fun _ h => by omega⟩
  | succ fuel ih => exact ⟨value_step hF ih, items_step hF ih, members_step hF ih⟩

/-- **A canonical text is read as the value it was written of.** -/
theorem loads_dumpsWith (hF : ∀ f, F f → FloatReads repr float f) {v : Json}
    (h : CanonicalWith F v) : loads float (dumps repr v) = some v := by
  have hread := @ReadsBack.value _ _ _ _ (readsBack hF (2 * (dumps repr v).length + 1)) _ []
    h (Nat.le_refl _) (fun c hc => by cases hc)
  rw [List.append_nil] at hread
  unfold loads
  rw [(dumps_starts hF h).skipWs, hread]
  rfl

theorem loads_dumps {v : Json} (h : Canonical v) : loads float (dumps repr v) = some v :=
  loads_dumpsWith (fun _ hf => hf.elim) h

/-! ## One line -/

/-- A text without control characters: it stands on one line. -/
def Printed (s : Str) : Prop := ∀ c ∈ s, 32 ≤ c

/-- A text of printable ASCII. -/
def Printable (s : Str) : Prop := ∀ c ∈ s, 32 ≤ c ∧ c < 127

theorem Printable.printed {s : Str} (h : Printable s) : Printed s := fun c hc => (h c hc).1

theorem Printable.append {s t : Str} (hs : Printable s) (ht : Printable t) :
    Printable (s ++ t) := by
  intro c hc
  rcases List.mem_append.1 hc with hc | hc
  · exact hs c hc
  · exact ht c hc

theorem Printable.cons {c : ℕ} {s : Str} (hc : 32 ≤ c ∧ c < 127) (hs : Printable s) :
    Printable (c :: s) := by
  intro d hd
  rcases List.mem_cons.1 hd with rfl | hd
  · exact hc
  · exact hs d hd

theorem printable_digits {s : Str} (h : ∀ c ∈ s, isDigit c = true) : Printable s := by
  intro c hc
  have := h c hc
  simp only [isDigit, Bool.and_eq_true, decide_eq_true_eq] at this
  omega

theorem printable_intText (n : ℤ) : Printable (intText n) := by
  cases n with
  | ofNat n => exact printable_digits (decimal_spec n).2.1
  | negSucc n => exact .cons (by decide) (printable_digits (decimal_spec (n + 1)).2.1)

theorem printable_hex4 (n : ℕ) : Printable (hex4 n) := by
  intro c hc
  have hdigit : ∀ k, 32 ≤ hexDigit (k % 16) ∧ hexDigit (k % 16) < 127 := by
    intro k
    unfold hexDigit
    split <;> omega
  simp only [hex4, List.mem_cons, List.not_mem_nil, or_false] at hc
  rcases hc with rfl | rfl | rfl | rfl <;> exact hdigit _

theorem printable_unit (n : ℕ) : Printable (92 :: 117 :: hex4 n) :=
  .cons (by decide) (.cons (by decide) (printable_hex4 n))

theorem printable_escapeChar (c : ℕ) : Printable (escapeChar c) := by
  have hpair : ∀ e, 32 ≤ e ∧ e < 127 → Printable [92, e] := fun e he =>
    .cons (by decide) (.cons he fun _ h => by cases h)
  unfold escapeChar
  split_ifs with h34 h92 hplain
  · exact hpair _ (by decide)
  · exact hpair _ (by decide)
  · exact .cons hplain fun _ h => by cases h
  · exact hpair _ (by decide)
  · exact hpair _ (by decide)
  · exact hpair _ (by decide)
  · exact hpair _ (by decide)
  · exact hpair _ (by decide)
  · exact printable_unit c
  · exact (printable_unit _).append (printable_unit _)

theorem printable_quote (s : Str) : Printable (quote s) := by
  refine .cons (by decide) (.append ?_ fun c hc => ?_)
  · intro c hc
    obtain ⟨d, -, hd⟩ := List.mem_flatMap.1 hc
    exact printable_escapeChar d c hd
  · obtain rfl := List.mem_singleton.1 hc
    decide

theorem printable_joined : ∀ {xs : List Str}, (∀ x ∈ xs, Printable x) → Printable (joined xs) := by
  intro xs
  induction xs with
  | nil => intro _ c hc; cases hc
  | cons x xs ih =>
    intro h
    cases xs with
    | nil => exact h x (by simp)
    | cons y ys =>
      rw [joined_cons]
      exact (h x (by simp)).append (.cons (by decide) (ih fun z hz => h z (by simp [hz])))

theorem printable_numeral {s : Str} (h : Numeral s) : Printable s := by
  obtain ⟨negative, n, fraction, exponent, rfl, hfraction, hexponent, -⟩ := h
  refine .append ?_ (.append (printable_digits (decimal_spec n).2.1) (.append ?_ ?_))
  · cases negative <;> unfold Printable <;> decide
  · rcases hfraction with rfl | ⟨ds, rfl, -, hds⟩
    · exact fun _ hc => by cases hc
    · exact .cons (by decide) (printable_digits hds)
  · rcases hexponent with rfl | ⟨sign, ds, rfl, hsign, -, hds⟩
    · exact fun _ hc => by cases hc
    · refine .cons (by decide) (.append ?_ (printable_digits hds))
      simp only [List.mem_cons, List.not_mem_nil, or_false] at hsign
      rcases hsign with rfl | rfl | rfl <;> unfold Printable <;> decide

theorem printable_floatText {f : PyFloat} (h : FloatReads repr float f) :
    Printable (floatText repr f) := by
  cases f with
  | nan => change Printable (lit "NaN"); unfold Printable; decide
  | infinite negative =>
    cases negative
    · change Printable (lit "Infinity"); unfold Printable; decide
    · change Printable (lit "-Infinity"); unfold Printable; decide
  | finite negative mantissa exponent => exact printable_numeral h.1

mutual

/-- The floats of a value are of `F`. -/
def Floats (F : PyFloat → Prop) : Json → Prop
  | .null => True
  | .bool _ => True
  | .int _ => True
  | .float f => F f
  | .str _ => True
  | .arr items => FloatsItems F items
  | .obj members => FloatsMembers F members

def FloatsItems (F : PyFloat → Prop) : List Json → Prop
  | [] => True
  | v :: vs => Floats F v ∧ FloatsItems F vs

def FloatsMembers (F : PyFloat → Prop) : List (Str × Json) → Prop
  | [] => True
  | (_, v) :: ms => Floats F v ∧ FloatsMembers F ms

end

mutual

theorem floats_of_canonical : ∀ {v : Json}, CanonicalWith F v → Floats F v
  | .null, _ => trivial
  | .bool _, _ => trivial
  | .int _, _ => trivial
  | .float _, h => h
  | .str _, _ => trivial
  | .arr _, h => floats_of_canonicalItems h
  | .obj _, h => floats_of_canonicalMembers h.1

theorem floats_of_canonicalItems : ∀ {vs : List Json}, CanonicalItems F vs → FloatsItems F vs
  | [], _ => trivial
  | _ :: _, h => ⟨floats_of_canonical h.1, floats_of_canonicalItems h.2⟩

theorem floats_of_canonicalMembers : ∀ {ms : List (Str × Json)}, CanonicalMembers F ms →
    FloatsMembers F ms
  | [], _ => trivial
  | (_, _) :: _, h => ⟨floats_of_canonical h.2.1, floats_of_canonicalMembers h.2.2⟩

end

mutual

/-- A text of JSON is printable ASCII. -/
theorem printable_dumps (hF : ∀ f, F f → FloatReads repr float f) :
    ∀ {v : Json}, Floats F v → Printable (dumps repr v)
  | .null, _ => by rw [dumps]; unfold Printable; decide
  | .bool true, _ => by rw [dumps]; unfold Printable; decide
  | .bool false, _ => by rw [dumps]; unfold Printable; decide
  | .int n, _ => printable_intText n
  | .float _, h => printable_floatText (hF _ h)
  | .str s, _ => printable_quote s
  | .arr _, h => by
    rw [dumps]
    refine .cons (by decide) (.append (printable_joined (printable_dumpsItems hF h)) ?_)
    unfold Printable
    decide
  | .obj members, h => by
    rw [dumps]
    refine .cons (by decide) (.append (printable_joined fun x hx => ?_) ?_)
    · obtain ⟨m, hm, rfl⟩ := List.mem_map.1 hx
      have hm' := (List.perm_insertionSort _ _).mem_iff.1 hm
      exact (printable_quote _).append (.cons (by decide) (printable_dumpsMembers hF h m hm'))
    · unfold Printable
      decide

theorem printable_dumpsItems (hF : ∀ f, F f → FloatReads repr float f) :
    ∀ {vs : List Json}, FloatsItems F vs →
    ∀ x ∈ dumpsItems repr vs, Printable x
  | [], _, x, hx => by cases hx
  | v :: vs, h, x, hx => by
    rw [dumpsItems] at hx
    rcases List.mem_cons.1 hx with rfl | hx
    · exact printable_dumps hF h.1
    · exact printable_dumpsItems hF h.2 x hx

theorem printable_dumpsMembers (hF : ∀ f, F f → FloatReads repr float f) :
    ∀ {ms : List (Str × Json)}, FloatsMembers F ms →
    ∀ m ∈ dumpsMembers repr ms, Printable m.2
  | [], _, m, hm => by cases hm
  | (k, v) :: ms, h, m, hm => by
    rw [dumpsMembers] at hm
    rcases List.mem_cons.1 hm with rfl | hm
    · exact printable_dumps hF h.1
    · exact printable_dumpsMembers hF h.2 m hm

end

/-- **A canonical text stands on one line.** -/
theorem printed_dumps {v : Json} (h : Canonical v) : Printed (dumps repr v) :=
  (@printable_dumps (fun _ => .nan) repr _ (fun _ hf => hf.elim) v (floats_of_canonical h)).printed

end Json

end SayFirst.Py
