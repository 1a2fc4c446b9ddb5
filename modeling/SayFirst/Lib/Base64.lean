import SayFirst.Lib.Reference

/-!
# Writing base64 (`base64.b64encode`)

`base64Encode` writes three bytes as four characters, the last group padded. What it writes is
read back by the strict reader of the reference library.
-/

namespace SayFirst.Py

/-- The character of six bits. -/
def base64Char (n : ℕ) : ℕ :=
  if n < 26 then n + 65 else if n < 52 then n + 71 else if n < 62 then n - 4
  else if n = 62 then 43 else 47

/-- `base64.b64encode(raw).decode("ascii")` -/
def base64Encode : Bytes → Str
  | a :: b :: c :: rest =>
    base64Char (a.toNat / 4) :: base64Char (a.toNat % 4 * 16 + b.toNat / 16) ::
      base64Char (b.toNat % 16 * 4 + c.toNat / 64) :: base64Char (c.toNat % 64) :: base64Encode rest
  | [a, b] =>
    [base64Char (a.toNat / 4), base64Char (a.toNat % 4 * 16 + b.toNat / 16),
      base64Char (b.toNat % 16 * 4), 61]
  | [a] => [base64Char (a.toNat / 4), base64Char (a.toNat % 4 * 16), 61, 61]
  | [] => []

theorem sixBits_base64Char : ∀ {n : ℕ}, n < 64 → sixBits (base64Char n) = some n := by
  have h : ∀ n : Fin 64, sixBits (base64Char n) = some n.1 := by decide
  intro n hn
  exact h ⟨n, hn⟩

theorem base64Char_ne {n : ℕ} (h : n < 64) : base64Char n ≠ 61 := by
  intro heq
  have := sixBits_base64Char h
  rw [heq] at this
  cases this

/-- **What is written in base64 is read back.** -/
theorem base64Decode_encode : ∀ raw : Bytes, base64Decode (base64Encode raw) = some raw
  | [] => rfl
  | [a] => by
    have ha := a.toNat_lt
    rw [base64Encode, base64Decode, if_neg (by simp), base64Group,
      sixBits_base64Char (by omega), sixBits_base64Char (by omega)]
    simp only [Option.bind_eq_bind, Option.bind_some, and_self, if_true, base64Decode]
    have hbyte : a.toNat / 4 * 4 + a.toNat % 4 * 16 / 16 = a.toNat := by omega
    rw [hbyte, UInt8.ofNat_toNat]
    rfl
  | [a, b] => by
    have ha := a.toNat_lt
    have hb := b.toNat_lt
    have hc := @base64Char_ne (b.toNat % 16 * 4) (by omega)
    rw [base64Encode, base64Decode, if_neg (by simp), base64Group,
      sixBits_base64Char (by omega), sixBits_base64Char (by omega), sixBits_base64Char (by omega)]
    simp only [Option.bind_eq_bind, Option.bind_some, hc, false_and, if_false, if_true, base64Decode]
    have hfirst : a.toNat / 4 * 4 + (a.toNat % 4 * 16 + b.toNat / 16) / 16 = a.toNat := by omega
    have hsecond : (a.toNat % 4 * 16 + b.toNat / 16) % 16 * 16 + b.toNat % 16 * 4 / 4 = b.toNat := by
      omega
    rw [hfirst, hsecond, UInt8.ofNat_toNat, UInt8.ofNat_toNat]
    rfl
  | a :: b :: c :: rest => by
    have ha := a.toNat_lt
    have hb := b.toNat_lt
    have hc := c.toNat_lt
    have hthird := @base64Char_ne (b.toNat % 16 * 4 + c.toNat / 64) (by omega)
    have hfourth := @base64Char_ne (c.toNat % 64) (by omega)
    rw [base64Encode, base64Decode, if_neg (fun h => hfourth h.1), base64Group,
      sixBits_base64Char (by omega), sixBits_base64Char (by omega), sixBits_base64Char (by omega),
      sixBits_base64Char (by omega), base64Decode_encode rest]
    simp only [Option.bind_eq_bind, Option.bind_some, hthird, hfourth, false_and, if_false]
    have h1 : a.toNat / 4 * 4 + (a.toNat % 4 * 16 + b.toNat / 16) / 16 = a.toNat := by omega
    have h2 : (a.toNat % 4 * 16 + b.toNat / 16) % 16 * 16 +
        (b.toNat % 16 * 4 + c.toNat / 64) / 4 = b.toNat := by omega
    have h3 : (b.toNat % 16 * 4 + c.toNat / 64) % 4 * 64 + c.toNat % 64 = c.toNat := by omega
    rw [h1, h2, h3, UInt8.ofNat_toNat, UInt8.ofNat_toNat, UInt8.ofNat_toNat]
    rfl

theorem length_base64Encode : ∀ raw : Bytes, (base64Encode raw).length ≤ raw.length / 3 * 4 + 4
  | [] => by simp [base64Encode]
  | [a] => by simp [base64Encode]
  | [a, b] => by simp [base64Encode]
  | a :: b :: c :: rest => by
    have := length_base64Encode rest
    simp only [base64Encode, List.length_cons]
    omega

end SayFirst.Py
