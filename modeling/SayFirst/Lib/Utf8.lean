import SayFirst.Lib.JsonRead

/-!
# Bytes of a text

UTF-8 gives different texts different bytes, and so does ASCII where it applies.

* `utf8_inj`, `ascii_inj` — a text is known by its bytes.
* `utf8_spelled`, `spelled_of_ascii` — a text that is encoded has no surrogate.
-/

namespace SayFirst.Py

theorem ofNat_inj {a b : ℕ} (h : UInt8.ofNat a = UInt8.ofNat b) (ha : a < 256) (hb : b < 256) :
    a = b := by
  have := congrArg UInt8.toNat h
  simp only [UInt8.toNat_ofNat'] at this
  omega

/-- What the bytes of a code point are, by how many there are. -/
theorem utf8Char_some {c : ℕ} {b : Bytes} (h : utf8Char c = some b) :
    (c < 0x80 ∧ b = [.ofNat c]) ∨
    ((0x80 ≤ c ∧ c < 0x800) ∧ b = [.ofNat (0xC0 + c / 64), .ofNat (0x80 + c % 64)]) ∨
    ((0x800 ≤ c ∧ c < 0x10000) ∧ b = [.ofNat (0xE0 + c / 4096), .ofNat (0x80 + c / 64 % 64),
      .ofNat (0x80 + c % 64)]) ∨
    ((0x10000 ≤ c ∧ c < 0x110000) ∧ b = [.ofNat (0xF0 + c / 262144),
      .ofNat (0x80 + c / 4096 % 64), .ofNat (0x80 + c / 64 % 64), .ofNat (0x80 + c % 64)]) := by
  unfold utf8Char at h
  split_ifs at h with h1 h2 h3 h4 h5
  · exact .inl ⟨h1, (Option.some.inj h).symm⟩
  · exact .inr (.inl ⟨⟨by omega, h2⟩, (Option.some.inj h).symm⟩)
  · exact .inr (.inr (.inl ⟨⟨by omega, h4⟩, (Option.some.inj h).symm⟩))
  · exact .inr (.inr (.inr ⟨⟨by omega, h5⟩, (Option.some.inj h).symm⟩))

/-- A code point is known by the bytes it begins with. -/
theorem utf8Char_append {c d : ℕ} {b b' x y : Bytes} (hc : utf8Char c = some b)
    (hd : utf8Char d = some b') (h : b ++ x = b' ++ y) : c = d ∧ x = y := by
  rcases utf8Char_some hc with ⟨hc, rfl⟩ | ⟨hc, rfl⟩ | ⟨hc, rfl⟩ | ⟨hc, rfl⟩ <;>
    rcases utf8Char_some hd with ⟨hd, rfl⟩ | ⟨hd, rfl⟩ | ⟨hd, rfl⟩ | ⟨hd, rfl⟩ <;>
    simp only [List.cons_append, List.nil_append, List.cons.injEq] at h
  · exact ⟨ofNat_inj h.1 (by omega) (by omega), h.2⟩
  · exact absurd (ofNat_inj h.1 (by omega) (by omega)) (by omega)
  · exact absurd (ofNat_inj h.1 (by omega) (by omega)) (by omega)
  · exact absurd (ofNat_inj h.1 (by omega) (by omega)) (by omega)
  · exact absurd (ofNat_inj h.1 (by omega) (by omega)) (by omega)
  · have h1 := ofNat_inj h.1 (by omega) (by omega)
    have h2 := ofNat_inj h.2.1 (by omega) (by omega)
    exact ⟨by omega, h.2.2⟩
  · exact absurd (ofNat_inj h.1 (by omega) (by omega)) (by omega)
  · exact absurd (ofNat_inj h.1 (by omega) (by omega)) (by omega)
  · exact absurd (ofNat_inj h.1 (by omega) (by omega)) (by omega)
  · exact absurd (ofNat_inj h.1 (by omega) (by omega)) (by omega)
  · have h1 := ofNat_inj h.1 (by omega) (by omega)
    have h2 := ofNat_inj h.2.1 (by omega) (by omega)
    have h3 := ofNat_inj h.2.2.1 (by omega) (by omega)
    exact ⟨by omega, h.2.2.2⟩
  · exact absurd (ofNat_inj h.1 (by omega) (by omega)) (by omega)
  · exact absurd (ofNat_inj h.1 (by omega) (by omega)) (by omega)
  · exact absurd (ofNat_inj h.1 (by omega) (by omega)) (by omega)
  · exact absurd (ofNat_inj h.1 (by omega) (by omega)) (by omega)
  · have h1 := ofNat_inj h.1 (by omega) (by omega)
    have h2 := ofNat_inj h.2.1 (by omega) (by omega)
    have h3 := ofNat_inj h.2.2.1 (by omega) (by omega)
    have h4 := ofNat_inj h.2.2.2.1 (by omega) (by omega)
    exact ⟨by omega, h.2.2.2.2⟩

theorem utf8_cons {c : ℕ} {s : Str} {b : Bytes} (h : utf8 (c :: s) = some b) :
    ∃ b₁ b₂, utf8Char c = some b₁ ∧ utf8 s = some b₂ ∧ b = b₁ ++ b₂ := by
  rw [utf8] at h
  cases hc : utf8Char c with
  | none => simp [hc] at h
  | some b₁ =>
    cases hs : utf8 s with
    | none => simp [hc, hs] at h
    | some b₂ =>
      simp only [hc, hs, Option.some.injEq] at h
      exact ⟨b₁, b₂, rfl, rfl, h.symm⟩

theorem utf8Char_ne_nil {c : ℕ} {b : Bytes} (h : utf8Char c = some b) : b ≠ [] := by
  rcases utf8Char_some h with ⟨-, rfl⟩ | ⟨-, rfl⟩ | ⟨-, rfl⟩ | ⟨-, rfl⟩ <;> simp

/-- A text has at least one byte a character. -/
theorem length_le_of_utf8 : ∀ {s : Str} {b : Bytes}, utf8 s = some b → s.length ≤ b.length
  | [], _, _ => Nat.zero_le _
  | c :: s, b, h => by
    obtain ⟨b₁, b₂, hc, hs, rfl⟩ := utf8_cons h
    have hfirst := List.length_pos_of_ne_nil (utf8Char_ne_nil hc)
    have hrest := length_le_of_utf8 hs
    rw [List.length_append, List.length_cons]
    omega

/-- **A text is known by its bytes.** -/
theorem utf8_inj : ∀ {s t : Str} {b : Bytes}, utf8 s = some b → utf8 t = some b → s = t := by
  intro s
  induction s with
  | nil =>
    intro t b hs ht
    obtain rfl : b = [] := (Option.some.inj hs).symm
    cases t with
    | nil => rfl
    | cons d t =>
      obtain ⟨b₁, b₂, hd, -, hb⟩ := utf8_cons ht
      exact absurd (List.append_eq_nil_iff.1 hb.symm).1 (utf8Char_ne_nil hd)
  | cons c s ih =>
    intro t b hs ht
    obtain ⟨b₁, b₂, hc, hs', hb⟩ := utf8_cons hs
    cases t with
    | nil =>
      obtain rfl : b = [] := (Option.some.inj ht).symm
      exact absurd (List.append_eq_nil_iff.1 hb.symm).1 (utf8Char_ne_nil hc)
    | cons d t =>
      obtain ⟨b₃, b₄, hd, ht', hb'⟩ := utf8_cons ht
      obtain ⟨rfl, rfl⟩ := utf8Char_append hc hd (hb.symm.trans hb')
      rw [ih hs' ht']

/-- A text that is encoded has no surrogate. -/
theorem utf8_spelled : ∀ {s : Str} {b : Bytes}, utf8 s = some b → Json.spelled s = true := by
  intro s
  induction s with
  | nil => intro b _; rfl
  | cons c s ih =>
    intro b h
    obtain ⟨b₁, b₂, hc, hs, -⟩ := utf8_cons h
    have hbound : c < 0x110000 := by
      rcases utf8Char_some hc with ⟨h, -⟩ | ⟨h, -⟩ | ⟨h, -⟩ | ⟨h, -⟩ <;> omega
    have hhigh : Json.isHigh c = false := by
      by_contra hhigh
      rw [Bool.not_eq_false, Json.isHigh, Bool.and_eq_true, decide_eq_true_eq,
        decide_eq_true_eq] at hhigh
      unfold utf8Char at hc
      rw [if_neg (by omega), if_neg (by omega), if_pos (by omega)] at hc
      cases hc
    rw [Json.spelled, hhigh, ih hs, decide_eq_true hbound]
    rfl

theorem spelled_of_ascii : ∀ {s : Str}, (∀ c ∈ s, c < 128) → Json.spelled s = true := by
  intro s
  induction s with
  | nil => intro _; rfl
  | cons c s ih =>
    intro h
    have hc := h c (by simp)
    have hhigh : Json.isHigh c = false := by
      simp only [Json.isHigh, Bool.and_eq_false_iff, decide_eq_false_iff_not]
      omega
    simp only [Json.spelled, hhigh, ih fun d hd => h d (by simp [hd]), Bool.false_and,
      Bool.not_false, Bool.and_true, decide_eq_true_eq]
    omega

/-- A text of code points under 256 is known by its bytes. -/
theorem ascii_inj {s t : Str} (hs : ∀ c ∈ s, c < 256) (ht : ∀ c ∈ t, c < 256)
    (h : ascii s = ascii t) : s = t := by
  induction s generalizing t with
  | nil =>
    cases t with
    | nil => rfl
    | cons d t => simp [ascii] at h
  | cons c s ih =>
    cases t with
    | nil => simp [ascii] at h
    | cons d t =>
      simp only [ascii, List.map_cons, List.cons.injEq] at h
      have hcd := ofNat_inj h.1 (hs c List.mem_cons_self) (ht d List.mem_cons_self)
      rw [hcd, ih (fun c hc => hs c (List.mem_cons_of_mem _ hc))
        (fun c hc => ht c (List.mem_cons_of_mem _ hc)) h.2]

end SayFirst.Py
