import Mathlib.Data.List.Chain
import SayFirst.Lib.Text

/-!
# Scanning a hash chain

A chain is a list of entries in increasing sequence, each with the hash it
carries, the hash it recomputes to and the hash of the entry before it. `scan`
looks for what is wrong in three passes, over sequences, then hashes, then links,
and stops at the first thing a pass finds.

* `scan_intact` — what is found intact is contiguous, sound and linked.
* `Unbroken` — a stretch of an intact chain, and `Unbroken.scan`, that it is found intact, too.
* `scan_first_fault` — when the fault found is also the least one.
-/

namespace SayFirst.Chain

open Py

/-- What a scan reads of an entry. -/
structure View (α : Type*) where
  sequence : α → ℤ
  /-- Whether the entry declares the recipe the verifier knows. -/
  known : α → Bool
  /-- The hash the recipe yields, when it can be applied. -/
  recomputed : α → Option Str
  hash : α → Str
  previous : α → Option Str

inductive Finding (α : Type*) where
  | nothing
  | missingAll (sequence : ℤ)
  | missingFirst (sequence : ℤ)
  | missing (sequence : ℤ) (index : ℕ)
  | missingLast (sequence : ℤ)
  | unknown (entry : α) (index : ℕ)
  | unappliable (entry : α) (index : ℕ)
  | altered (entry : α) (expected : Str) (index : ℕ)
  | unlinked (before entry : α) (index : ℕ)
  | intact

variable {α : Type*} (v : View α)

/-- The first sequence missing between two neighbours, and how many entries stand before it. -/
def firstMissing : ℕ → List α → Option (ℤ × ℕ)
  | index, a :: b :: rest =>
    if v.sequence b ≠ v.sequence a + 1 then some (v.sequence a + 1, index)
    else firstMissing (index + 1) (b :: rest)
  | _, _ => none

/-- The first entry that is not what it recomputes to. -/
def firstUnsound : ℕ → List α → Option (Finding α)
  | _, [] => none
  | index, e :: rest =>
    if v.known e then
      match v.recomputed e with
      | none => some (.unappliable e index)
      | some expected =>
        if expected = v.hash e then firstUnsound (index + 1) rest
        else some (.altered e expected index)
    else some (.unknown e index)

/-- The first entry that does not name the hash before it. -/
def firstUnlinked : ℕ → List α → Option (Finding α)
  | index, a :: b :: rest =>
    if v.previous b = some (v.hash a) then firstUnlinked (index + 1) (b :: rest)
    else some (.unlinked a b index)
  | _, _ => none

/-- What is missing of a chain from `lo` to `hi`. -/
def firstAbsent (lo : ℤ) (hi : Option ℤ) : List α → Option (Finding α)
  | [] => some (if hi.isNone then .nothing else .missingAll lo)
  | first :: rest =>
    if v.sequence first ≠ lo then some (.missingFirst lo)
    else
      match firstMissing v 1 (first :: rest) with
      | some (sequence, index) => some (.missing sequence index)
      | none =>
        let last := (first :: rest).getLast (List.cons_ne_nil first rest)
        if hi.any (v.sequence last < ·) then some (.missingLast (v.sequence last + 1)) else none

/-- The passes over a chain from `lo` to `hi`, in their order. -/
def scan (lo : ℤ) (hi : Option ℤ) (entries : List α) : Finding α :=
  match firstAbsent v lo hi entries with
  | some finding => finding
  | none =>
    match firstUnsound v 0 entries with
    | some finding => finding
    | none =>
      match firstUnlinked v 1 entries with
      | some finding => finding
      | none => .intact

namespace Finding

variable {v}

/-- The sequence a finding names. -/
def names (v : View α) : Finding α → Option ℤ
  | nothing => none
  | missingAll s => some s
  | missingFirst s => some s
  | missing s _ => some s
  | missingLast s => some s
  | unknown e _ => some (v.sequence e)
  | unappliable e _ => some (v.sequence e)
  | altered e _ _ => some (v.sequence e)
  | unlinked _ e _ => some (v.sequence e)
  | intact => none

end Finding

/-! ## What a chain should be -/

/-- The entry declares the known recipe and recomputes its own hash. -/
def Sound (e : α) : Prop := v.known e = true ∧ v.recomputed e = some (v.hash e)

def Linked (a b : α) : Prop := v.previous b = some (v.hash a)

def Rising (entries : List α) : Prop := entries.Pairwise fun a b => v.sequence a < v.sequence b

/-- The entry is one of the range from `lo` to `hi`. -/
def InRange (lo : ℤ) (hi : Option ℤ) (e : α) : Prop :=
  lo ≤ v.sequence e ∧ ∀ t, hi = some t → v.sequence e ≤ t

/-- Every entry of the range below `s` is sound. -/
def SoundBelow (lo : ℤ) (hi : Option ℤ) (entries : List α) (s : ℤ) : Prop :=
  ∀ e ∈ entries, InRange v lo hi e → v.sequence e < s → Sound v e

/-- Every entry of the range below `s` is linked to the entry before it. -/
def LinkedBelow (lo : ℤ) (hi : Option ℤ) (entries : List α) (s : ℤ) : Prop :=
  entries.IsChain fun a b => InRange v lo hi b → v.sequence b < s → Linked v a b

/-- Everything below a named sequence is sound and linked. -/
def FirstFault (lo : ℤ) (hi : Option ℤ) (entries : List α) (named : Option ℤ) : Prop :=
  ∀ s, named = some s → SoundBelow v lo hi entries s ∧ LinkedBelow v lo hi entries s

/-- `s` is the first sequence, from `lo` on, that no entry has and that an entry or the end of
the range lies behind. -/
def Missing (lo : ℤ) (hi : Option ℤ) (entries : List α) (s : ℤ) : Prop :=
  lo ≤ s ∧ (∀ t, lo ≤ t → t < s → ∃ e ∈ entries, v.sequence e = t) ∧
    (∀ e ∈ entries, v.sequence e ≠ s) ∧
    ((∃ e ∈ entries, s < v.sequence e) ∨ ∃ t, hi = some t ∧ s ≤ t)

/-- The faults of a chain that starts at `lo` come in the order the passes look for them: none
before a missing sequence, and where none is missing no broken link before the first entry that
is not sound. -/
def InOrder (lo : ℤ) (hi : Option ℤ) (entries : List α) : Prop :=
  ∀ first, entries.head? = some first → v.sequence first = lo →
    (∀ s, Missing v lo hi entries s →
      SoundBelow v lo hi entries s ∧ LinkedBelow v lo hi entries s) ∧
    ((∀ s, ¬ Missing v lo hi entries s) → ∀ e ∈ entries, ¬ Sound v e →
      (∀ e' ∈ entries, v.sequence e' < v.sequence e → Sound v e') →
      LinkedBelow v lo hi entries (v.sequence e))

/-! ## The passes -/

variable {v}

theorem firstUnsound_none : ∀ {entries : List α} {index : ℕ},
    firstUnsound v index entries = none → ∀ e ∈ entries, Sound v e := by
  intro entries
  induction entries with
  | nil => intro index _ e he; cases he
  | cons a rest ih =>
    intro index h e he
    unfold firstUnsound at h
    split at h
    · rename_i hk
      split at h
      · cases h
      · rename_i expected hr
        split at h
        · rename_i heq
          rcases List.mem_cons.1 he with rfl | he
          · exact ⟨hk, by rw [hr, heq]⟩
          · exact ih h e he
        · cases h
    · cases h

/-- What stands before the first unsound entry is sound. -/
theorem firstUnsound_some {finding : Finding α} : ∀ {entries : List α} {index : ℕ},
    Rising v entries → firstUnsound v index entries = some finding →
    ∃ e ∈ entries, finding.names v = some (v.sequence e) ∧ ¬ Sound v e ∧
      ∀ e' ∈ entries, v.sequence e' < v.sequence e → Sound v e' := by
  intro entries
  induction entries with
  | nil => intro index _ h; cases h
  | cons a rest ih =>
    intro index hrise h
    obtain ⟨hafter, hrise'⟩ := List.pairwise_cons.1 hrise
    -- nothing in the list comes before its first entry
    have least : ∀ e' ∈ a :: rest, v.sequence e' < v.sequence a → Sound v e' := by
      intro e' he' hlt
      rcases List.mem_cons.1 he' with rfl | he'
      · omega
      · have := hafter e' he'; omega
    unfold firstUnsound at h
    split at h
    · rename_i hk
      split at h
      · rename_i hr
        cases h
        refine ⟨a, List.mem_cons_self, rfl, fun hs => ?_, least⟩
        have h2 := hs.2
        rw [hr] at h2
        cases h2
      · rename_i expected hr
        split at h
        · rename_i heq
          obtain ⟨e, he, hn, hns, hbefore⟩ := ih hrise' h
          refine ⟨e, List.mem_cons_of_mem _ he, hn, hns, fun e' he' hlt => ?_⟩
          rcases List.mem_cons.1 he' with rfl | he'
          · exact ⟨hk, by rw [hr, heq]⟩
          · exact hbefore e' he' hlt
        · rename_i hne
          cases h
          refine ⟨a, List.mem_cons_self, rfl, fun hs => ?_, least⟩
          have h2 := hs.2
          rw [hr] at h2
          exact hne (Option.some.inj h2)
    · rename_i hk
      cases h
      exact ⟨a, List.mem_cons_self, rfl, fun hs => hk hs.1, least⟩

theorem firstUnlinked_none : ∀ {entries : List α} {index : ℕ},
    firstUnlinked v index entries = none → entries.IsChain (Linked v) := by
  intro entries
  induction entries with
  | nil => intro index _; exact .nil
  | cons a rest ih =>
    intro index h
    cases rest with
    | nil => exact .singleton a
    | cons b rest =>
      unfold firstUnlinked at h
      split at h
      · rename_i hl
        exact List.IsChain.cons_cons hl (ih h)
      · cases h

/-- What stands before the first unlinked entry is linked. -/
theorem firstUnlinked_some {finding : Finding α} : ∀ {entries : List α} {index : ℕ},
    Rising v entries → firstUnlinked v index entries = some finding →
      ∃ s, finding.names v = some s ∧
        entries.IsChain fun a b => v.sequence b < s → Linked v a b := by
  intro entries
  induction entries with
  | nil => intro index _ h; cases h
  | cons a rest ih =>
    intro index hrise h
    cases rest with
    | nil => cases h
    | cons b rest =>
      obtain ⟨-, hrise'⟩ := List.pairwise_cons.1 hrise
      unfold firstUnlinked at h
      split at h
      · rename_i hl
        obtain ⟨s, hn, hchain⟩ := ih hrise' h
        exact ⟨s, hn, List.IsChain.cons_cons (fun _ => hl) hchain⟩
      · cases h
        refine ⟨v.sequence b, rfl, List.IsChain.cons_cons (fun hlt => by omega) ?_⟩
        -- every later entry comes after `b`
        refine hrise'.isChain.imp_of_mem_tail_imp fun x y _ hy _ hlt => ?_
        have := (List.pairwise_cons.1 hrise').1 y hy
        omega

theorem firstUnlinked_names {finding : Finding α} : ∀ {entries : List α} {index : ℕ},
    firstUnlinked v index entries = some finding →
      ∃ e ∈ entries, finding.names v = some (v.sequence e) := by
  intro entries
  induction entries with
  | nil => intro index h; cases h
  | cons a rest ih =>
    intro index h
    cases rest with
    | nil => cases h
    | cons b rest =>
      unfold firstUnlinked at h
      split at h
      · obtain ⟨e, he, hn⟩ := ih h
        exact ⟨e, List.mem_cons_of_mem _ he, hn⟩
      · cases h
        exact ⟨b, by simp, rfl⟩

/-! ## The law -/

section Scan

variable {lo : ℤ} {hi : Option ℤ} {entries : List α} {f : Finding α}

theorem scan_absent (h : firstAbsent v lo hi entries = some f) : scan v lo hi entries = f := by
  unfold scan; rw [h]

theorem scan_unsound (ha : firstAbsent v lo hi entries = none)
    (h : firstUnsound v 0 entries = some f) : scan v lo hi entries = f := by
  unfold scan; rw [ha, h]

theorem scan_unlinked (ha : firstAbsent v lo hi entries = none)
    (hu : firstUnsound v 0 entries = none) (h : firstUnlinked v 1 entries = some f) :
    scan v lo hi entries = f := by
  unfold scan; rw [ha, hu, h]

theorem scan_clean (ha : firstAbsent v lo hi entries = none)
    (hu : firstUnsound v 0 entries = none) (hl : firstUnlinked v 1 entries = none) :
    scan v lo hi entries = .intact := by
  unfold scan; rw [ha, hu, hl]

theorem firstAbsent_ne_intact : firstAbsent v lo hi entries ≠ some .intact := by
  unfold firstAbsent
  split
  · split <;> simp
  · split
    · simp
    · split
      · simp
      · simp only
        split <;> simp

theorem firstMissing_none : ∀ {entries : List α} {index : ℕ},
    firstMissing v index entries = none →
      entries.IsChain fun a b => v.sequence b = v.sequence a + 1 := by
  intro entries
  induction entries with
  | nil => intro index _; exact .nil
  | cons a rest ih =>
    intro index h
    cases rest with
    | nil => exact .singleton a
    | cons b rest =>
      unfold firstMissing at h
      split at h
      · cases h
      · rename_i hb
        exact List.IsChain.cons_cons (not_not.1 hb) (ih h)

theorem firstMissing_some {hi : Option ℤ} {s : ℤ} {i : ℕ} : ∀ {rest : List α} {a : α} {index : ℕ},
    Rising v (a :: rest) → firstMissing v index (a :: rest) = some (s, i) →
      Missing v (v.sequence a) hi (a :: rest) s := by
  intro rest
  induction rest with
  | nil => intro a index _ h; cases h
  | cons b rest ih =>
    intro a index hrise h
    obtain ⟨hafter, hrise'⟩ := List.pairwise_cons.1 hrise
    have hab := hafter b List.mem_cons_self
    unfold firstMissing at h
    split at h
    · rename_i hne
      cases h
      refine ⟨by omega, fun t hlo hlt => ⟨a, List.mem_cons_self, by omega⟩, fun e he heq => ?_,
        .inl ⟨b, by simp, by omega⟩⟩
      rcases List.mem_cons.1 he with rfl | he
      · omega
      · rcases List.mem_cons.1 he with rfl | he
        · omega
        · have := (List.pairwise_cons.1 hrise').1 e he
          omega
    · rename_i heq
      obtain ⟨hle, hbelow, hnot, hbehind⟩ := ih hrise' h
      refine ⟨by omega, fun t hlo hlt => ?_, fun e he hes => ?_, ?_⟩
      · by_cases ht : t = v.sequence a
        · exact ⟨a, List.mem_cons_self, ht.symm⟩
        · obtain ⟨e, he, hes⟩ := hbelow t (by omega) hlt
          exact ⟨e, List.mem_cons_of_mem _ he, hes⟩
      · rcases List.mem_cons.1 he with rfl | he
        · omega
        · exact hnot e he hes
      · rcases hbehind with ⟨e, he, hlt⟩ | h
        · exact .inl ⟨e, List.mem_cons_of_mem _ he, hlt⟩
        · exact .inr h

/-- Between the ends of a chain without a missing sequence every sequence is an entry's. -/
theorem contiguous_covers : ∀ {rest : List α} {a : α},
    (a :: rest).IsChain (fun a b => v.sequence b = v.sequence a + 1) →
    ∀ t, v.sequence a ≤ t →
      t ≤ v.sequence ((a :: rest).getLast (List.cons_ne_nil a rest)) →
      ∃ e ∈ a :: rest, v.sequence e = t := by
  intro rest
  induction rest with
  | nil =>
    intro a _ t hlo hhi
    rw [List.getLast_singleton] at hhi
    exact ⟨a, List.mem_cons_self, by omega⟩
  | cons b rest ih =>
    intro a h t hlo hhi
    by_cases ht : t = v.sequence a
    · exact ⟨a, List.mem_cons_self, ht.symm⟩
    · obtain ⟨hab, hrest⟩ := List.isChain_cons_cons.1 h
      rw [List.getLast_cons (List.cons_ne_nil b rest)] at hhi
      obtain ⟨e, he, hes⟩ := ih hrest t (by omega) hhi
      exact ⟨e, List.mem_cons_of_mem _ he, hes⟩

/-- The last of a rising list is the greatest. -/
theorem rising_le_last : ∀ {rest : List α} {a : α}, Rising v (a :: rest) → ∀ e ∈ a :: rest,
    v.sequence e ≤ v.sequence ((a :: rest).getLast (List.cons_ne_nil a rest)) := by
  intro rest
  induction rest with
  | nil =>
    intro a _ e he
    rw [List.mem_singleton.1 he, List.getLast_singleton]
  | cons b rest ih =>
    intro a hrise e he
    obtain ⟨hafter, hrise'⟩ := List.pairwise_cons.1 hrise
    rw [List.getLast_cons (List.cons_ne_nil b rest)]
    rcases List.mem_cons.1 he with rfl | he
    · have := hafter _ (List.getLast_mem (List.cons_ne_nil b rest))
      omega
    · exact ih hrise' e he

/-- A chain nothing is missing of covers its range. -/
theorem firstAbsent_none (h : firstAbsent v lo hi entries = none) :
    ∃ first rest, entries = first :: rest ∧ v.sequence first = lo ∧
      entries.IsChain (fun a b => v.sequence b = v.sequence a + 1) ∧
      ∀ t, hi = some t → t ≤ v.sequence ((first :: rest).getLast (List.cons_ne_nil _ _)) := by
  unfold firstAbsent at h
  split at h
  · cases h
  · rename_i first rest
    split at h
    · cases h
    · rename_i hlo
      split at h
      · cases h
      · rename_i hm
        simp only at h
        split at h
        · cases h
        · rename_i hlast
          refine ⟨first, rest, rfl, not_not.1 hlo, firstMissing_none hm, fun t ht => ?_⟩
          subst ht
          simpa using hlast

theorem not_missing (hrise : Rising v entries) (h : firstAbsent v lo hi entries = none) (s : ℤ) :
    ¬ Missing v lo hi entries s := by
  obtain ⟨first, rest, rfl, hlo, hchain, hhi⟩ := firstAbsent_none h
  rintro ⟨hle, -, hnot, hbehind⟩
  have hs : s ≤ v.sequence ((first :: rest).getLast (List.cons_ne_nil _ _)) := by
    rcases hbehind with ⟨e, he, hlt⟩ | ⟨t, ht, hst⟩
    · have := rising_le_last hrise e he
      omega
    · have := hhi t ht
      omega
  obtain ⟨e, he, hes⟩ := contiguous_covers hchain s (by omega) hs
  exact hnot e he hes

theorem missing_unique {s s' : ℤ} (h : Missing v lo hi entries s) (h' : Missing v lo hi entries s') :
    s = s' := by
  rcases lt_trichotomy s s' with hlt | heq | hlt
  · obtain ⟨e, he, hes⟩ := h'.2.1 s h.1 hlt
    exact absurd hes (h.2.2.1 e he)
  · exact heq
  · obtain ⟨e, he, hes⟩ := h.2.1 s' h'.1 hlt
    exact absurd hes (h'.2.2.1 e he)

/-- **What the first pass finds of a chain that starts at `lo` is what is missing.** -/
theorem firstAbsent_missing {first : α} {rest : List α} (hrise : Rising v (first :: rest))
    (hlo : v.sequence first = lo) (h : firstAbsent v lo hi (first :: rest) = some f) :
    ∃ s, f.names v = some s ∧ Missing v lo hi (first :: rest) s := by
  rw [firstAbsent, if_neg (by simpa using hlo)] at h
  split at h
  · rename_i s index hm
    cases h
    subst hlo
    exact ⟨s, rfl, firstMissing_some hrise hm⟩
  · rename_i hm
    simp only at h
    split at h
    · rename_i hlast
      cases h
      refine ⟨_, rfl, ?_⟩
      have hchain := firstMissing_none hm
      have hgreatest := rising_le_last hrise
      have hfirst := hgreatest first List.mem_cons_self
      refine ⟨by omega, fun t hle hlt => contiguous_covers hchain t (by omega) (by omega),
        fun e he heq => ?_, .inr ?_⟩
      · have := hgreatest e he
        omega
      · cases hi with
        | none => cases hlast
        | some t =>
          simp only [Option.any_some, decide_eq_true_eq] at hlast
          exact ⟨t, rfl, by omega⟩
    · cases h

/-- A chain that does not start at `lo` is told to lack `lo`, or nothing at all. -/
theorem firstAbsent_outside (hout : ∀ first, entries.head? = some first → v.sequence first ≠ lo) :
    ∃ f, firstAbsent v lo hi entries = some f ∧ ∀ s, f.names v = some s → s = lo := by
  cases entries with
  | nil =>
    cases hi with
    | none => exact ⟨_, rfl, fun s hs => (by cases hs)⟩
    | some t => exact ⟨_, rfl, fun s hs => (by cases hs; rfl)⟩
  | cons first rest =>
    refine ⟨.missingFirst lo, ?_, fun s hs => (by cases hs; rfl)⟩
    rw [firstAbsent, if_pos (hout first rfl)]

/-- **Intact means whole**: nothing is missing, every entry is sound and linked to the one
before it. -/
theorem scan_intact (hrise : Rising v entries) (h : scan v lo hi entries = .intact) :
    firstAbsent v lo hi entries = none ∧ (∀ e ∈ entries, Sound v e) ∧
      entries.IsChain (Linked v) := by
  cases ha : firstAbsent v lo hi entries with
  | some f =>
    rw [scan_absent ha] at h
    exact absurd (h ▸ ha) firstAbsent_ne_intact
  | none =>
    cases hu : firstUnsound v 0 entries with
    | some f =>
      obtain ⟨e, -, hname, -⟩ := firstUnsound_some hrise hu
      rw [scan_unsound ha hu] at h
      rw [h] at hname
      cases hname
    | none =>
      cases hl : firstUnlinked v 1 entries with
      | some f =>
        obtain ⟨s, hname, -⟩ := firstUnlinked_some hrise hl
        rw [scan_unlinked ha hu hl] at h
        rw [h] at hname
        cases hname
      | none => exact ⟨rfl, firstUnsound_none hu, firstUnlinked_none hl⟩

theorem firstMissing_contiguous : ∀ {entries : List α} {index : ℕ},
    entries.IsChain (fun a b => v.sequence b = v.sequence a + 1) →
      firstMissing v index entries = none := by
  intro entries
  induction entries with
  | nil => intro index _; rfl
  | cons a rest ih =>
    intro index h
    cases rest with
    | nil => rfl
    | cons b rest =>
      obtain ⟨hab, hrest⟩ := List.isChain_cons_cons.1 h
      rw [firstMissing, if_neg (not_not_intro hab)]
      exact ih hrest

theorem firstUnsound_sound : ∀ {entries : List α} {index : ℕ}, (∀ e ∈ entries, Sound v e) →
    firstUnsound v index entries = none := by
  intro entries
  induction entries with
  | nil => intro index _; rfl
  | cons a rest ih =>
    intro index h
    obtain ⟨hknown, hhash⟩ := h a List.mem_cons_self
    rw [firstUnsound, if_pos hknown, hhash]
    simp only [if_true]
    exact ih fun e he => h e (List.mem_cons_of_mem a he)

theorem firstUnlinked_linked : ∀ {entries : List α} {index : ℕ}, entries.IsChain (Linked v) →
    firstUnlinked v index entries = none := by
  intro entries
  induction entries with
  | nil => intro index _; rfl
  | cons a rest ih =>
    intro index h
    cases rest with
    | nil => rfl
    | cons b rest =>
      obtain ⟨hab, hrest⟩ := List.isChain_cons_cons.1 h
      rw [firstUnlinked, if_pos (show v.previous b = some (v.hash a) from hab)]
      exact ih hrest

/-- **What is found intact**: a chain that begins at `lo`, reaches the end of the range, and is
contiguous, sound and linked. -/
theorem scan_eq_intact {first : α} {rest : List α} (hlo : v.sequence first = lo)
    (hhi : ∀ t, hi = some t → t ≤ v.sequence ((first :: rest).getLast (List.cons_ne_nil _ _)))
    (hchain : (first :: rest).IsChain fun a b => v.sequence b = v.sequence a + 1)
    (hsound : ∀ e ∈ first :: rest, Sound v e) (hlinked : (first :: rest).IsChain (Linked v)) :
    scan v lo hi (first :: rest) = .intact := by
  refine scan_clean ?_ (firstUnsound_sound hsound) (firstUnlinked_linked hlinked)
  rw [firstAbsent, if_neg (not_not_intro hlo), firstMissing_contiguous hchain]
  have hend : hi.any (v.sequence ((first :: rest).getLast (List.cons_ne_nil _ _)) < ·) = false := by
    cases hi with
    | none => rfl
    | some t =>
      have := hhi t rfl
      simpa using this
  simp only [hend]
  rfl

theorem contiguous_last : ∀ {rest : List α} {a : α},
    (a :: rest).IsChain (fun a b => v.sequence b = v.sequence a + 1) →
      v.sequence ((a :: rest).getLast (List.cons_ne_nil _ _)) = v.sequence a + rest.length := by
  intro rest
  induction rest with
  | nil => intro a _; simp
  | cons b rest ih =>
    intro a h
    obtain ⟨hab, hrest⟩ := List.isChain_cons_cons.1 h
    rw [List.getLast_cons (List.cons_ne_nil _ _), ih hrest, hab, List.length_cons]
    omega

/-- The sequences of a contiguous chain. -/
theorem contiguous_sequences : ∀ {entries : List α} {lo : ℤ},
    (∀ e, entries.head? = some e → v.sequence e = lo) →
    entries.IsChain (fun a b => v.sequence b = v.sequence a + 1) →
      entries.map v.sequence = (List.range entries.length).map fun (k : ℕ) => lo + k := by
  intro entries
  induction entries with
  | nil => intro lo _ _; rfl
  | cons a rest ih =>
    intro lo hlo h
    have ha := hlo a rfl
    have hnext : ∀ e, rest.head? = some e → v.sequence e = lo + 1 := by
      intro e he
      rw [← ha]
      exact (List.isChain_cons.1 h).1 e he
    rw [List.map_cons, ih hnext (List.isChain_cons.1 h).2, List.length_cons, List.range_succ_eq_map,
      List.map_cons, List.map_map, ha]
    refine congrArg₂ List.cons (by simp) (List.map_congr_left fun k _ => ?_)
    simp only [Function.comp_apply]
    omega

theorem below_lo : SoundBelow v lo hi entries lo ∧ LinkedBelow v lo hi entries lo := by
  have outside : ∀ e, InRange v lo hi e → ¬ v.sequence e < lo := fun e hin hlt => by
    have := hin.1
    omega
  refine ⟨fun e _ hin hlt => absurd hlt (outside e hin), ?_⟩
  exact (List.pairwise_of_forall fun a b hin hlt => absurd hlt (outside b hin)).isChain

/-- **A scan finds the first fault exactly when the faults come in order.** -/
theorem scan_first_fault (hrise : Rising v entries) :
    FirstFault v lo hi entries ((scan v lo hi entries).names v) ↔ InOrder v lo hi entries := by
  by_cases hhead : ∃ first, entries.head? = some first ∧ v.sequence first = lo
  · obtain ⟨first, hfirst, hlo⟩ := hhead
    obtain ⟨rest, rfl⟩ := List.head?_eq_some_iff.1 hfirst
    cases ha : firstAbsent v lo hi (first :: rest) with
    | some f =>
      obtain ⟨s, hname, hmiss⟩ := firstAbsent_missing hrise hlo ha
      rw [scan_absent ha, hname]
      constructor
      · intro h _ _ _
        refine ⟨fun s' hs' => ?_, fun hno => absurd hmiss (hno s)⟩
        rw [missing_unique hs' hmiss]
        exact h s rfl
      · intro h s' hs'
        cases hs'
        exact (h first hfirst hlo).1 s hmiss
    | none =>
      have hno := not_missing hrise ha
      cases hu : firstUnsound v 0 (first :: rest) with
      | some f =>
        obtain ⟨e, he, hname, hns, hbefore⟩ := firstUnsound_some hrise hu
        rw [scan_unsound ha hu, hname]
        constructor
        · intro h _ _ _
          refine ⟨fun s hs => absurd hs (hno s), fun _ e' he' hns' hbefore' => ?_⟩
          -- only one entry is the first unsound one
          have heq : v.sequence e' = v.sequence e := by
            rcases lt_trichotomy (v.sequence e') (v.sequence e) with hlt | heq | hlt
            · exact absurd (hbefore e' he' hlt) hns'
            · exact heq
            · exact absurd (hbefore' e he hlt) hns
          rw [heq]
          exact (h _ rfl).2
        · intro h s hs
          cases hs
          exact ⟨fun e' he' _ hlt => hbefore e' he' hlt,
            (h first hfirst hlo).2 hno e he hns hbefore⟩
      | none =>
        have hsound := firstUnsound_none hu
        constructor
        · intro _ _ _ _
          exact ⟨fun s hs => absurd hs (hno s), fun _ e he hns => absurd (hsound e he) hns⟩
        · intro _ s hs
          cases hl : firstUnlinked v 1 (first :: rest) with
          | some f =>
            rw [scan_unlinked ha hu hl] at hs
            obtain ⟨s', hname, hchain⟩ := firstUnlinked_some hrise hl
            rw [hname] at hs
            cases hs
            exact ⟨fun e he _ _ => hsound e he, hchain.imp fun _ _ h _ => h⟩
          | none =>
            rw [scan_clean ha hu hl] at hs
            cases hs
  · have hout : ∀ first, entries.head? = some first → v.sequence first ≠ lo :=
      fun first hfirst hlo => hhead ⟨first, hfirst, hlo⟩
    obtain ⟨f, hf, hname⟩ := firstAbsent_outside hout
    rw [scan_absent hf]
    refine ⟨fun _ first hfirst hlo => absurd ⟨first, hfirst, hlo⟩ hhead, fun _ s hs => ?_⟩
    rw [hname s hs]
    exact below_lo

/-- A finding names no sequence before `lo`. -/
theorem scan_names_ge (hrise : Rising v entries) {s : ℤ}
    (h : (scan v lo hi entries).names v = some s) : lo ≤ s := by
  by_cases hhead : ∃ first, entries.head? = some first ∧ v.sequence first = lo
  · obtain ⟨first, hfirst, hlo⟩ := hhead
    obtain ⟨rest, rfl⟩ := List.head?_eq_some_iff.1 hfirst
    have hge : ∀ e ∈ first :: rest, lo ≤ v.sequence e := by
      intro e he
      rcases List.mem_cons.1 he with rfl | he
      · omega
      · have := (List.pairwise_cons.1 hrise).1 e he
        omega
    cases ha : firstAbsent v lo hi (first :: rest) with
    | some f =>
      obtain ⟨s', hname, hmiss⟩ := firstAbsent_missing hrise hlo ha
      rw [scan_absent ha, hname] at h
      cases h
      exact hmiss.1
    | none =>
      cases hu : firstUnsound v 0 (first :: rest) with
      | some f =>
        obtain ⟨e, he, hname, -⟩ := firstUnsound_some hrise hu
        rw [scan_unsound ha hu, hname] at h
        cases h
        exact hge e he
      | none =>
        cases hl : firstUnlinked v 1 (first :: rest) with
        | some f =>
          obtain ⟨e, he, hname⟩ := firstUnlinked_names hl
          rw [scan_unlinked ha hu hl, hname] at h
          cases h
          exact hge e he
        | none =>
          rw [scan_clean ha hu hl] at h
          cases h
  · have hout : ∀ first, entries.head? = some first → v.sequence first ≠ lo :=
      fun first hfirst hlo => hhead ⟨first, hfirst, hlo⟩
    obtain ⟨f, hf, hname⟩ := firstAbsent_outside hout
    rw [scan_absent hf] at h
    exact (hname s h).ge

/-- What names nothing is an empty list without an end, or an intact chain. -/
theorem scan_names_none (hrise : Rising v entries) (h : (scan v lo hi entries).names v = none) :
    (scan v lo hi entries = .nothing ∧ entries = []) ∨ scan v lo hi entries = .intact := by
  cases ha : firstAbsent v lo hi entries with
  | some f =>
    rw [scan_absent ha] at h ⊢
    cases entries with
    | nil =>
      cases hi with
      | none => cases ha; exact .inl ⟨rfl, rfl⟩
      | some t => cases ha; cases h
    | cons first rest =>
      by_cases hlo : v.sequence first = lo
      · obtain ⟨s, hname, -⟩ := firstAbsent_missing hrise hlo ha
        rw [hname] at h
        cases h
      · rw [firstAbsent, if_pos hlo] at ha
        cases ha
        cases h
  | none =>
    cases hu : firstUnsound v 0 entries with
    | some f =>
      obtain ⟨e, -, hname, -⟩ := firstUnsound_some hrise hu
      rw [scan_unsound ha hu, hname] at h
      cases h
    | none =>
      cases hl : firstUnlinked v 1 entries with
      | some f =>
        obtain ⟨e, -, hname⟩ := firstUnlinked_names hl
        rw [scan_unlinked ha hu hl, hname] at h
        cases h
      | none => exact .inr (scan_clean ha hu hl)

/-- A relation holds along what comes before `s` exactly when it holds along the chain there. -/
theorem isChain_below {R : α → α → Prop} : ∀ {entries : List α}, Rising v entries → ∀ s : ℤ,
    ((entries.filter fun e => v.sequence e < s).IsChain R ↔
      entries.IsChain fun a b => v.sequence b < s → R a b) := by
  intro entries
  induction entries with
  | nil => intro _ s; exact ⟨fun _ => .nil, fun _ => .nil⟩
  | cons a rest ih =>
    intro hrise s
    obtain ⟨hafter, hrise'⟩ := List.pairwise_cons.1 hrise
    cases rest with
    | nil =>
      refine ⟨fun _ => .singleton a, fun _ => ?_⟩
      by_cases ha : v.sequence a < s <;> simp [ha]
    | cons b rest =>
      have hab := hafter b List.mem_cons_self
      rw [List.isChain_cons_cons, ← ih hrise']
      by_cases hb : v.sequence b < s
      · have ha : v.sequence a < s := by omega
        rw [List.filter_cons_of_pos (by simpa using ha), List.filter_cons_of_pos (by simpa using hb),
          List.isChain_cons_cons]
        exact ⟨fun h => ⟨fun _ => h.1, h.2⟩, fun h => ⟨h.1 hb, h.2⟩⟩
      · -- nothing from `b` on comes before `s`
        have hnone : (b :: rest).filter (fun e => v.sequence e < s) = [] := by
          refine List.filter_eq_nil_iff.2 fun e he => ?_
          have : ¬ v.sequence e < s := by
            rcases List.mem_cons.1 he with rfl | he
            · exact hb
            · have := (List.pairwise_cons.1 hrise').1 e he
              omega
          simpa using this
        refine ⟨fun _ => ⟨fun h => absurd h hb, by rw [hnone]; exact .nil⟩, fun _ => ?_⟩
        by_cases ha : v.sequence a < s
        · rw [List.filter_cons_of_pos (by simpa using ha), hnone]
          exact .singleton a
        · rw [List.filter_cons_of_neg (by simpa using ha), hnone]
          exact .nil

end Scan

/-! ## Stretches of an intact chain -/

/-- A stretch of an intact chain: it begins at `lo` and is contiguous, sound and linked. -/
structure Unbroken (v : View α) (lo : ℤ) (entries : List α) : Prop where
  begins : ∀ e, entries.head? = some e → v.sequence e = lo
  contiguous : entries.IsChain fun a b => v.sequence b = v.sequence a + 1
  sound : ∀ e ∈ entries, Sound v e
  linked : entries.IsChain (Linked v)

namespace Unbroken

variable {lo : ℤ} {a b c entries rest : List α} {e : α}

theorem tail (h : Unbroken v lo (e :: rest)) : Unbroken v (lo + 1) rest where
  begins e' he' := by
    rw [← h.begins e rfl]
    exact (List.isChain_cons.1 h.contiguous).1 e' he'
  contiguous := (List.isChain_cons.1 h.contiguous).2
  sound e' he' := h.sound e' (List.mem_cons_of_mem e he')
  linked := (List.isChain_cons.1 h.linked).2

theorem left (h : Unbroken v lo (a ++ b)) : Unbroken v lo a where
  begins e he := h.begins e (by rw [List.head?_append, he]; rfl)
  contiguous := (List.isChain_append.1 h.contiguous).1
  sound e he := h.sound e (List.mem_append_left b he)
  linked := (List.isChain_append.1 h.linked).1

theorem right : ∀ {a : List α} {lo : ℤ}, Unbroken v lo (a ++ b) → Unbroken v (lo + a.length) b := by
  intro a
  induction a with
  | nil => intro lo h; simpa using h
  | cons e a ih =>
    intro lo h
    have hrest := ih h.tail
    rw [List.length_cons, show lo + ((a.length + 1 : ℕ) : ℤ) = lo + 1 + a.length by push_cast; omega]
    exact hrest

/-- Where an entry stands. -/
theorem bounds : ∀ {entries : List α} {lo : ℤ}, Unbroken v lo entries → ∀ e ∈ entries,
    lo ≤ v.sequence e ∧ v.sequence e < lo + entries.length := by
  intro entries
  induction entries with
  | nil => exact fun _ _ he => by cases he
  | cons first rest ih =>
    intro lo h e he
    rw [List.length_cons]
    obtain rfl | he := List.mem_cons.1 he
    · have := h.begins e rfl
      omega
    · have := ih h.tail e he
      omega

theorem getLast (h : Unbroken v lo entries) (he : entries.getLast? = some e) :
    v.sequence e = lo + entries.length - 1 := by
  cases entries with
  | nil => cases he
  | cons first rest =>
    have hlast := contiguous_last h.contiguous
    rw [List.getLast?_eq_some_getLast (List.cons_ne_nil first rest)] at he
    obtain rfl := Option.some.inj he
    rw [hlast, h.begins first rfl, List.length_cons]
    omega

/-- The entries between two sequences are the stretch between them. -/
theorem filter_between (h : Unbroken v lo (a ++ (b ++ c))) {hi : ℤ}
    (hhi : hi = lo + a.length + b.length - 1) :
    (a ++ (b ++ c)).filter (fun e => lo + a.length ≤ v.sequence e && v.sequence e ≤ hi) = b := by
  have hmiddle := h.right.left
  have hlast := h.right.right
  have ha : a.filter (fun e => lo + a.length ≤ v.sequence e && v.sequence e ≤ hi) = [] := by
    refine List.filter_eq_nil_iff.2 fun e he => ?_
    have := h.left.bounds e he
    simp only [Bool.and_eq_true, decide_eq_true_eq]
    omega
  have hb : b.filter (fun e => lo + a.length ≤ v.sequence e && v.sequence e ≤ hi) = b := by
    refine List.filter_eq_self.2 fun e he => ?_
    have := hmiddle.bounds e he
    simp only [Bool.and_eq_true, decide_eq_true_eq]
    omega
  have hc : c.filter (fun e => lo + a.length ≤ v.sequence e && v.sequence e ≤ hi) = [] := by
    refine List.filter_eq_nil_iff.2 fun e he => ?_
    have := hlast.bounds e he
    simp only [Bool.and_eq_true, decide_eq_true_eq]
    omega
  rw [List.filter_append, List.filter_append, ha, hb, hc, List.append_nil, List.nil_append]

/-- A stretch of an intact chain is found intact. -/
theorem scan (h : Unbroken v lo entries) (hne : entries ≠ []) {hi : Option ℤ}
    (hhi : ∀ t, hi = some t → t = lo + entries.length - 1) : Chain.scan v lo hi entries = .intact := by
  cases entries with
  | nil => exact absurd rfl hne
  | cons first rest =>
    refine scan_eq_intact (h.begins first rfl) (fun t ht => ?_) h.contiguous h.sound h.linked
    rw [contiguous_last h.contiguous, h.begins first rfl, hhi t ht, List.length_cons]
    omega

theorem rising (h : Unbroken v lo entries) : Rising v entries := by
  refine List.isChain_iff_pairwise.1 (h.contiguous.imp fun a b hab => ?_)
  omega

end Unbroken

/-- **What is found intact is unbroken.** -/
theorem unbroken_of_scan {lo : ℤ} {hi : Option ℤ} {entries : List α} (hrise : Rising v entries)
    (h : scan v lo hi entries = .intact) : Unbroken v lo entries ∧ entries ≠ [] := by
  obtain ⟨habsent, hsound, hlinked⟩ := scan_intact hrise h
  obtain ⟨first, rest, rfl, hlo, hcontiguous, -⟩ := firstAbsent_none habsent
  refine ⟨⟨fun e he => ?_, hcontiguous, hsound, hlinked⟩, List.cons_ne_nil first rest⟩
  obtain rfl := Option.some.inj he
  exact hlo

/-! ## Two lists of one chain -/

/-- `w` reads of the image of `e` what `v` reads of `e`. -/
structure SameReading {β : Type*} (v : View α) (w : View β) (f : α → β) (e : α) : Prop where
  sequence : w.sequence (f e) = v.sequence e
  known : w.known (f e) = v.known e
  recomputed : w.recomputed (f e) = v.recomputed e
  hash : w.hash (f e) = v.hash e
  previous : w.previous (f e) = v.previous e

/-- The finding about the images. -/
def Finding.map {β : Type*} (f : α → β) : Finding α → Finding β
  | nothing => nothing
  | missingAll s => missingAll s
  | missingFirst s => missingFirst s
  | missing s index => missing s index
  | missingLast s => missingLast s
  | unknown e index => unknown (f e) index
  | unappliable e index => unappliable (f e) index
  | altered e expected index => altered (f e) expected index
  | unlinked before e index => unlinked (f before) (f e) index
  | intact => intact

section Map

variable {β : Type*} {w : View β} {f : α → β} {lo : ℤ} {hi : Option ℤ}

theorem firstMissing_map : ∀ {entries : List α} {index : ℕ},
    (∀ e ∈ entries, SameReading v w f e) →
      firstMissing w index (entries.map f) = firstMissing v index entries := by
  intro entries
  induction entries with
  | nil => intro index _; rfl
  | cons a rest ih =>
    intro index h
    cases rest with
    | nil => rfl
    | cons b rest =>
      have ha := (h a (by simp)).sequence
      have hb := (h b (by simp)).sequence
      have hrest := @ih (index + 1) fun e he => h e (List.mem_cons_of_mem _ he)
      simp only [List.map_cons] at hrest ⊢
      rw [firstMissing, firstMissing, ha, hb, hrest]

theorem firstUnsound_map : ∀ {entries : List α} {index : ℕ},
    (∀ e ∈ entries, SameReading v w f e) →
      firstUnsound w index (entries.map f) = (firstUnsound v index entries).map (Finding.map f) := by
  intro entries
  induction entries with
  | nil => intro index _; rfl
  | cons a rest ih =>
    intro index h
    have ha := h a (by simp)
    have hrest := @ih (index + 1) fun e he => h e (List.mem_cons_of_mem _ he)
    rw [List.map_cons, firstUnsound, firstUnsound, ha.known, ha.recomputed, ha.hash, hrest]
    by_cases hk : v.known a = true
    · rw [if_pos hk, if_pos hk]
      cases hr : v.recomputed a with
      | none => rfl
      | some expected =>
        by_cases he : expected = v.hash a
        · simp only [if_pos he]
        · simp only [if_neg he]
          rfl
    · rw [if_neg hk, if_neg hk]
      rfl

theorem firstUnlinked_map : ∀ {entries : List α} {index : ℕ},
    (∀ e ∈ entries, SameReading v w f e) →
      firstUnlinked w index (entries.map f) =
        (firstUnlinked v index entries).map (Finding.map f) := by
  intro entries
  induction entries with
  | nil => intro index _; rfl
  | cons a rest ih =>
    intro index h
    cases rest with
    | nil => rfl
    | cons b rest =>
      have ha := (h a (by simp)).hash
      have hb := (h b (by simp)).previous
      have hrest := @ih (index + 1) fun e he => h e (List.mem_cons_of_mem _ he)
      simp only [List.map_cons] at hrest ⊢
      rw [firstUnlinked, firstUnlinked, ha, hb, hrest]
      by_cases hl : v.previous b = some (v.hash a)
      · rw [if_pos hl, if_pos hl]
      · rw [if_neg hl, if_neg hl]
        rfl

theorem firstAbsent_map {entries : List α} (h : ∀ e ∈ entries, SameReading v w f e) :
    firstAbsent w lo hi (entries.map f) = (firstAbsent v lo hi entries).map (Finding.map f) := by
  cases entries with
  | nil =>
    cases hi <;> rfl
  | cons a rest =>
    have ha := (h a (by simp)).sequence
    have hmissing : firstMissing w 1 ((a :: rest).map f) =
        firstMissing v 1 (a :: rest) := firstMissing_map h
    have hlast : w.sequence ((f a :: rest.map f).getLast (List.cons_ne_nil _ _)) =
        v.sequence ((a :: rest).getLast (List.cons_ne_nil _ _)) := by
      have hmap : (f a :: rest.map f).getLast (List.cons_ne_nil _ _) =
          f ((a :: rest).getLast (List.cons_ne_nil _ _)) :=
        List.getLast_map (f := f) (l := a :: rest) (by simp)
      rw [hmap, (h _ (List.getLast_mem _)).sequence]
    simp only [List.map_cons, firstAbsent] at hmissing ⊢
    rw [hmissing, ha, hlast]
    by_cases hlo : v.sequence a ≠ lo
    · rw [if_pos hlo, if_pos hlo]
      rfl
    · rw [if_neg hlo, if_neg hlo]
      cases firstMissing v 1 (a :: rest) with
      | some m => rfl
      | none =>
        simp only
        split <;> rfl

/-- **A scan of the images finds the image of what is found.** -/
theorem scan_map {entries : List α} (h : ∀ e ∈ entries, SameReading v w f e) :
    scan w lo hi (entries.map f) = (scan v lo hi entries).map f := by
  unfold scan
  rw [firstAbsent_map h, firstUnsound_map h, firstUnlinked_map h]
  cases firstAbsent v lo hi entries with
  | some finding => rfl
  | none =>
    cases firstUnsound v 0 entries with
    | some finding => rfl
    | none => cases firstUnlinked v 1 entries <;> rfl

end Map

end SayFirst.Chain
