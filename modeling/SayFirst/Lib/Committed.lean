import SayFirst.Lib.Chain

/-!
# What a hash commits to

Two stretches of hash chains, each unbroken, whose hashes are digests of preimages.

* `Unbroken.next` — what stands behind an entry that is not the last names its hash.
* `Unbroken.unique` — a sequence is one entry's.
* `agrees_below` — an entry of each with one hash: below it the two are one chain, unless two of
  their preimages collide.
-/

namespace SayFirst.Chain

open Py

variable {α β : Type*} {v : View α} {pre : α → Option β} {digest : β → Str}

/-- A recomputed hash is the digest of a preimage. -/
def Digests (v : View α) (pre : α → Option β) (digest : β → Str) : Prop :=
  ∀ e, v.recomputed e = (pre e).map digest

/-- The two entries are hashed over one preimage. -/
def SamePreimage (pre : α → Option β) (e f : α) : Prop := ∃ x, pre e = some x ∧ pre f = some x

/-- Two different preimages of entries of the two lists have one digest. -/
def Collide (pre : α → Option β) (digest : β → Str) (entries kept : List α) : Prop :=
  ∃ e ∈ entries, ∃ f ∈ kept, ∃ x y, pre e = some x ∧ pre f = some y ∧ x ≠ y ∧ digest x = digest y

/-- One preimage fixes where an entry stands and what it names. -/
def Fixes (v : View α) (pre : α → Option β) (entries kept : List α) : Prop :=
  ∀ e ∈ entries, ∀ f ∈ kept, SamePreimage pre e f →
    v.sequence e = v.sequence f ∧ v.previous e = v.previous f

namespace Unbroken

/-- **The entry behind an entry names its hash.** -/
theorem next : ∀ {entries : List α} {lo : ℤ}, Unbroken v lo entries →
    ∀ e ∈ entries, ∀ d ∈ entries, v.sequence e < v.sequence d →
      ∃ f ∈ entries, v.sequence f = v.sequence e + 1 ∧ Linked v e f := by
  intro entries
  induction entries with
  | nil => intro lo _ e he; cases he
  | cons first rest ih =>
    intro lo h e he d hd hlt
    rcases List.mem_cons.1 he with rfl | her
    · -- `d` stands behind the first entry, so that there is a second one
      cases rest with
      | nil =>
        rw [List.mem_singleton.1 hd] at hlt
        omega
      | cons second rest =>
        have hsequence := (List.isChain_cons_cons.1 h.contiguous).1
        have hlinked := (List.isChain_cons_cons.1 h.linked).1
        exact ⟨second, by simp, hsequence, hlinked⟩
    · rcases List.mem_cons.1 hd with rfl | hdr
      · have hfirst := h.begins d rfl
        have hbehind := h.tail.bounds e her
        omega
      · obtain ⟨f, hf, hsequence, hlinked⟩ := ih h.tail e her d hdr hlt
        exact ⟨f, List.mem_cons_of_mem _ hf, hsequence, hlinked⟩

/-- **A sequence is one entry's.** -/
theorem unique : ∀ {entries : List α} {lo : ℤ}, Unbroken v lo entries →
    ∀ e ∈ entries, ∀ d ∈ entries, v.sequence e = v.sequence d → e = d := by
  intro entries
  induction entries with
  | nil => intro lo _ e he; cases he
  | cons first rest ih =>
    intro lo h e he d hd heq
    have hfirst := h.begins first rfl
    rcases List.mem_cons.1 he with hef | her
    · rcases List.mem_cons.1 hd with hdf | hdr
      · rw [hef, hdf]
      · have hbehind := h.tail.bounds d hdr
        rw [hef] at heq
        omega
    · rcases List.mem_cons.1 hd with hdf | hdr
      · have hbehind := h.tail.bounds e her
        rw [hdf] at heq
        omega
      · exact ih h.tail e her d hdr heq

end Unbroken

section Agrees

variable {entries kept : List α} {lo lo' : ℤ}

/-- Sound entries of one hash are hashed over one preimage, unless the two collide. -/
theorem samePreimage_of_hash (hdigests : Digests v pre digest) {e f : α} (he : Sound v e)
    (hf : Sound v f) (hhash : v.hash e = v.hash f) :
    SamePreimage pre e f ∨
      ∃ x y, pre e = some x ∧ pre f = some y ∧ x ≠ y ∧ digest x = digest y := by
  have hrecomputed := he.2
  have hrecomputed' := hf.2
  rw [hdigests e, Option.map_eq_some_iff] at hrecomputed
  rw [hdigests f, Option.map_eq_some_iff] at hrecomputed'
  obtain ⟨x, hx, hdx⟩ := hrecomputed
  obtain ⟨y, hy, hdy⟩ := hrecomputed'
  by_cases hxy : x = y
  · subst hxy
    exact .inl ⟨x, hx, hy⟩
  · exact .inr ⟨x, y, hx, hy, hxy, by rw [hdx, hdy, hhash]⟩

/-- **An entry of each with one hash: below it the two stretches are one chain.** -/
theorem agrees_below (hdigests : Digests v pre digest) (hfixes : Fixes v pre entries kept)
    (hfree : ¬ Collide pre digest entries kept) (he : Unbroken v lo entries)
    (hk : Unbroken v lo' kept) {d k : α} (hd : d ∈ entries) (hkm : k ∈ kept)
    (hhash : v.hash d = v.hash k) :
    v.sequence d = v.sequence k ∧
      ∀ e ∈ entries, ∀ f ∈ kept, v.sequence e = v.sequence f → v.sequence e ≤ v.sequence d →
        SamePreimage pre e f ∧ v.hash e = v.hash f := by
  have same : ∀ e ∈ entries, ∀ f ∈ kept, v.hash e = v.hash f → SamePreimage pre e f := by
    intro e hem f hfm hef
    rcases samePreimage_of_hash hdigests (he.sound e hem) (hk.sound f hfm) hef with hsame | hcollide
    · exact hsame
    · obtain ⟨x, y, hx, hy, hne, heq⟩ := hcollide
      exact absurd ⟨e, hem, f, hfm, x, y, hx, hy, hne, heq⟩ hfree
  have hmark : v.sequence d = v.sequence k := (hfixes d hd k hkm (same d hd k hkm hhash)).1
  -- by induction on how far below the mark the two entries stand
  have below : ∀ n : ℕ, ∀ e ∈ entries, ∀ f ∈ kept, v.sequence e = v.sequence f →
      v.sequence d = v.sequence e + n → v.hash e = v.hash f := by
    intro n
    induction n with
    | zero =>
      intro e hem f hfm hef hn
      have hed : e = d := he.unique e hem d hd (by omega)
      have hfk : f = k := hk.unique f hfm k hkm (by omega)
      rw [hed, hfk]
      exact hhash
    | succ n ih =>
      intro e hem f hfm hef hn
      obtain ⟨e', hem', hes, hel⟩ := he.next e hem d hd (by omega)
      obtain ⟨f', hfm', hfs, hfl⟩ := hk.next f hfm k hkm (by omega)
      have hnext : v.hash e' = v.hash f' := ih e' hem' f' hfm' (by omega) (by omega)
      have hprevious := (hfixes e' hem' f' hfm' (same e' hem' f' hfm' hnext)).2
      have hsome : some (v.hash e) = some (v.hash f) := by rw [← hel, ← hfl, hprevious]
      exact Option.some.inj hsome
  refine ⟨hmark, fun e hem f hfm hef hle => ?_⟩
  obtain ⟨n, hn⟩ : ∃ n : ℕ, v.sequence d = v.sequence e + n :=
    ⟨(v.sequence d - v.sequence e).toNat, by omega⟩
  have hagree := below n e hem f hfm hef hn
  exact ⟨same e hem f hfm hagree, hagree⟩

end Agrees

end SayFirst.Chain
