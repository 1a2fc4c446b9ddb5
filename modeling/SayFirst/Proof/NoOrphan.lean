import SayFirst.Proof.Boundary
import SayFirst.Spec.StoreSections

/-!
# No reader is left behind

* `accounted_section` — what every section keeps: a reader that was put is held, closed, or due to be
  closed by a `close` that has not returned.
* `closed_store_stays_empty` — behind a `close` nothing is held until the next `put`.
* `no_orphan_reader` — every interleaving of `put`, `take` and `close`.
-/

namespace SayFirst.Boundary

open Py
open SayFirst.Client (ClientHost GrantConditions Members)
open SayFirst.Plane (DecisionAsk)

variable {py : ClientHost} {fromIso : FromIso} {r : SignalReader} {store : GrantStore}

/-! ## The store -/

/-- The reader is the one held for its conditions. -/
def GrantStore.Holds (store : GrantStore) (r : SignalReader) : Prop :=
  ∃ held ∈ store, held.1 = r.grant.conditions ∧ held.2.number = r.number

/-- At most one reader for each question. -/
def GrantStore.Single (store : GrantStore) : Prop := (store.map Prod.fst).Nodup

namespace GrantStore

theorem Single.without (h : store.Single) (key : GrantConditions) : (store.without key).Single :=
  h.sublist (List.filter_sublist.map _)

theorem Single.put (h : store.Single) (reader : SignalReader) : (store.put reader).Single := by
  refine List.nodup_cons.2 ⟨fun hmem => ?_, h.without _⟩
  obtain ⟨held, hheld, hkey⟩ := List.mem_map.1 hmem
  have hne := (List.mem_filter.1 hheld).2
  rw [hkey] at hne
  simp at hne

theorem map_fst_heard (number : ℕ) (f : SignalReader → SignalReader) :
    (store.heard number f).map Prod.fst = store.map Prod.fst := by
  unfold heard
  rw [List.map_map]
  refine List.map_congr_left fun held _ => ?_
  simp only [Function.comp]
  split <;> rfl

theorem Single.heard (h : store.Single) (number : ℕ) (f : SignalReader → SignalReader) :
    (store.heard number f).Single := by
  unfold Single
  rw [map_fst_heard]
  exact h

theorem holds_heard {number : ℕ} {f : SignalReader → SignalReader}
    (hf : ∀ r, (f r).number = r.number) : (store.heard number f).Holds r ↔ store.Holds r := by
  constructor
  · rintro ⟨held, hmem, hkey, hnumber⟩
    obtain ⟨held', hmem', rfl⟩ := List.mem_map.1 hmem
    refine ⟨held', hmem', ?_⟩
    split at hkey <;> split at hnumber <;> simp_all
  · rintro ⟨held, hmem, hkey, hnumber⟩
    refine ⟨_, List.mem_map_of_mem hmem, ?_⟩
    split <;> simp_all

/-- What is held for a question is what the lookup finds. -/
theorem Single.lookup (h : store.Single) {key : GrantConditions} {reader : SignalReader}
    (hmem : (key, reader) ∈ store) : store.lookup key = some reader := by
  obtain ⟨before, behind, rfl⟩ := List.append_of_mem hmem
  refine List.lookup_eq_some_iff.2 ⟨before, behind, rfl, fun held hheld => ?_⟩
  unfold Single at h
  rw [List.map_append, List.map_cons] at h
  have hne : held.1 ≠ key := by
    rintro rfl
    exact (List.disjoint_of_nodup_append h) (List.mem_map_of_mem hheld) List.mem_cons_self
  simpa using hne.symm

/-- Whom a question does not concern is held as before. -/
theorem holds_without {key : GrantConditions} (hr : store.Holds r) (hkey : r.grant.conditions ≠ key) :
    (store.without key).Holds r := by
  obtain ⟨held, hmem, hheld, hnumber⟩ := hr
  exact ⟨held, List.mem_filter.2 ⟨hmem, by rw [hheld]; simpa using hkey⟩, hheld, hnumber⟩

/-- Who is held for the question of another reader is that reader, or displaced. -/
theorem displaced_cases (h : store.Single) {reader : SignalReader} (hr : store.Holds r)
    (hkey : r.grant.conditions = reader.grant.conditions) : r.number = reader.number ∨
      ∃ displaced, store.displaced reader = some displaced ∧ displaced.number = r.number := by
  obtain ⟨⟨key, held⟩, hmem, rfl, hnumber⟩ := hr
  by_cases hsame : held.number = reader.number
  · exact Or.inl (hnumber.symm.trans hsame)
  · refine Or.inr ⟨held, ?_, hnumber⟩
    unfold displaced
    rw [← hkey, h.lookup hmem, Option.filter_some, if_pos (by simpa using hsame)]

theorem holds_put {reader : SignalReader} (hr : store.Holds r)
    (hkey : r.grant.conditions ≠ reader.grant.conditions) : (store.put reader).Holds r := by
  obtain ⟨held, hmem, hheld, hnumber⟩ := holds_without hr hkey
  exact ⟨held, List.mem_cons_of_mem _ hmem, hheld, hnumber⟩

theorem holds_put_self {reader : SignalReader} (hkey : r.grant.conditions = reader.grant.conditions)
    (hnumber : r.number = reader.number) : (store.put reader).Holds r :=
  ⟨_, List.mem_cons_self, hkey.symm, hnumber.symm⟩

/-- Who was held is held, but for the reader that is given up. -/
theorem holds_take {ask : DecisionAsk} {principal : Str} {now : ℤ} (h : store.Single)
    (hr : store.Holds r) : (store.take fromIso ask principal now).2.Holds r ∨
      ∃ reader, store.givenUp fromIso ask principal now = some reader ∧
        reader.number = r.number := by
  unfold take givenUp
  simp only
  cases hlookup : store.lookup (question ask principal) with
  | none => exact Or.inl hr
  | some reader =>
    simp only
    cases ending fromIso reader.toHeld ask principal now with
    | error e => exact Or.inl hr
    | ok answer =>
      by_cases hkey : r.grant.conditions = question ask principal
      · obtain ⟨⟨key, held⟩, hmem, rfl, hnumber⟩ := id hr
        rw [← hkey, h.lookup hmem] at hlookup
        cases hlookup
        cases answer with
        | live => exact Or.inl hr
        | _ => exact Or.inr ⟨reader, rfl, hnumber⟩
      · cases answer with
        | live => exact Or.inl hr
        | _ => exact Or.inl (holds_without hr hkey)

theorem Single.take {ask : DecisionAsk} {principal : Str} {now : ℤ} (h : store.Single) :
    (store.take fromIso ask principal now).2.Single := by
  unfold GrantStore.take
  simp only
  split
  · exact h
  · split
    · exact h
    · exact h.without _
    · exact h

end GrantStore

/-! ## What is shared -/

/-- A section that puts a reader. -/
def Section.Puts : Section → Prop
  | .put _ => True
  | _ => False

namespace Shared

variable {s : Shared}

/-- A reader that was put, and is not the one spared, is held, closed, or due to be closed. -/
structure AccountedBut (s : Shared) (spared : Option SignalReader) : Prop where
  single : s.store.Single
  accounted : ∀ r ∈ s.put, s.store.Holds r ∨ r.number ∈ s.closed ∨
    (∃ call ∈ s.closing, ∃ due ∈ call, due.number = r.number) ∨
    ∃ reader, spared = some reader ∧ reader.number = r.number

/-- A reader that was put is held, closed, or due to be closed. -/
abbrev Accounted (s : Shared) : Prop := s.AccountedBut none

theorem accounted_begin : begin.Accounted := ⟨List.nodup_nil, fun _ hmem => (by cases hmem)⟩

theorem holds_shutting (reader : Option SignalReader) :
    (s.shutting reader).store.Holds r ↔ s.store.Holds r := by
  cases reader with
  | none => exact Iff.rfl
  | some reader => exact GrantStore.holds_heard fun r => (rfl : r.lost.number = r.number)

theorem put_shutting (reader : Option SignalReader) : (s.shutting reader).put = s.put := by
  cases reader <;> rfl

theorem mem_closed_shutting {reader : Option SignalReader} {shut : SignalReader}
    (h : reader = some shut) : shut.number ∈ (s.shutting reader).closed := by
  rw [h]
  exact List.mem_cons_self

/-- Closing the reader that was spared accounts for it. -/
theorem AccountedBut.shutting (spared : Option SignalReader) (h : s.AccountedBut spared) :
    (s.shutting spared).Accounted := by
  cases spared with
  | none => exact h
  | some reader =>
    refine ⟨h.single.heard _ _, fun r hmem => ?_⟩
    rcases h.accounted r hmem with hheld | hclosed | hdue | ⟨spared, hspared, hnumber⟩
    · exact Or.inl ((holds_shutting (some reader)).2 hheld)
    · exact Or.inr (Or.inl (List.mem_cons_of_mem _ hclosed))
    · exact Or.inr (Or.inr (Or.inl hdue))
    · cases hspared
      exact Or.inr (Or.inl (hnumber ▸ List.mem_cons_self))

theorem Accounted.weaken (h : s.Accounted) (spared : Option SignalReader) :
    s.AccountedBut spared := by
  refine ⟨h.single, fun r hmem => ?_⟩
  rcases h.accounted r hmem with hheld | hclosed | hdue | ⟨_, hnone, -⟩
  · exact Or.inl hheld
  · exact Or.inr (Or.inl hclosed)
  · exact Or.inr (Or.inr (Or.inl hdue))
  · cases hnone

theorem Accounted.put (h : s.Accounted) (reader : SignalReader) :
    (s.section_ py fromIso (.put reader)).Accounted := by
  have hshut : (s.shutting (s.store.displaced reader)).Accounted := (h.weaken _).shutting
  refine ⟨hshut.single.put reader, fun r hmem => ?_⟩
  rcases List.mem_cons.1 hmem with rfl | hmem
  · exact Or.inl (GrantStore.holds_put_self rfl rfl)
  · rcases hshut.accounted r hmem with hheld | hrest
    · by_cases hkey : r.grant.conditions = reader.grant.conditions
      · rcases GrantStore.displaced_cases h.single ((holds_shutting _).1 hheld) hkey with
          hnumber | ⟨displaced, hdisplaced, hnumber⟩
        · exact Or.inl (GrantStore.holds_put_self hkey hnumber)
        · exact Or.inr (Or.inl (hnumber ▸ mem_closed_shutting hdisplaced))
      · exact Or.inl (GrantStore.holds_put hheld hkey)
    · exact Or.inr hrest

theorem Accounted.take (h : s.Accounted) (ask : DecisionAsk) (principal : Str) (now : ℤ) :
    (s.section_ py fromIso (.take ask principal now)).Accounted := by
  refine AccountedBut.shutting _ ⟨h.single.take, fun r hmem => ?_⟩
  rcases h.accounted r hmem with hheld | hclosed | hdue | ⟨_, hnone, -⟩
  · rcases GrantStore.holds_take h.single hheld with hheld | hgiven
    · exact Or.inl hheld
    · exact Or.inr (Or.inr (Or.inr hgiven))
  · exact Or.inr (Or.inl hclosed)
  · exact Or.inr (Or.inr (Or.inl hdue))
  · cases hnone

/-- A `close` has every reader it took to close. -/
theorem Accounted.close (h : s.Accounted) : (s.section_ py fromIso .close).Accounted := by
  refine ⟨List.nodup_nil, fun r hmem => ?_⟩
  rcases h.accounted r hmem with ⟨held, hheld, -, hnumber⟩ | hclosed | ⟨call, hcall, hdue⟩ |
    ⟨_, hnone, -⟩
  · exact Or.inr (Or.inr (Or.inl ⟨_, List.mem_append_right _ (List.mem_singleton.2 rfl), held.2,
      List.mem_map_of_mem hheld, hnumber⟩))
  · exact Or.inr (Or.inl hclosed)
  · exact Or.inr (Or.inr (Or.inl ⟨call, List.mem_append_left _ hcall, hdue⟩))
  · cases hnone

theorem Accounted.closes (h : s.Accounted) (call : ℕ) :
    (s.section_ py fromIso (.closes call)).Accounted := by
  unfold section_
  simp only
  split
  · exact h
  · rename_i hcall
    refine ⟨h.single, fun r hmem => ?_⟩
    rcases h.accounted r hmem with hheld | hclosed | ⟨other, hother, due, hdue, hnumber⟩ |
      ⟨_, hnone, -⟩
    · exact Or.inl hheld
    · exact Or.inr (Or.inl hclosed)
    · obtain ⟨i, hi⟩ := List.mem_iff_getElem?.1 hother
      have hne : i ≠ call := by
        rintro rfl
        rw [hcall] at hi
        cases hi
        cases hdue
      exact Or.inr (Or.inr (Or.inl
        ⟨other, List.mem_eraseIdx_iff_getElem?.2 ⟨i, hne, hi⟩, due, hdue, hnumber⟩))
    · cases hnone
  · rename_i reader rest hcall
    refine AccountedBut.shutting (some reader) ⟨h.single, fun r hmem => ?_⟩
    rcases h.accounted r hmem with hheld | hclosed | ⟨other, hother, due, hdue, hnumber⟩ |
      ⟨_, hnone, -⟩
    · exact Or.inl hheld
    · exact Or.inr (Or.inl hclosed)
    · obtain ⟨i, hi⟩ := List.mem_iff_getElem?.1 hother
      by_cases hi' : i = call
      · subst hi'
        rw [hcall] at hi
        cases hi
        rcases List.mem_cons.1 hdue with rfl | hdue
        · exact Or.inr (Or.inr (Or.inr ⟨due, rfl, hnumber⟩))
        · have hlt := (List.getElem?_eq_some_iff.1 hcall).1
          exact Or.inr (Or.inr (Or.inl ⟨rest, List.mem_set hlt rest, due, hdue, hnumber⟩))
      · refine Or.inr (Or.inr (Or.inl ⟨other, ?_, due, hdue, hnumber⟩))
        exact List.mem_iff_getElem?.2 ⟨i, by rw [List.getElem?_set_ne (Ne.symm hi'), hi]⟩
    · cases hnone

theorem Accounted.heard (h : s.Accounted) (number : ℕ) {f : SignalReader → SignalReader}
    (hf : ∀ r, (f r).number = r.number) :
    Accounted { s with store := s.store.heard number f } := by
  refine ⟨h.single.heard _ _, fun r hmem => ?_⟩
  rcases h.accounted r hmem with hheld | hrest
  · exact Or.inl ((GrantStore.holds_heard hf).2 hheld)
  · exact Or.inr hrest

theorem number_apply (signal : GrantSignal) (r : SignalReader) :
    (r.apply fromIso signal).number = r.number := by
  unfold SignalReader.apply
  simp only
  split
  · rfl
  · split
    · rfl
    · split <;> rfl

theorem number_frame (document : Members) (r : SignalReader) :
    (r.frame py fromIso document).number = r.number := by
  unfold SignalReader.frame
  split
  · exact number_apply _ _
  · rfl

/-- Every section keeps every reader accounted for. -/
theorem accounted_section (h : s.Accounted) (sec : Section) :
    (s.section_ py fromIso sec).Accounted := by
  cases sec with
  | put reader => exact h.put reader
  | take ask principal now => exact h.take ask principal now
  | close => exact h.close
  | closes call => exact h.closes call
  | frame reader document => exact h.heard reader (number_frame document)
  | channelEnded reader => exact h.heard reader fun _ => rfl

theorem accounted_after (py : ClientHost) (fromIso : FromIso) (h : s.Accounted)
    (sections : List Section) :
    (s.after py fromIso sections).Accounted := by
  induction sections generalizing s with
  | nil => exact h
  | cons sec sections ih => exact ih (accounted_section h sec)

theorem store_section (h : s.store = []) {sec : Section} (hsec : ¬sec.Puts) :
    (s.section_ py fromIso sec).store = [] := by
  cases sec with
  | put reader => exact absurd trivial hsec
  | take ask principal now =>
    have hnone : s.store.givenUp fromIso ask principal now = none := by rw [h]; rfl
    unfold section_
    simp only
    rw [hnone, h]
    rfl
  | close => rfl
  | closes call =>
    unfold section_
    simp only
    split
    · exact h
    · exact h
    · unfold shut
      rw [h]
      rfl
  | frame reader document =>
    unfold section_
    rw [h]
    rfl
  | channelEnded reader =>
    unfold section_
    rw [h]
    rfl

/-- Behind a `close` nothing is held until the next `put`. -/
theorem closed_store_stays_empty (h : s.store = []) {sections : List Section}
    (hsections : ∀ sec ∈ sections, ¬sec.Puts) : (s.after py fromIso sections).store = [] := by
  induction sections generalizing s with
  | nil => exact h
  | cons sec sections ih =>
    exact ih (store_section h (hsections sec List.mem_cons_self)) fun sec hmem =>
      hsections sec (List.mem_cons_of_mem _ hmem)

/-- What an interleaving owes: while no `close` is under way each reader that was put is the one
held for its conditions or was closed, and behind a `close` that no `put` follows none is held. -/
structure NoOrphan (py : ClientHost) (fromIso : FromIso) (sections : List Section) : Prop where
  single : (begin.after py fromIso sections).store.Single
  accounted : (begin.after py fromIso sections).closing = [] →
    ∀ r ∈ (begin.after py fromIso sections).put,
      (begin.after py fromIso sections).store.Holds r ∨
        r.number ∈ (begin.after py fromIso sections).closed
  emptied : ∀ before behind, sections = before ++ .close :: behind →
    (∀ sec ∈ behind, ¬sec.Puts) → (begin.after py fromIso sections).store = []

/-- **No reader is left behind**, in any interleaving of the sections of `put`, `take` and `close`,
of what readers hear, and of what a `close` does outside the lock. -/
theorem no_orphan_reader (py : ClientHost) (fromIso : FromIso) (sections : List Section) :
    NoOrphan py fromIso sections := by
  have haccounted := accounted_after py fromIso accounted_begin sections
  refine ⟨haccounted.single, fun hclosing r hmem => ?_, fun before behind hsplit hbehind => ?_⟩
  · rcases haccounted.accounted r hmem with hheld | hclosed | ⟨call, hcall, -⟩ | ⟨_, hnone, -⟩
    · exact Or.inl hheld
    · exact Or.inr hclosed
    · rw [hclosing] at hcall
      cases hcall
    · cases hnone
  · rw [hsplit, after, List.foldl_append, List.foldl_cons]
    exact closed_store_stays_empty rfl hbehind

end Shared

end SayFirst.Boundary
