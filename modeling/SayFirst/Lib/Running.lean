import Mathlib.Data.List.Induction
import Mathlib.Order.Nat

/-!
# Running values

The entries of a list set values under keys. What is in force for an entry is what its key was last
set to, up to the entry itself. What is in force over a list that is read in parts is what is in
force over the parts, each read behind the ones before it.

* `last`, `inForce` — the running value of a key, and of every entry.
* `inForce_append` — the parts.
* `Least` — a value of least rank, and `Least.join`, that it is the least of the parts' least.
-/

namespace SayFirst.Running

variable {α κ ν : Type*}

section

variable [DecidableEq κ] (key : α → κ) (sets : α → Option ν) (default : ν)

/-- What a key was last set to. -/
def last (k : κ) (entries : List α) : ν :=
  entries.foldl (fun value e => if key e = k then (sets e).getD value else value) default

/-- The key of every entry, and what is in force for it behind the entries before. -/
def inForce (before : List α) : List α → List (κ × ν)
  | [] => []
  | e :: rest =>
    (key e, last key sets default (key e) (before ++ [e])) :: inForce (before ++ [e]) rest

/-- The values of one key. -/
def valuesOf (k : κ) (l : List (κ × ν)) : List ν := (l.filter fun x => x.1 = k).map Prod.snd

variable {key sets default} {k : κ}

theorem last_snoc {entries : List α} {e : α} : last key sets default k (entries ++ [e]) =
    if key e = k then (sets e).getD (last key sets default k entries)
    else last key sets default k entries := by
  unfold last
  rw [List.foldl_append, List.foldl_cons, List.foldl_nil]

/-- **What is in force over a list is what is in force over its parts.** -/
theorem inForce_append {part rest : List α} : ∀ {before : List α},
    inForce key sets default before (part ++ rest) =
      inForce key sets default before part ++ inForce key sets default (before ++ part) rest := by
  induction part with
  | nil =>
    intro before
    rw [List.append_nil]
    rfl
  | cons e part ih =>
    intro before
    rw [List.cons_append, inForce, ih, inForce, List.append_assoc]
    rfl

theorem inForce_snoc {before seen : List α} {e : α} :
    inForce key sets default before (seen ++ [e]) = inForce key sets default before seen ++
      [(key e, last key sets default (key e) (before ++ seen ++ [e]))] :=
  inForce_append

theorem valuesOf_append {l l' : List (κ × ν)} :
    valuesOf k (l ++ l') = valuesOf k l ++ valuesOf k l' := by
  unfold valuesOf
  rw [List.filter_append, List.map_append]

theorem valuesOf_singleton {k' : κ} {value : ν} :
    valuesOf k [(k', value)] = if k' = k then [value] else [] := by
  unfold valuesOf
  by_cases h : k' = k
  · rw [if_pos h, List.filter_cons_of_pos (by simpa using h)]
    rfl
  · rw [if_neg h, List.filter_cons_of_neg (by simpa using h)]
    rfl

/-- A property of the default and of every value that is set holds of what is in force. -/
theorem last_rule {P : ν → Prop} (hdefault : P default) {entries : List α}
    (hsets : ∀ e ∈ entries, ∀ value, sets e = some value → P value) :
    P (last key sets default k entries) := by
  induction entries using List.reverseRecOn with
  | nil => exact hdefault
  | append_singleton entries e ih =>
    have hentries := ih fun e' he' => hsets e' (List.mem_append_left _ he')
    rw [last_snoc]
    split
    · cases hvalue : sets e with
      | none => exact hentries
      | some value => exact hsets e (List.mem_append_right _ List.mem_cons_self) value hvalue
    · exact hentries

theorem inForce_rule {P : ν → Prop} (hdefault : P default) : ∀ {entries before : List α},
    (∀ e ∈ before ++ entries, ∀ value, sets e = some value → P value) →
      ∀ x ∈ inForce key sets default before entries, P x.2 := by
  intro entries
  induction entries with
  | nil => exact fun _ x hx => by cases hx
  | cons e rest ih =>
    intro before hsets x hx
    have hsets' : ∀ e' ∈ (before ++ [e]) ++ rest, ∀ value, sets e' = some value → P value := by
      rw [List.append_assoc]
      exact hsets
    obtain rfl | hx := List.mem_cons.1 hx
    · exact last_rule hdefault fun e' he' => hsets' e' (List.mem_append_left _ he')
    · exact ih hsets' x hx

end

/-! ## The least value -/

/-- A value of the list, and none is of a lower rank. -/
structure Least (rank : ν → ℕ) (l : List ν) (value : ν) : Prop where
  mem : value ∈ l
  le : ∀ value' ∈ l, rank value ≤ rank value'

variable {rank : ν → ℕ}

/-- Values of one rank are one, so the least is. -/
theorem Least.unique {l : List ν} {value value' : ν}
    (hrank : ∀ a ∈ l, ∀ b ∈ l, rank a = rank b → a = b) (h : Least rank l value)
    (h' : Least rank l value') : value = value' :=
  hrank value h.mem value' h'.mem (le_antisymm (h.le value' h'.mem) (h'.le value h.mem))

/-- **The least of the parts' least is the least of the whole.** -/
theorem least_flatten {parts : List (List ν)} {value : ν}
    (hleast : ∀ part ∈ parts, part ≠ [] → ∃ least, Least rank part least) :
    Least rank parts.flatten value ↔
      (∃ part ∈ parts, Least rank part value) ∧
        ∀ part ∈ parts, ∀ least, Least rank part least → rank value ≤ rank least := by
  constructor
  · intro h
    obtain ⟨part, hpart, hvalue⟩ := List.mem_flatten.1 h.mem
    refine ⟨⟨part, hpart, hvalue, fun value' hvalue' => ?_⟩, fun part hpart least hl => ?_⟩
    · exact h.le value' (List.mem_flatten.2 ⟨part, hpart, hvalue'⟩)
    · exact h.le least (List.mem_flatten.2 ⟨part, hpart, hl.mem⟩)
  · rintro ⟨⟨part, hpart, hvalue⟩, hle⟩
    refine ⟨List.mem_flatten.2 ⟨part, hpart, hvalue.mem⟩, fun value' hvalue' => ?_⟩
    obtain ⟨part', hpart', hmem⟩ := List.mem_flatten.1 hvalue'
    obtain ⟨least, hl⟩ := hleast part' hpart' (List.ne_nil_of_mem hmem)
    exact (hle part' hpart' least hl).trans (hl.le value' hmem)

end SayFirst.Running
