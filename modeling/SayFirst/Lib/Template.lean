import SayFirst.Lib.Text
import Mathlib.Data.List.TakeWhile

/-!
# Path templates

A template is text with variable segments in it, `/orders/{name}/lines`. It is filled with values,
and it is matched as the regular expression in which a variable is a group `[^/]+`.

* `pieces` — a template, read.
* `fill`, `match_` — a template filled, and a target matched against one.
* `match_fill` — what was filled in is matched, with the values it was filled with.
* `firstMatch_of_mem` — in a table of templates that are apart, the order does not matter.
-/

namespace SayFirst.Py

/-- A piece of a template. -/
inductive Piece where
  | char (c : ℕ)
  | variable_ (name : Str)
  deriving DecidableEq, Repr

abbrev Values := List (Str × Str)

namespace Template

/-- A character of a variable's name. -/
def isName (c : ℕ) : Bool := isLower c || c == 95

/-- `finditer` of `\\x7b([a-z_]+)\\x7d`, and what stands between the matches. -/
def piecesFrom : ℕ → Str → List Piece
  | 0, _ => []
  | _ + 1, [] => []
  | fuel + 1, c :: s =>
    match decide (c = 123) && !(s.takeWhile isName).isEmpty, s.dropWhile isName with
    | true, 125 :: rest => .variable_ (s.takeWhile isName) :: piecesFrom fuel rest
    | _, _ => .char c :: piecesFrom fuel s

/-- The pieces of a template. -/
def pieces (path : Str) : List Piece := piecesFrom path.length path

/-- `path.format(**values)`; none where a value is missing. -/
def fill (values : Values) : List Piece → Option Str
  | [] => some []
  | .char c :: ps => (fill values ps).map (c :: ·)
  | .variable_ name :: ps =>
    match values.lookup name, fill values ps with
    | some value, some rest => some (value ++ rest)
    | _, _ => none

/-- `fullmatch`, with the values of its groups: a group takes as much as it can. -/
def match_ : List Piece → Str → Option Values
  | [], s => if s = [] then some [] else none
  | .char _ :: _, [] => none
  | .char c :: ps, d :: s => if c = d then match_ ps s else none
  | .variable_ name :: ps, s =>
    -- Greedy: the longest run first, then each shorter one down to one character.
    (List.range (s.takeWhile (· ≠ 47)).length).reverse.findSome? fun k =>
      (match_ ps (s.drop (k + 1))).map ((name, s.take (k + 1)) :: ·)

theorem fill_char_some {values : Values} {c : ℕ} {ps : List Piece} {t : Str}
    (h : fill values (.char c :: ps) = some t) :
    ∃ rest, fill values ps = some rest ∧ t = c :: rest := by
  obtain ⟨rest, hrest, rfl⟩ := Option.map_eq_some_iff.1 h
  exact ⟨rest, hrest, rfl⟩

theorem fill_variable_some {values : Values} {name : Str} {ps : List Piece} {t : Str}
    (h : fill values (.variable_ name :: ps) = some t) :
    ∃ value rest, values.lookup name = some value ∧ fill values ps = some rest ∧
      t = value ++ rest := by
  rw [fill] at h
  cases hvalue : values.lookup name with
  | none => simp [hvalue] at h
  | some value =>
    cases hrest : fill values ps with
    | none => simp [hvalue, hrest] at h
    | some rest =>
      rw [hvalue, hrest] at h
      exact ⟨value, rest, rfl, rfl, (Option.some.inj h).symm⟩

theorem match_char_some {c : ℕ} {ps : List Piece} {s : Str} {values : Values}
    (h : match_ (.char c :: ps) s = some values) :
    ∃ rest, s = c :: rest ∧ match_ ps rest = some values := by
  cases s with
  | nil => cases h
  | cons d s =>
    have hcd : c = d := by
      by_contra hcd
      rw [match_, if_neg hcd] at h
      cases h
    subst hcd
    rw [match_, if_pos rfl] at h
    exact ⟨s, rfl, h⟩

example : match_ (pieces (lit "/a/\x7bx\x7d/b")) (lit "/a/c%2F/b") =
    some [(lit "x", lit "c%2F")] := by decide

/-! ## A variable is a whole segment -/

/-- What stands behind a variable: a slash, or nothing. -/
def opens : List Piece → Bool
  | [] => true
  | .char c :: _ => c == 47
  | .variable_ _ :: _ => false

/-- Each variable reaches to the end of its segment. -/
def whole : List Piece → Bool
  | [] => true
  | .char _ :: ps => whole ps
  | .variable_ _ :: ps => opens ps && whole ps

/-- A value a variable can stand for. -/
def IsSegment (value : Str) : Prop := value ≠ [] ∧ ∀ c ∈ value, c ≠ 47

/-- A text that is at its end, or at a slash. -/
def AtBreak (s : Str) : Prop := ∀ c ∈ s.head?, c = 47

theorem match_opens {ps : List Piece} (h : opens ps = true) {s : Str} (hs : ¬AtBreak s) :
    match_ ps s = none := by
  cases s with
  | nil => exact absurd (fun c hc => by cases hc) hs
  | cons d s =>
    have hd : d ≠ 47 := by
      intro hd
      exact hs fun c hc => by
        obtain rfl : d = c := by simpa using hc
        exact hd
    cases ps with
    | nil => rfl
    | cons p ps =>
      cases p with
      | variable_ name => cases h
      | char c =>
        have hc : c = 47 := by simpa [opens] using h
        rw [match_, if_neg (by omega)]

/-- The run of a variable: it takes its segment, and no less. -/
theorem match_variable {name value : Str} {ps : List Piece} {s : Str} (hps : opens ps = true)
    (hvalue : IsSegment value) (hs : AtBreak s) :
    match_ (.variable_ name :: ps) (value ++ s) = (match_ ps s).map ((name, value) :: ·) := by
  have hrun : (value ++ s).takeWhile (· ≠ 47) = value := by
    rw [List.takeWhile_append_of_pos (by simpa using hvalue.2)]
    cases s with
    | nil => simp
    | cons d s =>
      have hd : d = 47 := hs d (by simp)
      simp [hd]
  obtain ⟨n, hn⟩ : ∃ n, value.length = n + 1 :=
    ⟨value.length - 1, by have := List.length_pos_of_ne_nil hvalue.1; omega⟩
  have htake : (value ++ s).take (n + 1) = value := by rw [← hn, List.take_left']; rfl
  have hdrop : (value ++ s).drop (n + 1) = s := by rw [← hn, List.drop_left']; rfl
  rw [match_, hrun, hn, List.range_succ, List.reverse_append]
  show ([n] ++ (List.range n).reverse).findSome? _ = _
  rw [List.singleton_append, List.findSome?_cons, htake, hdrop]
  cases hmatch : match_ ps s with
  | some rest => rfl
  | none =>
    -- A shorter run stops inside the segment, where nothing behind a variable begins.
    show (List.range n).reverse.findSome? _ = none
    rw [List.findSome?_eq_none_iff]
    intro k hk
    have hk : k < n := List.mem_range.1 (List.mem_reverse.1 hk)
    have hinside : ¬AtBreak ((value ++ s).drop (k + 1)) := by
      have hlt : k + 1 < value.length := by omega
      rw [List.drop_append_of_le_length hlt.le, List.drop_eq_getElem_cons hlt]
      intro hbreak
      exact hvalue.2 _ (List.getElem_mem hlt) (hbreak _ (by simp))
    rw [match_opens hps hinside]
    rfl

/-- A variable that matched, and what stood for it. -/
theorem match_variable_some {name : Str} {ps : List Piece} {s : Str} {values : Values}
    (hps : opens ps = true) (h : match_ (.variable_ name :: ps) s = some values) :
    ∃ value rest taken, s = value ++ rest ∧ IsSegment value ∧ AtBreak rest ∧
      match_ ps rest = some taken ∧ values = (name, value) :: taken := by
  rw [match_] at h
  obtain ⟨k, hk, h⟩ := List.exists_of_findSome?_eq_some h
  obtain ⟨taken, htaken, rfl⟩ := Option.map_eq_some_iff.1 h
  have hk : k < (s.takeWhile (· ≠ 47)).length := List.mem_range.1 (List.mem_reverse.1 hk)
  have hlength : (s.takeWhile (· ≠ 47)).length ≤ s.length :=
    (List.takeWhile_prefix _).length_le
  have hbegins : s.take (k + 1) <+: s.takeWhile (· ≠ 47) :=
    List.prefix_of_prefix_length_le (List.take_prefix _ _) (List.takeWhile_prefix _)
      (by rw [List.length_take]; omega)
  refine ⟨s.take (k + 1), s.drop (k + 1), taken, (List.take_append_drop _ _).symm, ⟨?_, ?_⟩, ?_,
    htaken, rfl⟩
  · intro hempty
    have := congrArg List.length hempty
    rw [List.length_take, List.length_nil] at this
    omega
  · intro c hc
    have := List.mem_takeWhile_imp (hbegins.subset hc)
    simpa using this
  · by_contra hinside
    rw [match_opens hps hinside] at htaken
    cases htaken

/-- The names of the variables. -/
def variableNames : List Piece → List Str
  | [] => []
  | .char _ :: ps => variableNames ps
  | .variable_ name :: ps => name :: variableNames ps

/-- The values a template takes of those it is filled with. -/
def taken (values : Values) (ps : List Piece) : Values :=
  (variableNames ps).filterMap fun name => (values.lookup name).map ((name, ·))

theorem fill_atBreak {values : Values} {ps : List Piece} {t : Str} (hps : opens ps = true)
    (h : fill values ps = some t) : AtBreak t := by
  intro c hc
  cases ps with
  | nil =>
    obtain rfl : t = [] := (Option.some.inj h).symm
    cases hc
  | cons p ps =>
    cases p with
    | variable_ name => cases hps
    | char d =>
      obtain ⟨rest, -, rfl⟩ := fill_char_some h
      have hd : d = 47 := by simpa [opens] using hps
      obtain rfl : d = c := by simpa using hc
      exact hd

/-- **What was filled in is matched**, with the values it was filled with. -/
theorem match_fill {values : Values}
    (hvalues : ∀ name value, values.lookup name = some value → IsSegment value) :
    ∀ {ps : List Piece} {t : Str}, whole ps = true → fill values ps = some t →
      match_ ps t = some (taken values ps) := by
  intro ps
  induction ps with
  | nil =>
    intro t _ h
    obtain rfl : t = [] := (Option.some.inj h).symm
    rfl
  | cons p ps ih =>
    intro t hwhole h
    cases p with
    | char c =>
      obtain ⟨rest, hrest, rfl⟩ := fill_char_some h
      rw [match_, if_pos rfl, ih hwhole hrest]
      rfl
    | variable_ name =>
      obtain ⟨hopens, hwhole⟩ := Bool.and_eq_true_iff.1 hwhole
      obtain ⟨value, rest, hvalue, hrest, rfl⟩ := fill_variable_some h
      have hsegment := hvalues name value hvalue
      have hbreak := fill_atBreak hopens hrest
      rw [match_variable hopens hsegment hbreak, ih hwhole hrest]
      simp [taken, variableNames, hvalue]

/-- A character of what was filled in is one of the template, or of a value. -/
theorem fill_mem {values : Values} {c : ℕ} : ∀ {ps : List Piece} {t : Str},
    fill values ps = some t → c ∈ t →
      .char c ∈ ps ∨ ∃ name value, values.lookup name = some value ∧ c ∈ value := by
  intro ps
  induction ps with
  | nil =>
    intro t h hc
    obtain rfl : t = [] := (Option.some.inj h).symm
    cases hc
  | cons p ps ih =>
    intro t h hc
    cases p with
    | char d =>
      obtain ⟨rest, hrest, rfl⟩ := fill_char_some h
      rcases List.mem_cons.1 hc with rfl | hc
      · exact .inl List.mem_cons_self
      · exact (ih hrest hc).imp (List.mem_cons_of_mem _) id
    | variable_ name =>
      obtain ⟨value, rest, hvalue, hrest, rfl⟩ := fill_variable_some h
      rcases List.mem_append.1 hc with hc | hc
      · exact .inr ⟨name, value, hvalue, hc⟩
      · exact (ih hrest hc).imp (List.mem_cons_of_mem _) id

/-! ## Tables of templates -/

/-- Two templates that no target matches both: they part at a character, or at an end. -/
def apart : List Piece → List Piece → Bool
  | [], [] => false
  | [], _ :: _ => true
  | _ :: _, [] => true
  | .char c :: ps, .char d :: qs => c != d || apart ps qs
  | .variable_ _ :: ps, .variable_ _ :: qs => apart ps qs
  -- A variable may take the character, so these two are not told apart here.
  | .char _ :: _, .variable_ _ :: _ => false
  | .variable_ _ :: _, .char _ :: _ => false

theorem match_nil_left {ps : List Piece} {p : Piece} : match_ (p :: ps) [] = none := by
  cases p <;> rfl

theorem apart_match : ∀ {ps qs : List Piece} {s : Str} {values : Values}, whole ps = true →
    whole qs = true → apart ps qs = true → match_ ps s = some values → match_ qs s = none := by
  intro ps
  induction ps with
  | nil =>
    intro qs s values _ _ h hmatch
    have hs : s = [] := by
      by_contra hs
      rw [match_, if_neg hs] at hmatch
      cases hmatch
    subst hs
    cases qs with
    | nil => cases h
    | cons q qs => exact match_nil_left
  | cons p ps ih =>
    intro qs s values hps hqs h hmatch
    cases p with
    | char c =>
      obtain ⟨rest, rfl, hrest⟩ := match_char_some hmatch
      cases qs with
      | nil => rfl
      | cons q qs =>
        cases q with
        | variable_ name => cases h
        | char d =>
          -- Where they part, the target has followed the first; where not, they part behind it.
          by_cases hd : d = c
          · subst hd
            have hbehind : apart ps qs = true := by simpa [apart] using h
            rw [match_, if_pos rfl]
            exact ih hps hqs hbehind hrest
          · rw [match_, if_neg hd]
    | variable_ name =>
      obtain ⟨hopens, hps⟩ := Bool.and_eq_true_iff.1 hps
      obtain ⟨value, rest, taken, rfl, hvalue, hbreak, hrest, rfl⟩ :=
        match_variable_some hopens hmatch
      cases qs with
      | nil =>
        rw [match_, if_neg]
        intro hempty
        exact hvalue.1 (List.append_eq_nil_iff.1 hempty).1
      | cons q qs =>
        cases q with
        | char d => cases h
        | variable_ other =>
          -- Both take the one segment, so they part behind it.
          obtain ⟨hopens', hqs⟩ := Bool.and_eq_true_iff.1 hqs
          rw [match_variable hopens' hvalue hbreak, ih hps hqs h hrest]
          rfl

/-- The first template of a table that a target matches. -/
def firstMatch {α : Type} (table : List (List Piece × α)) (s : Str) : Option (α × Values) :=
  table.findSome? fun entry => (match_ entry.1 s).map ((entry.2, ·))

/-- Where the templates of a table are apart, the one that matches is the first. -/
theorem firstMatch_of_mem {α : Type} {s : Str} {entry : List Piece × α} {values : Values} :
    ∀ {table : List (List Piece × α)}, (∀ other ∈ table, whole other.1 = true) →
      table.Pairwise (fun a b => apart a.1 b.1 = true) → entry ∈ table →
      match_ entry.1 s = some values → firstMatch table s = some (entry.2, values) := by
  intro table
  induction table with
  | nil => intro _ _ hmem; cases hmem
  | cons head table ih =>
    intro hwhole hapart hmem hmatch
    obtain ⟨hhead, hapart⟩ := List.pairwise_cons.1 hapart
    have hrest : ∀ other ∈ table, whole other.1 = true :=
      fun other hother => hwhole other (List.mem_cons_of_mem _ hother)
    rw [firstMatch, List.findSome?_cons]
    rcases List.mem_cons.1 hmem with rfl | hmem
    · rw [hmatch]
      rfl
    · have hnone : match_ head.1 s = none := by
        cases hhit : match_ head.1 s with
        | none => rfl
        | some taken =>
          have := apart_match (hwhole head List.mem_cons_self) (hrest entry hmem)
            (hhead entry hmem) hhit
          rw [hmatch] at this
          cases this
      rw [hnone]
      exact ih hrest hapart hmem hmatch

end Template

end SayFirst.Py
