import SayFirst.Lib.Reference
import SayFirst.Lib.Running
import SayFirst.Proof.Agree
import SayFirst.Proof.EvidenceStore
import SayFirst.Spec.EvidenceReads

/-!
# Paging does not change the grades

A page is verified with the grades the verified prefix recorded, so what is in force for an entry
of the page is what is in force for it in the whole chain.

* `gradesOf_inForce` — the grades of a verdict, by what is in force.
* `pageOf_serves` — a page of an intact chain.
* `follow_split` — following `next_from` splits the chain.
* `paging_keeps_grades` — the law.
-/

namespace SayFirst.Plane

open Py Evidence

/-! ## What is in force -/

/-- The grade an entry declares for its connection. -/
def declaredGrade (e : EvidenceEntry) : Option Str :=
  if e.kind = lit "grade" then (Json.get e.body "grade").bind Json.str? else none

/-- The connection of every entry, and the grade in force for it behind the entries before. -/
abbrev inForce (before entries : List EvidenceEntry) : List (Str × Str) :=
  Running.inForce (·.connectionId) declaredGrade (lit "unverified") before entries

/-- The grades in force for the entries of one connection. -/
def forces (connection : Str) (before entries : List EvidenceEntry) : List Str :=
  Running.valuesOf connection (inForce before entries)

/-- The grade a connection was last given. -/
abbrev lastGrade (connection : Str) (entries : List EvidenceEntry) : Str :=
  Running.last (·.connectionId) declaredGrade (lit "unverified") connection entries

variable {connection grade : Str} {gradesBefore : List (Str × Str)}
  {before part entries : List EvidenceEntry} {e : EvidenceEntry}

theorem forces_snoc : forces connection before (entries ++ [e]) =
    forces connection before entries ++
      if e.connectionId = connection then [lastGrade e.connectionId (before ++ entries ++ [e])]
      else [] := by
  unfold forces inForce
  rw [Running.inForce_snoc, Running.valuesOf_append, Running.valuesOf_singleton]

theorem forces_append {rest : List EvidenceEntry} : forces connection before (part ++ rest) =
    forces connection before part ++ forces connection (before ++ part) rest := by
  unfold forces inForce
  rw [Running.inForce_append, Running.valuesOf_append]

/-! ## The grading of a verdict -/

/-- One turn of the loop of `_grades`, of an entry. -/
def gradeEntry (g : Grading) (e : EvidenceEntry) : Grading := g.take e.connectionId (declaredGrade e)

theorem gradesOf_eq (entries : List EvidenceEntry) (gradesBefore : List (Str × Str)) :
    gradesOf entries gradesBefore =
      (entries.foldl gradeEntry ⟨gradesBefore, []⟩).answer fun _ => false := rfl

/-- A grading behind a prefix knows what each connection was last given, and lists what was in force
at the entries it took. -/
structure Tells (before seen : List EvidenceEntry) (g : Grading) : Prop where
  current : ∀ connection, (g.current.lookup connection).getD (lit "unverified") =
    lastGrade connection (before ++ seen)
  once : (g.covered.map Prod.fst).Nodup
  covered : ∀ connection values, (connection, values) ∈ g.covered ↔
    values ≠ [] ∧ values = forces connection before seen

theorem Tells.start (h : ∀ connection, (gradesBefore.lookup connection).getD (lit "unverified") =
    lastGrade connection before) : Tells before [] ⟨gradesBefore, []⟩ where
  current connection := by
    rw [List.append_nil]
    exact h connection
  once := List.nodup_nil
  covered connection values := by
    refine iff_of_false List.not_mem_nil fun hvalues => hvalues.1 ?_
    rw [hvalues.2]
    rfl

/-- What is recorded of an entry is what its connection was last given. -/
theorem Tells.lookup {g : Grading} {seen : List EvidenceEntry} (h : Tells before seen g) :
    ((gradeEntry g e).current.lookup connection).getD (lit "unverified") =
      lastGrade connection (before ++ (seen ++ [e])) := by
  have hcurrent := h.current connection
  rw [← List.append_assoc, lastGrade, Running.last_snoc]
  unfold gradeEntry Grading.take
  cases declaredGrade e with
  | none =>
    rw [Option.getD_none, ite_self]
    exact hcurrent
  | some grade =>
    simp only [List.lookup_cons, Option.getD_some]
    by_cases hkey : e.connectionId = connection
    · rw [if_pos hkey, beq_iff_eq.2 hkey.symm]
      rfl
    · rw [if_neg hkey, beq_eq_false_iff_ne.2 fun h' => hkey h'.symm]
      exact hcurrent

/-- **One turn**: what is in force at the entry joins what was in force at its connection's
entries before. -/
theorem Tells.take {g : Grading} {seen : List EvidenceEntry} (h : Tells before seen g)
    (e : EvidenceEntry) : Tells before (seen ++ [e]) (gradeEntry g e) := by
  have hvalue := @Tells.lookup e.connectionId before e g seen h
  rw [← List.append_assoc] at hvalue
  set value := lastGrade e.connectionId (before ++ seen ++ [e])
  have hother : ∀ connection, e.connectionId ≠ connection →
      forces connection before (seen ++ [e]) = forces connection before seen := by
    intro connection hne
    rw [forces_snoc, if_neg hne, List.append_nil]
  have hmine : forces e.connectionId before (seen ++ [e]) =
      forces e.connectionId before seen ++ [value] := by
    rw [forces_snoc, if_pos rfl]
  have hcovered : (gradeEntry g e).covered =
      if g.covered.any (·.1 == e.connectionId) then
        g.covered.map fun c => if c.1 = e.connectionId then (c.1, c.2 ++ [value]) else c
      else g.covered ++ [(e.connectionId, [value])] := by
    rw [← hvalue]
    rfl
  have hany : g.covered.any (·.1 == e.connectionId) = true ↔
      forces e.connectionId before seen ≠ [] := by
    rw [List.any_eq_true]
    constructor
    · rintro ⟨⟨connection, values⟩, hmem, hkey⟩
      obtain rfl : connection = e.connectionId := by simpa using hkey
      obtain ⟨hne, rfl⟩ := (h.covered _ _).1 hmem
      exact hne
    · exact fun hne => ⟨_, (h.covered _ _).2 ⟨hne, rfl⟩, beq_self_eq_true _⟩
  refine ⟨fun connection => h.lookup, ?_, fun connection values => ?_⟩
  · rw [hcovered]
    split
    next hin =>
      have hkeys : (g.covered.map fun c =>
          if c.1 = e.connectionId then (c.1, c.2 ++ [value]) else c).map Prod.fst =
          g.covered.map Prod.fst := by
        rw [List.map_map]
        refine List.map_congr_left fun c _ => ?_
        simp only [Function.comp_apply]
        split <;> rfl
      rw [hkeys]
      exact h.once
    next hout =>
      rw [List.map_append, List.nodup_append]
      refine ⟨h.once, List.nodup_singleton _, fun a ha b hb heq => ?_⟩
      obtain ⟨⟨connection, values⟩, hmem, rfl⟩ := List.mem_map.1 ha
      obtain rfl : b = e.connectionId := by simpa using hb
      obtain ⟨hne, hvalues⟩ := (h.covered _ _).1 hmem
      refine hout (hany.2 ?_)
      obtain rfl : connection = e.connectionId := heq
      rw [← hvalues]
      exact hne
  · rw [hcovered]
    by_cases hkey : e.connectionId = connection
    · subst hkey
      rw [hmine]
      split
      next hin =>
        rw [List.mem_map]
        constructor
        · rintro ⟨⟨connection, values'⟩, hmem, heq⟩
          by_cases hc : connection = e.connectionId
          · rw [if_pos hc] at heq
            obtain ⟨-, hvalues⟩ := (h.covered _ _).1 hmem
            cases heq
            exact ⟨List.append_ne_nil_of_right_ne_nil _ (List.cons_ne_nil _ _), by rw [hvalues]⟩
          · rw [if_neg hc] at heq
            cases heq
            exact absurd rfl hc
        · rintro ⟨-, rfl⟩
          exact ⟨_, (h.covered _ _).2 ⟨hany.1 hin, rfl⟩, if_pos rfl⟩
      next hout =>
        have hnone : forces e.connectionId before seen = [] := not_not.1 fun hne => hout (hany.2 hne)
        rw [hnone, List.nil_append, List.mem_append, List.mem_singleton, h.covered, hnone]
        constructor
        · rintro (⟨hne, hnil⟩ | heq)
          · exact absurd hnil hne
          · cases heq
            exact ⟨List.cons_ne_nil _ _, rfl⟩
        · rintro ⟨-, rfl⟩
          exact .inr rfl
    · rw [hother connection hkey, ← h.covered]
      split
      next hin =>
        rw [List.mem_map]
        constructor
        · rintro ⟨⟨connection', values'⟩, hmem, heq⟩
          by_cases hc : connection' = e.connectionId
          · rw [if_pos hc] at heq
            cases heq
            exact absurd hc.symm hkey
          · rw [if_neg hc] at heq
            cases heq
            exact hmem
        · exact fun hmem => ⟨_, hmem, if_neg fun h' => hkey h'.symm⟩
      next hout =>
        rw [List.mem_append, List.mem_singleton]
        refine or_iff_left fun heq => ?_
        cases heq
        exact hkey rfl

theorem Tells.fold {g : Grading} {seen : List EvidenceEntry} (h : Tells before seen g) :
    Tells before (seen ++ entries) (entries.foldl gradeEntry g) := by
  induction entries generalizing g seen with
  | nil =>
    rw [List.append_nil]
    exact h
  | cons e rest ih =>
    have hrest := ih (h.take e)
    rw [List.append_assoc] at hrest
    exact hrest

/-! ## The weakest grade -/

theorem weakest_least : ∀ {values : List Str}, values ≠ [] →
    Running.Least gradeRank values (weakest values) := by
  intro values
  induction values with
  | nil => exact fun hne => absurd rfl hne
  | cons g rest ih =>
    intro _
    cases rest with
    | nil => exact ⟨List.mem_cons_self, fun g' hg' => by rw [List.mem_singleton.1 hg']; exact le_rfl⟩
    | cons g' rest =>
      obtain ⟨hmem, hle⟩ := ih (List.cons_ne_nil g' rest)
      unfold weakest
      split
      next hfirst =>
        refine ⟨List.mem_cons_self, fun value hvalue => ?_⟩
        obtain rfl | hvalue := List.mem_cons.1 hvalue
        · exact le_rfl
        · exact hfirst.trans (hle value hvalue)
      next hlater =>
        refine ⟨List.mem_cons_of_mem g hmem, fun value hvalue => ?_⟩
        obtain rfl | hvalue := List.mem_cons.1 hvalue
        · exact (not_le.1 hlater).le
        · exact hle value hvalue

/-- The grades there are. -/
def Known (grade : Str) : Prop :=
  grade = lit "unverified" ∨ grade = lit "observability" ∨ grade = lit "evidence"

/-- Grades of one rank are one. -/
theorem Known.unique {grade' : Str} (h : Known grade) (h' : Known grade')
    (hrank : gradeRank grade = gradeRank grade') : grade = grade' := by
  rcases h with rfl | rfl | rfl <;> rcases h' with rfl | rfl | rfl <;>
    first | rfl | exact absurd hrank (by decide)

/-- An entry declares a grade there is. -/
theorem declaredGrade_known (h : declaredGrade e = some grade) : Known grade := by
  unfold declaredGrade at h
  split at h
  next hkind =>
    obtain ⟨value, hvalue, hknown⟩ := SayFirst.validateGrade_ok ((SayFirst.admitted e).grade hkind)
    obtain ⟨t, ht, rfl⟩ := SayFirst.isOneOf_str hknown
    rw [hvalue] at h
    obtain rfl : lit t = grade := Option.some.inj h
    obtain rfl | rfl | rfl : t = "unverified" ∨ t = "observability" ∨ t = "evidence" := by
      simpa [Contract.grades] using ht
    · exact .inl rfl
    · exact .inr (.inl rfl)
    · exact .inr (.inr rfl)
  next hkind => cases h

theorem forces_known (hgrade : grade ∈ forces connection before part) : Known grade := by
  obtain ⟨x, hx, rfl⟩ := List.mem_map.1 hgrade
  exact Running.inForce_rule (.inl rfl) (fun e _ _ h => declaredGrade_known h) x
    (List.mem_filter.1 hx).1

/-- What a verified prefix carries forward: what each connection was last given in it. -/
theorem lookup_recordedGrades :
    ((ChainFile.recordedGrades before).lookup connection).getD (lit "unverified") =
      lastGrade connection before := by
  induction before using List.reverseRecOn with
  | nil => rfl
  | append_singleton before e ih =>
    unfold ChainFile.recordedGrades at ih ⊢
    rw [List.foldl_append, List.foldl_cons, List.foldl_nil, lastGrade, Running.last_snoc,
      declaredGrade]
    by_cases hkind : e.kind = lit "grade"
    · rw [if_pos hkind, if_pos hkind]
      cases (Json.get e.body "grade").bind Json.str? with
      | none =>
        rw [Option.getD_none, ite_self]
        exact ih
      | some grade =>
        simp only [List.lookup_cons, Option.getD_some]
        by_cases hkey : e.connectionId = connection
        · rw [if_pos hkey, beq_iff_eq.2 hkey.symm]
          rfl
        · rw [if_neg hkey, beq_eq_false_iff_ne.2 fun h' => hkey h'.symm]
          exact ih
    · rw [if_neg hkind, if_neg hkind, Option.getD_none, ite_self]
      exact ih

/-- **The grades of a verdict are the weakest in force**, connection by connection, where what was
carried in is what the prefix gave. -/
theorem mem_gradesOf (h : ∀ connection, (gradesBefore.lookup connection).getD (lit "unverified") =
    lastGrade connection before) : ⟨connection, grade⟩ ∈ gradesOf part gradesBefore ↔
      forces connection before part ≠ [] ∧ grade = weakest (forces connection before part) := by
  have htells : Tells before ([] ++ part) (part.foldl gradeEntry ⟨gradesBefore, []⟩) :=
    (Tells.start h).fold
  rw [List.nil_append] at htells
  rw [gradesOf_eq, Grading.answer, List.mem_map]
  constructor
  · rintro ⟨⟨connection', values⟩, hmem, heq⟩
    rw [List.mem_insertionSort] at hmem
    obtain ⟨hne, rfl⟩ := (htells.covered _ _).1 hmem
    cases heq
    exact ⟨hne, rfl⟩
  · rintro ⟨hne, rfl⟩
    exact ⟨_, List.mem_insertionSort _ |>.2 ((htells.covered _ _).2 ⟨hne, rfl⟩), rfl⟩

/-- Each connection is graded once. -/
theorem gradesOf_once (h : ∀ connection, (gradesBefore.lookup connection).getD (lit "unverified") =
    lastGrade connection before) : ((gradesOf part gradesBefore).map (·.connectionId)).Nodup := by
  have htells : Tells before ([] ++ part) (part.foldl gradeEntry ⟨gradesBefore, []⟩) :=
    (Tells.start h).fold
  rw [gradesOf_eq, Grading.answer, List.map_map]
  have hperm := (List.perm_insertionSort (fun a b : Str × List Str => Str.le a.1 b.1 = true)
    (part.foldl gradeEntry ⟨gradesBefore, []⟩).covered).map Prod.fst
  exact (hperm.nodup_iff).2 htells.once

/-! ## A page of an intact chain -/

variable {py : Interpreter} {scope : Str} {c : ChainFile scope} {rest : List EvidenceEntry}

/-- The entries of a chain, in their order. -/
abbrev entriesOf (c : ChainFile scope) : List EvidenceEntry := c.entries.map Subtype.val

theorem entriesOf_scope {e : EvidenceEntry} (h : e ∈ entriesOf c) : e.scope = scope := by
  obtain ⟨e', -, rfl⟩ := List.mem_map.1 h
  exact e'.2

/-- A verdict that is intact is of an unbroken chain. -/
theorem unbroken_of_verify {lo : ℤ} {hi : Option ℤ} {v : ChainVerdict}
    (h : verify py entries scope lo hi gradesBefore = .ok v) (hintact : v.condition = .intact) :
    Chain.Unbroken (entryView py) lo entries ∧ entries ≠ [] ∧ v = verdictOf entries scope lo gradesBefore
      (report (entryView py) (·.preimageVersion) entries .intact) := by
  unfold verify at h
  split at h
  · cases h
  split at h
  · cases h
  split at h
  · cases h
  split at h
  · cases h
  split at h
  · cases h
  next hordered =>
    have hrise : Chain.Rising (entryView py) entries :=
      Contract.outOfOrder_false.1 (Bool.not_eq_true _ ▸ hordered)
    cases h
    cases hscan : Chain.scan (entryView py) lo hi entries with
    | intact =>
      obtain ⟨hunbroken, hne⟩ := Chain.unbroken_of_scan hrise hscan
      exact ⟨hunbroken, hne, rfl⟩
    | _ =>
      rw [hscan] at hintact
      cases hintact

theorem readRange_between {lo hi : ℤ} (h : Chain.Unbroken (entryView py) 1 (entriesOf c))
    (hc : entriesOf c = before ++ (part ++ rest)) (hlo : lo = 1 + before.length)
    (hhi : hi = before.length + part.length) : c.readRange lo (some hi) = part := by
  rw [hc] at h
  have hfilter := @Chain.Unbroken.filter_between _ _ 1 before part rest h hi (by omega)
  unfold ChainFile.readRange
  rw [show c.entries.map Subtype.val = _ from hc, hlo]
  exact hfilter

theorem latestSequence_eq (h : Chain.Unbroken (entryView py) 1 (entriesOf c))
    (hne : entriesOf c ≠ []) : c.latestSequence = some ((entriesOf c).length : ℤ) := by
  have he := List.getLast?_eq_some_getLast hne
  have hlast : ((entriesOf c).getLast hne).sequence = 1 + (entriesOf c).length - 1 := h.getLast he
  unfold ChainFile.latestSequence ChainFile.lastEntry
  rw [← List.getLast?_map, he, Option.map_some, hlast]
  congr 1
  omega

/-- **A prefix of an intact chain carries forward what each connection was last given in it.** -/
theorem gradesBefore_intact (h : Chain.Unbroken (entryView py) 1 (entriesOf c))
    (hc : entriesOf c = before ++ rest) : ∃ grades,
      c.gradesBefore py (1 + before.length) = .ok grades ∧
      ∀ connection, (grades.lookup connection).getD (lit "unverified") =
        lastGrade connection before := by
  unfold ChainFile.gradesBefore
  by_cases hbefore : before = []
  · subst hbefore
    exact ⟨[], rfl, fun _ => rfl⟩
  · have hlength := List.length_pos_of_ne_nil hbefore
    rw [if_neg (by omega)]
    have hread : c.readRange 1 (some (1 + before.length - 1)) = before :=
      @readRange_between [] _ _ _ _ _ _ _ h hc rfl (by simp)
    have hscope : ∀ e ∈ before, e.scope = scope := fun e he =>
      @entriesOf_scope _ c e (hc ▸ List.mem_append_left rest he)
    have hverify : verify py before scope 1 (some (1 + before.length - 1)) [] = .ok _ :=
      verify_unbroken (hc ▸ h).left hbefore le_rfl hscope (fun t ht => (Option.some.inj ht).symm) []
    refine ⟨ChainFile.recordedGrades before, ?_, fun connection => lookup_recordedGrades⟩
    simp only [hread, hverify, bind, Except.bind]
    rfl

/-- What a page of an intact chain serves: the entries of its part of the chain, with the weakest
grade in force over each connection's entries of it. -/
structure Serves (before part : List EvidenceEntry) (page : EvidencePage) : Prop where
  documents : part.mapM (fun e => entryToDocument e.toEntryFields) = some page.entries
  intact : page.verification.condition = .intact
  begins : page.fromSequence = 1 + before.length
  ends : page.toSequence = some (before.length + part.length : ℤ)
  once : (page.verification.grades.map (·.connectionId)).Nodup
  grades : ∀ connection grade, ⟨connection, grade⟩ ∈ page.verification.grades ↔
    forces connection before part ≠ [] ∧ grade = weakest (forces connection before part)

theorem document_of_sound {e : EvidenceEntry} (h : Chain.Sound (entryView py) e) :
    ∃ document, entryToDocument e.toEntryFields = some document := by
  have hrecomputed : entryHashOf py e.toEntryFields = some e.entryHash := h.2
  unfold entryHashOf preimage at hrecomputed
  unfold entryToDocument
  cases hinstant : renderInstant e.recordedAt with
  | none =>
    rw [hinstant] at hrecomputed
    cases hrecomputed
  | some text => exact ⟨_, rfl⟩

theorem documents_of_sound (h : ∀ e ∈ part, Chain.Sound (entryView py) e) :
    ∃ documents, part.mapM (fun e => entryToDocument e.toEntryFields) = some documents := by
  induction part with
  | nil => exact ⟨[], rfl⟩
  | cons e rest ih =>
    obtain ⟨document, hdocument⟩ := document_of_sound (h e List.mem_cons_self)
    obtain ⟨documents, hdocuments⟩ := ih fun e' he' => h e' (List.mem_cons_of_mem e he')
    exact ⟨document :: documents, by simp [List.mapM_cons, hdocument, hdocuments]⟩

variable {reads : EvidenceReads} {size : ℤ}

/-- **A page of an intact chain** serves the entries from its first one on, as many as it was asked
for, and says where the next page begins. -/
theorem pageOf_serves (h : Chain.Unbroken (entryView reads.py) 1 (entriesOf c))
    (hc : entriesOf c = before ++ rest) (hrest : rest ≠ []) (hsize : 1 ≤ size) :
    ∃ part rest' page, rest = part ++ rest' ∧ part ≠ [] ∧
      reads.pageOf c (1 + before.length) size = .ok page ∧ Serves before part page ∧
      page.nextFrom = if rest' = [] then none else some (1 + (before ++ part).length : ℤ) := by
  obtain ⟨n, rfl⟩ : ∃ n : ℕ, size = n := ⟨size.toNat, by omega⟩
  have hn : 1 ≤ n := by exact_mod_cast hsize
  have hpos := List.length_pos_of_ne_nil hrest
  have hsplit : rest = rest.take n ++ rest.drop n := (List.take_append_drop n rest).symm
  have hpart : rest.take n ≠ [] := fun hnil => by
    have := congrArg List.length hnil
    rw [List.length_take, List.length_nil] at this
    omega
  have hlength : (rest.take n).length = min n rest.length := List.length_take
  have hdropped : rest.drop n = [] ↔ rest.length ≤ n := List.drop_eq_nil_iff
  have hhead : c.latestSequence = some (before.length + rest.length : ℤ) := by
    rw [latestSequence_eq h (by rw [hc]; exact List.append_ne_nil_of_right_ne_nil _ hrest), hc,
      List.length_append]
    rfl
  -- the page ends where its part does
  have hend : EvidenceReads.pageEnd c.latestSequence (1 + before.length) n =
      some ((before.length + (rest.take n).length : ℤ),
        if rest.drop n = [] then none else some (1 + (before ++ rest.take n).length : ℤ)) := by
    rw [hhead]
    unfold EvidenceReads.pageEnd
    simp only
    rw [if_neg (by omega)]
    have hmin : min (before.length + rest.length : ℤ) (1 + before.length + n - 1) =
        before.length + (rest.take n).length := by
      rw [hlength]
      omega
    rw [hmin]
    by_cases hover : rest.drop n = []
    · have := hdropped.1 hover
      rw [if_pos hover, if_neg (by rw [hlength]; omega)]
    · have : ¬ rest.length ≤ n := fun hle => hover (hdropped.2 hle)
      rw [if_neg hover, if_pos (by rw [hlength]; omega), List.length_append]
      push_cast
      rw [add_comm 1]
  have hc' : entriesOf c = before ++ (rest.take n ++ rest.drop n) := by rw [← hsplit, hc]
  have hread : c.readRange (1 + before.length) (some (before.length + (rest.take n).length : ℤ)) =
      rest.take n := readRange_between h hc' rfl rfl
  obtain ⟨grades, hgrades, hlookup⟩ := gradesBefore_intact h hc
  have hstretch : Chain.Unbroken (entryView reads.py) (1 + before.length) (rest.take n) :=
    (hc' ▸ h).right.left
  have hscope : ∀ e ∈ rest.take n, e.scope = scope := fun e he =>
    @entriesOf_scope _ c e (hc ▸ List.mem_append_right _ (List.mem_of_mem_take he))
  set verdict := verdictOf (rest.take n) scope (1 + before.length) grades
    (report (entryView reads.py) (·.preimageVersion) (rest.take n) .intact)
  have hverify : verify reads.py (rest.take n) scope (1 + before.length)
      (some (before.length + (rest.take n).length : ℤ)) grades = .ok verdict :=
    verify_unbroken hstretch hpart (by omega) hscope
      (fun t ht => by rw [← Option.some.inj ht]; omega) grades
  have hlast : verdict.toSequence = some (before.length + (rest.take n).length : ℤ) := by
    have he := List.getLast?_eq_some_getLast hpart
    have hsequence : ((rest.take n).getLast hpart).sequence =
      1 + before.length + (rest.take n).length - 1 := hstretch.getLast he
    change (rest.take n).getLast?.map (·.sequence) = _
    rw [he, Option.map_some, hsequence]
    congr 1
    omega
  obtain ⟨documents, hdocuments⟩ := documents_of_sound hstretch.sound
  refine ⟨rest.take n, rest.drop n, ⟨scope, 1 + before.length, verdict.toSequence, documents, verdict,
    if rest.drop n = [] then none else some (1 + (before ++ rest.take n).length : ℤ)⟩, hsplit, hpart,
    ?_, ⟨hdocuments, rfl, rfl, hlast, gradesOf_once hlookup,
      fun connection grade => mem_gradesOf hlookup⟩, rfl⟩
  unfold EvidenceReads.pageOf
  simp only [hend, hread, hgrades, EvidenceReads.stored, bind, Except.bind, Option.map_some,
    hverify, EvidenceReads.raised, hdocuments, EvidenceReads.rendered, Option.bind_some]
  rfl

/-! ## Following `next_from` -/

/-- A reader that follows `next_from`, with the page size it likes at each sequence: the pages it was
answered, and where it would go on. -/
def EvidenceReads.follow (reads : EvidenceReads) (store : (scope : Str) → ChainFile scope)
    (scope : Str) (pageSize : ℤ → ℤ) : ℕ → ℤ → Except ReadsError (List EvidencePage × Option ℤ)
  | 0, fromSequence => .ok ([], some fromSequence)
  | turns + 1, fromSequence => do
    let page ← reads.readPage store true (some scope) fromSequence (pageSize fromSequence)
    match page.nextFrom with
    | none => return ([page], none)
    | some next =>
      let (pages, goesOn) ← reads.follow store scope pageSize turns next
      return (page :: pages, goesOn)

/-- The pages are of consecutive parts of the chain, one behind the other. -/
def Split : List EvidenceEntry → List EvidencePage → List EvidenceEntry → Prop
  | _, [], rest => rest = []
  | before, page :: pages, rest => ∃ part rest', rest = part ++ rest' ∧ part ≠ [] ∧
      Serves before part page ∧ Split (before ++ part) pages rest'

variable {store : (scope : Str) → ChainFile scope} {pageSize : ℤ → ℤ}

theorem follow_split (h : Chain.Unbroken (entryView reads.py) 1 (entriesOf (store scope)))
    (hscope : EvidenceReads.readScope (some scope) = .ok scope)
    (hsize : ∀ s, 1 ≤ pageSize s ∧ pageSize s ≤ pageBound) :
    ∀ (turns : ℕ) (before rest : List EvidenceEntry), entriesOf (store scope) = before ++ rest →
      rest ≠ [] → rest.length ≤ turns → ∃ pages,
        (∀ more ≥ turns, reads.follow store scope pageSize more (1 + before.length) =
          .ok (pages, none)) ∧ Split before pages rest := by
  intro turns
  induction turns with
  | zero =>
    intro before rest _ hne hlength
    exact absurd (List.length_eq_zero_iff.1 (Nat.le_zero.1 hlength)) hne
  | succ turns ih =>
    intro before rest hc hne hlength
    obtain ⟨part, rest', page, rfl, hpart, hpage, hserves, hnext⟩ :=
      pageOf_serves h hc hne (hsize (1 + before.length)).1
    have hread : reads.readPage store true (some scope) (1 + before.length)
        (pageSize (1 + before.length)) = .ok page := by
      have hbound := hsize (1 + before.length)
      unfold EvidenceReads.readPage
      simp only [hscope, bind, Except.bind]
      rw [if_neg (by simp [hbound.1, hbound.2]), hpage]
      rfl
    by_cases hover : rest' = []
    · refine ⟨[page], fun more hmore => ?_, part, rest', rfl, hpart, hserves, hover⟩
      obtain ⟨more, rfl⟩ : ∃ m, more = m + 1 := ⟨more - 1, by omega⟩
      rw [if_pos hover] at hnext
      simp only [EvidenceReads.follow, hread, hnext, bind, Except.bind]
      rfl
    · have hshorter : rest'.length ≤ turns := by
        have := List.length_pos_of_ne_nil hpart
        rw [List.length_append] at hlength
        omega
      obtain ⟨pages, hpages, hsplit⟩ := ih (before ++ part) rest' (by rw [hc, List.append_assoc]) hover
        hshorter
      refine ⟨page :: pages, fun more hmore => ?_, part, rest', rfl, hpart, hserves, hsplit⟩
      obtain ⟨more, rfl⟩ : ∃ m, more = m + 1 := ⟨more - 1, by omega⟩
      rw [if_neg hover] at hnext
      simp only [EvidenceReads.follow, hread, hnext, bind, Except.bind, hpages more (by omega)]
      rfl

/-! ## The law -/

theorem least_iff_weakest {values : List Str} (hknown : ∀ value ∈ values, Known value) :
    Running.Least gradeRank values grade ↔ values ≠ [] ∧ grade = weakest values := by
  constructor
  · intro h
    have hne := List.ne_nil_of_mem h.mem
    exact ⟨hne, h.unique (fun a ha b hb => (hknown a ha).unique (hknown b hb)) (weakest_least hne)⟩
  · rintro ⟨hne, rfl⟩
    exact weakest_least hne

/-- What is in force over a split chain is what is in force over its parts, and each page reports
the least of its part. -/
theorem Split.parts {pages : List EvidencePage} : ∀ {before rest : List EvidenceEntry},
    Split before pages rest → ∃ parts : List (List Str),
      forces connection before rest = parts.flatten ∧
      List.Forall₂ (fun page part => ∀ grade, ⟨connection, grade⟩ ∈ page.verification.grades ↔
        Running.Least gradeRank part grade) pages parts := by
  induction pages with
  | nil =>
    rintro before _ rfl
    exact ⟨[], rfl, .nil⟩
  | cons page pages ih =>
    rintro before _ ⟨part, rest', rfl, -, hserves, hsplit⟩
    obtain ⟨parts, hforces, hpages⟩ := ih hsplit
    refine ⟨forces connection before part :: parts, ?_, .cons (fun grade => ?_) hpages⟩
    · rw [forces_append, hforces]
      rfl
    · rw [hserves.grades, least_iff_weakest fun value hvalue => forces_known hvalue]

/-- **The grade over a split chain is the weakest of the pages' grades.** -/
theorem Split.weakest {pages : List EvidencePage} (h : Split before pages rest) :
    Running.Least gradeRank (forces connection before rest) grade ↔
      (∃ page ∈ pages, ⟨connection, grade⟩ ∈ page.verification.grades) ∧
        ∀ page ∈ pages, ∀ grade', ⟨connection, grade'⟩ ∈ page.verification.grades →
          gradeRank grade ≤ gradeRank grade' := by
  obtain ⟨parts, hforces, hpages⟩ := @Split.parts connection pages before rest h
  have hknown : ∀ part ∈ parts, ∀ value ∈ part, Known value := fun part hpart value hvalue =>
    forces_known (hforces ▸ List.mem_flatten.2 ⟨part, hpart, hvalue⟩)
  rw [hforces, Running.least_flatten fun part hpart hne => ⟨_, weakest_least hne⟩]
  clear hforces hknown h
  have hex : (∃ part ∈ parts, Running.Least gradeRank part grade) ↔
      ∃ page ∈ pages, ⟨connection, grade⟩ ∈ page.verification.grades := by
    induction hpages with
    | nil => simp
    | cons hpage _ ih => simp only [List.mem_cons, exists_eq_or_imp, hpage, ih]
  have hall : (∀ part ∈ parts, ∀ least, Running.Least gradeRank part least →
      gradeRank grade ≤ gradeRank least) ↔ ∀ page ∈ pages, ∀ grade',
        ⟨connection, grade'⟩ ∈ page.verification.grades → gradeRank grade ≤ gradeRank grade' := by
    clear hex
    induction hpages with
    | nil => simp
    | cons hpage _ ih => simp only [List.mem_cons, forall_eq_or_imp, hpage, ih]
  rw [hex, hall]

/-- A prefix that does not verify as intact carries nothing. -/
theorem gradesBefore_damaged {fromSequence : ℤ} {grades : List (Str × Str)}
    (h : c.gradesBefore py fromSequence = .ok grades) (hfrom : fromSequence ≠ 1)
    (hdamaged : ∀ told, verify py (c.readRange 1 (some (fromSequence - 1))) scope 1
      (some (fromSequence - 1)) [] = .ok told → told.condition ≠ .intact) : grades = [] := by
  unfold ChainFile.gradesBefore at h
  rw [if_neg hfrom] at h
  obtain ⟨told, htold, h⟩ := bind_ok_iff.1 h
  rw [if_neg (hdamaged told htold)] at h
  cases h
  rfl

/-- **A prefix that does not verify carries no grade forward**: what is read behind it is verified
with nothing carried in. -/
theorem readPage_damaged {ready : Bool} {fromSequence : ℤ} {page : EvidencePage}
    (h : reads.readPage store ready (some scope) fromSequence size = .ok page)
    (hfrom : fromSequence ≠ 1) (hdamaged : ∀ told, verify reads.py
      ((store scope).readRange 1 (some (fromSequence - 1))) scope 1 (some (fromSequence - 1)) [] =
        .ok told → told.condition ≠ .intact) :
    ∃ entries hi, verify reads.py entries scope fromSequence hi [] = .ok page.verification := by
  unfold EvidenceReads.readPage at h
  obtain ⟨actual, hactual, h⟩ := bind_ok_iff.1 h
  obtain rfl : scope = actual := by
    unfold EvidenceReads.readScope at hactual
    split at hactual
    · cases hactual
    · cases hactual
    next _ heq =>
      split at hactual
      · cases heq
        cases hactual
        rfl
      · cases hactual
  split at h
  · cases h
  split at h
  · cases h
  unfold EvidenceReads.pageOf at h
  obtain ⟨grades, hgrades, h⟩ := bind_ok_iff.1 h
  obtain ⟨verdict, hverdict, h⟩ := bind_ok_iff.1 h
  obtain ⟨documents, -, h⟩ := bind_ok_iff.1 h
  cases h
  have hcarried : grades = [] := by
    unfold EvidenceReads.stored at hgrades
    split at hgrades
    next grades' hgrades' =>
      cases hgrades
      exact gradesBefore_damaged hgrades' hfrom hdamaged
    next e he => cases hgrades
  subst hcarried
  unfold EvidenceReads.raised at hverdict
  split at hverdict
  next verdict' hverdict' =>
    cases hverdict
    exact ⟨_, _, hverdict'⟩
  next e he => cases hverdict

/-- The grade of the daemon, behind `sampleEntry`. -/
def sampleGrade : EvidenceEntry where
  scope := lit "local"
  kind := lit "grade"
  recordedAt := ⟨some ⟨2026, 1, 5, 10, 0, 0, Civil.sample.held⟩⟩
  connectionId := lit "daemon"
  principal := .mk (lit "service") (lit "daemon") []
  body := [(lit "grade", .str (lit "observability")), (lit "basis", .str (lit "caller_can_write")),
    (lit "evaluated_at", .str (lit "t")), (lit "paths_inspected", .int 1)]
  sequence := 2
  previousHash := some sampleEntry.entryHash
  entryHash := lit "75be340de038d566bfae69d7f6e559f3ee3b24a8c6971a427e36d18a77f6c385"
  preimageVersion := Evidence.preimageVersion
  held := by decide +kernel

/-- A store that holds the two in one scope. -/
def sampleStore (scope : Str) : ChainFile scope where
  entries := [sampleEntry, sampleGrade].filterMap fun e =>
    if h : e.scope = scope then some ⟨e, h⟩ else none
  torn := false

end SayFirst.Plane
