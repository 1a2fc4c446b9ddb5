import SayFirst.Spec.PublishedSchema

/-!
# The checker and the published grammar

* `refuse_judged` — what the checker answers, in terms of the schema with `$` as
  `re.search` reads it.
* `refusedBy_decides` — the checker decides the published schema exactly on the
  documents in which it meets no value Python cannot hold and accepts no text
  for the newline behind it.
-/

namespace SayFirst.Plane

open Py JsonSchema

/-- The published schema: `$` matches at the end only, and the byte bounds hold. -/
def published : Reading := ⟨fun p s => p.body.fullmatch s, true⟩

/-- JSON Schema 2020-12 alone, to which a byte bound is an annotation. -/
def generic : Reading := ⟨fun p s => p.body.fullmatch s, false⟩

/-- The schema with `$` as `re.search` reads it. -/
def searched : Reading := ⟨search, true⟩

variable {levels : ℕ} {schema : Schema} {at_ : Str}

mutual

/-- The check comes to a value it cannot read before it refuses anything: an integer
beyond the floats where an integer is published, or an item nested too deep. -/
def stops (levels : ℕ) (schema : Schema) : Json → Bool
  | .int n => schema.type.any (·.contains .integer) && !floatable n
  | .arr items =>
    meets searched schema (.arr items) &&
      (items.any (nesting · > levels) ||
        match schema.items with
        | none => false
        | some item => stopsItems levels item items)
  | .obj members =>
    meets searched schema (.obj members) && stopsMembers levels schema.properties members
  | .null => false
  | .bool _ => false
  | .float _ => false
  | .str _ => false

def stopsItems (levels : ℕ) (item : Schema) : List Json → Bool
  | [] => false
  | value :: rest =>
    stops levels item value || (valid searched item value && stopsItems levels item rest)

def stopsMembers (levels : ℕ) (properties : List (Str × Schema)) : List (Str × Json) → Bool
  | [] => false
  | (name, value) :: rest =>
    match properties.lookup name with
    | none => stopsMembers levels properties rest
    | some schema =>
      stops levels schema value ||
        (valid searched schema value && stopsMembers levels properties rest)

end

/-- What an answer says of a document: the check stopped, accepted or refused. -/
def Judged (stopped accepted : Bool) : Except Raised (Option Str) → Prop
  | .error _ => stopped = true
  | .ok none => stopped = false ∧ accepted = true
  | .ok (some _) => stopped = false ∧ accepted = false

/-! ## The keywords, one by one -/

theorem matchesType_int (n : ℤ) (names : List TypeName) :
    matchesType (.int n) names =
      if names.contains .integer then
        if floatable n then .ok true else .error .overflowError
      else .ok false := by
  induction names with
  | nil => rfl
  | cons name rest ih =>
    by_cases h : name = .integer
    · subst h
      rw [List.contains_cons, beq_self_eq_true, Bool.true_or, if_pos rfl, matchesType]
    · have hname : (TypeName.integer == name) = false := beq_eq_false_iff_ne.2 (Ne.symm h)
      rw [List.contains_cons, hname, Bool.false_or, ← ih]
      cases name with
      | integer => exact absurd rfl h
      | _ => rfl

theorem matchesType_cons {value : Json} (h : ∀ n, value ≠ .int n) (name : TypeName)
    (rest : List TypeName) : matchesType value (name :: rest) =
      if hasType name value then .ok true else matchesType value rest := by
  cases value with
  | int n => exact absurd rfl (h n)
  | _ => cases name <;> rfl

/-- Of anything but an `int`, the types are read as published. -/
theorem matchesType_of_not_int {value : Json} (h : ∀ n, value ≠ .int n) (names : List TypeName) :
    matchesType value names = .ok (names.any (hasType · value)) := by
  induction names with
  | nil => rfl
  | cons name rest ih =>
    rw [matchesType_cons h, ih, List.any_cons]
    cases hasType name value <;> rfl

theorem declared_of_not_int {value : Json} (h : ∀ n, value ≠ .int n) :
    schema.type.elim (.ok true) (matchesType value) =
      .ok (schema.type.all (·.any (hasType · value))) := by
  cases schema.type with
  | none => rfl
  | some names => exact matchesType_of_not_int h names

theorem hasType_int_any (n : ℤ) (names : List TypeName) :
    names.any (hasType · (.int n)) = names.contains .integer := by
  induction names with
  | nil => rfl
  | cons name rest ih => cases name <;> simp only [List.any_cons, ih] <;> rfl

theorem declared_int_stop {n : ℤ}
    (h : (schema.type.any (·.contains .integer) && !floatable n) = true) :
    schema.type.elim (.ok true) (matchesType (.int n)) = .error .overflowError := by
  rw [Bool.and_eq_true, Bool.not_eq_true'] at h
  cases htype : schema.type with
  | none => rw [htype] at h; cases h.1
  | some names =>
    rw [htype] at h
    have hmem : names.contains .integer = true := h.1
    rw [Option.elim_some, matchesType_int, if_pos hmem, if_neg (Bool.eq_false_iff.1 h.2)]

theorem declared_int {n : ℤ}
    (h : ¬ (schema.type.any (·.contains .integer) && !floatable n) = true) :
    schema.type.elim (.ok true) (matchesType (.int n)) =
      .ok (schema.type.all (·.any (hasType · (.int n)))) := by
  cases htype : schema.type with
  | none => rfl
  | some names =>
    rw [Option.elim_some, Option.all_some, matchesType_int, hasType_int_any]
    cases hmem : names.contains .integer with
    | false => rfl
    | true =>
      have hfloat : floatable n = true := by
        rw [htype, Option.any_some, hmem, Bool.true_and, Bool.not_eq_true', Bool.not_eq_false] at h
        exact h
      rw [if_pos rfl, if_pos hfloat]

theorem isNone_ite {c : Prop} [Decidable c] {complaint : Str} {rest : Option Str} :
    (if c then some complaint else rest).isNone = (!decide c && rest.isNone) := by
  by_cases h : c
  · rw [if_pos h, decide_eq_true h]
    rfl
  · rw [if_neg h, decide_eq_false h]
    rfl

theorem all_le_eq {bound : Option ℕ} (n : ℕ) :
    bound.all (· ≤ n) = !decide (bound.any (n < ·) = true) := by
  cases bound with
  | none => rfl
  | some k => simp only [Option.all_some, Option.any_some, decide_eq_true_eq, ← decide_not, not_lt]

theorem all_ge_eq {bound : Option ℕ} (n : ℕ) :
    bound.all (n ≤ ·) = !decide (bound.any (n > ·) = true) := by
  cases bound with
  | none => rfl
  | some k =>
    simp only [Option.all_some, Option.any_some, decide_eq_true_eq, ← decide_not, gt_iff_lt, not_lt]

theorem refuseEnum_isNone (value : Json) :
    (refuseEnum schema at_ value).isNone = schema.enum.all (·.any (isText value)) := by
  unfold refuseEnum
  cases schema.enum with
  | none => rfl
  | some allowed =>
    simp only [Option.all_some]
    cases allowed.any (isText value) <;> rfl

theorem refuseBytes_isNone (s : Str) :
    (refuseBytes schema at_ s).isNone = schema.maxBytes.all (withinBytes · s) := by
  unfold refuseBytes
  cases schema.maxBytes with
  | none => rfl
  | some largest =>
    simp only [Option.all_some, withinBytes]
    cases utf8 s with
    | none => rfl
    | some encoded =>
      simp only [isNone_ite, Option.isNone_none, Bool.and_true, ← decide_not, gt_iff_lt, not_lt]

theorem refuseString_isNone (s : Str) :
    (refuseString schema at_ s).isNone = meetsString searched schema s := by
  have hpattern : schema.pattern.all (searched.search · s) =
      !decide (schema.pattern.any (!search · s) = true) := by
    cases schema.pattern with
    | none => rfl
    | some p =>
      change search p s = !decide ((!search p s) = true)
      cases search p s <;> rfl
  unfold refuseString meetsString
  rw [isNone_ite, isNone_ite, isNone_ite, refuseBytes_isNone, all_le_eq, all_ge_eq, hpattern]
  simp only [Bool.and_assoc]
  rfl

theorem refuseNumber_isNone (below : ℤ → Bool) :
    (refuseNumber schema at_ below).isNone = schema.minimum.all (!below ·) := by
  unfold refuseNumber
  rw [isNone_ite]
  cases schema.minimum with
  | none => rfl
  | some bound =>
    change (!decide (below bound = true) && true) = !below bound
    cases below bound <;> rfl

theorem refuseCount_isNone (items : List Json) :
    (refuseCount schema at_ items).isNone = meetsItems schema items := by
  unfold refuseCount meetsItems
  rw [isNone_ite, isNone_ite, all_le_eq, all_ge_eq, Option.isNone_none, Bool.and_true]

theorem refuseNames_isNone (members : List (Str × Json)) :
    (refuseNames schema at_ members).isNone = meetsNames schema members := by
  unfold refuseNames meetsNames
  cases hrequired : schema.required.find? fun name => (members.lookup name).isNone with
  | some name =>
    have hmissing := List.find?_some hrequired
    have hall : schema.required.all (fun name => (members.lookup name).isSome) = false := by
      rw [List.all_eq_false]
      refine ⟨name, List.mem_of_find?_eq_some hrequired, ?_⟩
      rw [Option.isNone_iff_eq_none.1 hmissing]
      exact Bool.false_ne_true
    rw [hall]
    rfl
  | none =>
    have hall : schema.required.all (fun name => (members.lookup name).isSome) = true := by
      rw [List.all_eq_true]
      intro name hmem
      have := List.find?_eq_none.1 hrequired name hmem
      cases hl : members.lookup name with
      | none => exact absurd (by rw [hl]; rfl) this
      | some _ => rfl
    rw [hall, Bool.true_and]
    cases schema.additionalProperties with
    | true => rfl
    | false =>
      simp only [Bool.false_eq_true, if_false, Bool.false_or]
      cases hextra : members.find? fun m => (schema.properties.lookup m.1).isNone with
      | some m =>
        have hunknown := List.find?_some hextra
        symm
        rw [Option.isNone_some, List.all_eq_false]
        refine ⟨m, List.mem_of_find?_eq_some hextra, ?_⟩
        rw [Option.isNone_iff_eq_none.1 hunknown]
        exact Bool.false_ne_true
      | none =>
        symm
        rw [Option.isNone_none, List.all_eq_true]
        intro m hmem
        have := List.find?_eq_none.1 hextra m hmem
        cases hl : schema.properties.lookup m.1 with
        | none => exact absurd (by rw [hl]; rfl) this
        | some _ => rfl

/-! ## The recursion -/

theorem judged_local {complaint : Option Str} {accepted : Bool}
    (h : complaint.isNone = accepted) : Judged false accepted (.ok complaint) := by
  cases complaint with
  | none => exact ⟨rfl, h.symm⟩
  | some _ => exact ⟨rfl, h.symm⟩

/-- The type and the `enum` come first; what is left is judged by the rest. -/
theorem judged_keywords {value : Json} {declared stopped accepted : Bool}
    {rest : Except Raised (Option Str)}
    (htype : schema.type.elim (.ok true) (matchesType value) = .ok declared)
    (hrest : Judged stopped accepted rest) :
    Judged (declared && (refuseEnum schema at_ value).isNone && stopped)
      (declared && (refuseEnum schema at_ value).isNone && accepted)
      (match schema.type.elim (.ok true) (matchesType value) with
        | .error e => .error e
        | .ok false =>
          .ok (some (at_ ++ lit " is not of type " ++ typeNames (schema.type.getD [])))
        | .ok true =>
          match refuseEnum schema at_ value with
          | some complaint => .ok (some complaint)
          | none => rest) := by
  rw [htype]
  cases declared with
  | false => exact ⟨rfl, rfl⟩
  | true =>
    cases refuseEnum schema at_ value with
    | some complaint => exact ⟨rfl, rfl⟩
    | none => exact hrest

theorem judged_of {stopped stopped' accepted accepted' : Bool}
    {answer : Except Raised (Option Str)} (h : Judged stopped accepted answer)
    (hstopped : stopped = stopped') (haccepted : accepted = accepted') :
    Judged stopped' accepted' answer := by
  subst hstopped haccepted
  exact h

mutual

/-- **What the checker answers**: it stops where `stops` says so, and otherwise accepts
exactly what is valid with `$` as `re.search` reads it. -/
theorem refuse_judged : ∀ (value : Json) (schema : Schema) (at_ : Str),
    Judged (stops levels schema value) (valid searched schema value)
      (refuse levels schema value at_)
  | .int n, schema, at_ => by
    rw [refuse]
    by_cases hstop : (schema.type.any (·.contains .integer) && !floatable n) = true
    · rw [declared_int_stop hstop, stops, hstop]
      rfl
    · exact judged_of (judged_keywords (declared_int hstop) (judged_local (refuseNumber_isNone _)))
        (by rw [Bool.and_false, stops, Bool.eq_false_iff.2 hstop]) (by
          rw [valid, meets, refuseEnum_isNone]
          simp only [← Int.not_lt, decide_not])
  | .float f, schema, at_ => by
    rw [refuse]
    exact judged_of (judged_keywords (declared_of_not_int fun _ h => by cases h)
      (judged_local (refuseNumber_isNone _))) (by rw [Bool.and_false]; rfl) (by
        rw [valid, meets, refuseEnum_isNone])
  | .str s, schema, at_ => by
    rw [refuse]
    exact judged_of (judged_keywords (declared_of_not_int fun _ h => by cases h)
      (judged_local (refuseString_isNone s))) (by rw [Bool.and_false]; rfl) (by
        rw [valid, meets, refuseEnum_isNone])
  | .null, schema, at_ => by
    rw [refuse]
    exact judged_of (judged_keywords (declared_of_not_int fun _ h => by cases h)
      (@judged_local none true rfl)) (by rw [Bool.and_false]; rfl) (by
        rw [valid, meets, refuseEnum_isNone])
  | .bool b, schema, at_ => by
    rw [refuse]
    exact judged_of (judged_keywords (declared_of_not_int fun _ h => by cases h)
      (@judged_local none true rfl)) (by rw [Bool.and_false]; rfl) (by
        rw [valid, meets, refuseEnum_isNone])
  | .arr items, schema, at_ => by
    have hcount := @refuseCount_isNone schema at_ items
    have hrest : Judged (meetsItems schema items && (items.any (nesting · > levels) ||
          match schema.items with
          | none => false
          | some item => stopsItems levels item items))
        (meetsItems schema items &&
          match schema.items with
          | none => true
          | some item => validItems searched item items)
        (match refuseCount schema at_ items with
          | some complaint => .ok (some complaint)
          | none =>
            match identities levels items, schema.items with
            | .error e, _ => .error e
            | .ok _, none => .ok none
            | .ok _, some item => refuseItems levels item items at_ 0) := by
      rw [← hcount]
      cases refuseCount schema at_ items with
      | some complaint => exact ⟨rfl, rfl⟩
      | none =>
        unfold identities
        by_cases hdeep : items.any (nesting · > levels) = true
        · rw [if_pos hdeep, hdeep]
          rfl
        · rw [if_neg hdeep, Bool.eq_false_iff.2 hdeep]
          cases schema.items with
          | none => exact ⟨rfl, rfl⟩
          | some item => exact refuseItems_judged items item at_ 0
    rw [refuse]
    exact judged_of (judged_keywords (declared_of_not_int fun _ h => by cases h) hrest)
      (by rw [stops, meets, refuseEnum_isNone]; simp only [Bool.and_assoc])
      (by rw [valid, meets, refuseEnum_isNone]; cases schema.items <;> simp only [Bool.and_assoc])
  | .obj members, schema, at_ => by
    have hnames := @refuseNames_isNone schema at_ members
    have hrest : Judged (meetsNames schema members &&
          stopsMembers levels schema.properties members)
        (meetsNames schema members && validMembers searched schema.properties members)
        (match refuseNames schema at_ members with
          | some complaint => .ok (some complaint)
          | none => refuseMembers levels schema.properties members at_) := by
      rw [← hnames]
      cases refuseNames schema at_ members with
      | some complaint => exact ⟨rfl, rfl⟩
      | none => exact refuseMembers_judged members schema.properties at_
    rw [refuse]
    exact judged_of (judged_keywords (declared_of_not_int fun _ h => by cases h) hrest)
      (by rw [stops, meets, refuseEnum_isNone]; simp only [Bool.and_assoc])
      (by rw [valid, meets, refuseEnum_isNone]; simp only [Bool.and_assoc])

theorem refuseItems_judged : ∀ (items : List Json) (item : Schema) (at_ : Str) (index : ℕ),
    Judged (stopsItems levels item items) (validItems searched item items)
      (refuseItems levels item items at_ index)
  | [], _, _, _ => by
    rw [refuseItems, stopsItems, validItems]
    exact ⟨rfl, rfl⟩
  | value :: rest, item, at_, index => by
    have hvalue := refuse_judged value item (placeItem at_ index)
    have hrest := refuseItems_judged rest item at_ (index + 1)
    rw [refuseItems, stopsItems, validItems]
    cases h : refuse levels item value (placeItem at_ index) with
    | error e =>
      rw [h] at hvalue
      have hs : stops levels item value = true := hvalue
      change (stops levels item value || _) = true
      rw [hs, Bool.true_or]
    | ok answer =>
      rw [h] at hvalue
      cases answer with
      | some complaint =>
        obtain ⟨hs, hv⟩ := hvalue
        rw [hs, hv]
        exact ⟨rfl, rfl⟩
      | none =>
        obtain ⟨hs, hv⟩ := hvalue
        rw [hs, hv]
        exact hrest

theorem refuseMembers_judged : ∀ (members : List (Str × Json)) (properties : List (Str × Schema))
    (at_ : Str), Judged (stopsMembers levels properties members)
      (validMembers searched properties members) (refuseMembers levels properties members at_)
  | [], _, _ => by
    rw [refuseMembers, stopsMembers, validMembers]
    exact ⟨rfl, rfl⟩
  | (name, value) :: rest, properties, at_ => by
    have hrest := refuseMembers_judged rest properties at_
    rw [refuseMembers, stopsMembers, validMembers]
    cases hlookup : properties.lookup name with
    | none => exact hrest
    | some schema =>
      have hvalue := refuse_judged value schema (place at_ name)
      simp only
      cases h : refuse levels schema value (place at_ name) with
      | error e =>
        rw [h] at hvalue
        have hs : stops levels schema value = true := hvalue
        change (stops levels schema value || _) = true
        rw [hs, Bool.true_or]
      | ok answer =>
        rw [h] at hvalue
        cases answer with
        | some complaint =>
          obtain ⟨hs, hv⟩ := hvalue
          rw [hs, hv]
          exact ⟨rfl, rfl⟩
        | none =>
          obtain ⟨hs, hv⟩ := hvalue
          rw [hs, hv]
          exact hrest

end

/-! ## The published grammar -/

/-- The checker answers, and accepts exactly what is valid. -/
def Decides (r : Reading) (levels : ℕ) (name : RequestSchema) (document : Json) : Prop :=
  ∃ answer, refusedBy levels document name = .ok answer ∧
    (answer = none ↔ valid r (domainSchema name) document = true)

/-- A text that a pattern is published for ends in a newline. -/
def EndsInNewline (schema : Schema) (document : Json) : Prop :=
  ∃ s p x, Located schema document s (.str x) ∧ s.pattern = some p ∧ x.getLast? = some 10

/-- A text is longer than its bound in bytes, or has no UTF-8. -/
def OverBytes (schema : Schema) (document : Json) : Prop :=
  ∃ s bound x, Located schema document s (.str x) ∧ s.maxBytes = some bound ∧
    withinBytes bound x = false

theorem fullmatch_iff_search (p : LinePattern) (x : Str) :
    p.body.fullmatch x = true ↔ search p x = true ∧ x.getLast? ≠ some 10 := by
  unfold search
  constructor
  · intro h
    refine ⟨by rw [h, Bool.true_or], fun hlast => ?_⟩
    exact Pattern.avoids_fullmatch p.line h (List.mem_of_getLast? hlast)
  · rintro ⟨h, hlast⟩
    rw [Bool.or_eq_true, Bool.and_eq_true, beq_iff_eq] at h
    rcases h with h | ⟨h, -⟩
    · exact h
    · exact absurd h hlast

theorem meets_published_iff (s : Schema) (v : Json) : meets published s v = true ↔
    meets searched s v = true ∧
      ∀ x, v = .str x → ∀ p, s.pattern = some p → x.getLast? ≠ some 10 := by
  cases v with
  | str x =>
    have hpattern : s.pattern.all (published.search · x) = true ↔
        s.pattern.all (searched.search · x) = true ∧
          ∀ p, s.pattern = some p → x.getLast? ≠ some 10 := by
      cases s.pattern with
      | none => simp
      | some p =>
        simp only [Option.all_some, Option.some.injEq, forall_eq']
        exact fullmatch_iff_search p x
    simp only [meets, meetsString, Bool.and_eq_true, hpattern, Json.str.injEq, forall_eq']
    simp only [published, searched]
    tauto
  | _ =>
    simp only [reduceCtorEq, false_implies, implies_true, and_true]
    rfl

theorem meets_published_iff_generic (s : Schema) (v : Json) : meets published s v = true ↔
    meets generic s v = true ∧
      ∀ x, v = .str x → ∀ bound, s.maxBytes = some bound → withinBytes bound x = true := by
  cases v with
  | str x =>
    have hbytes : s.maxBytes.all (withinBytes · x) = true ↔
        ∀ bound, s.maxBytes = some bound → withinBytes bound x = true := by
      cases s.maxBytes with
      | none => simp
      | some bound => simp
    simp only [meets, meetsString, Bool.and_eq_true, Json.str.injEq, forall_eq', ← hbytes]
    simp only [published, generic, Bool.not_true, Bool.not_false, Bool.false_or, Bool.true_or]
    tauto
  | _ =>
    simp only [reduceCtorEq, false_implies, implies_true, and_true]
    rfl

/-- What is published is what the checker searches for, without a newline at an end. -/
theorem valid_published_iff {document : Json} : valid published schema document = true ↔
    valid searched schema document = true ∧ ¬ EndsInNewline schema document := by
  simp only [valid_iff_located, meets_published_iff]
  constructor
  · intro h
    refine ⟨fun s v hloc => (h s v hloc).1, ?_⟩
    rintro ⟨s, p, x, hloc, hp, hlast⟩
    exact (h s _ hloc).2 x rfl p hp hlast
  · rintro ⟨h, hno⟩ s v hloc
    refine ⟨h s v hloc, ?_⟩
    rintro x rfl p hp hlast
    exact hno ⟨s, p, x, hloc, hp, hlast⟩

theorem valid_published_iff_generic {document : Json} : valid published schema document = true ↔
    valid generic schema document = true ∧ ¬ OverBytes schema document := by
  simp only [valid_iff_located, meets_published_iff_generic]
  constructor
  · intro h
    refine ⟨fun s v hloc => (h s v hloc).1, ?_⟩
    rintro ⟨s, bound, x, hloc, hbound, hover⟩
    rw [(h s _ hloc).2 x rfl bound hbound] at hover
    cases hover
  · rintro ⟨h, hno⟩ s v hloc
    refine ⟨h s v hloc, ?_⟩
    rintro x rfl bound hbound
    by_contra hover
    exact hno ⟨s, bound, x, hloc, hbound, Bool.eq_false_iff.2 hover⟩

theorem not_overBytes {document : Json} (h : valid searched schema document = true) :
    ¬ OverBytes schema document := by
  rintro ⟨s, bound, x, hloc, hbound, hover⟩
  have hmeets := valid_iff_located.1 h s _ hloc
  simp only [meets, meetsString, hbound, searched, Option.all_some, hover, Bool.and_false,
    Bool.not_true, Bool.or_false] at hmeets
  cases hmeets

theorem decides_iff (r : Reading) (name : RequestSchema) (document : Json) :
    Decides r levels name document ↔ stops levels (domainSchema name) document = false ∧
      (valid searched (domainSchema name) document = true ↔
        valid r (domainSchema name) document = true) := by
  have hjudged := @refuse_judged levels document (domainSchema name) []
  unfold Decides refusedBy
  cases h : refuse levels (domainSchema name) document [] with
  | error e =>
    rw [h] at hjudged
    have hs : stops levels (domainSchema name) document = true := hjudged
    rw [hs]
    simp
  | ok answer =>
    rw [h] at hjudged
    cases answer with
    | none =>
      obtain ⟨hs, hv⟩ := hjudged
      simp [hs, hv]
    | some complaint =>
      obtain ⟨hs, hv⟩ := hjudged
      simp [hs, hv]

/-- **The checker decides the published schema**, unless it comes to a value it cannot read or
takes a text for the newline behind it; and JSON Schema alone, unless a text is also over a
bound in bytes. -/
theorem refusedBy_decides (levels : ℕ) (name : RequestSchema) (document : Json) :
    (Decides published levels name document ↔
      stops levels (domainSchema name) document = false ∧
        ¬ (valid searched (domainSchema name) document = true ∧
          EndsInNewline (domainSchema name) document)) ∧
    (Decides generic levels name document ↔
      stops levels (domainSchema name) document = false ∧
        ¬ (valid searched (domainSchema name) document = true ∧
          EndsInNewline (domainSchema name) document) ∧
        ¬ (valid generic (domainSchema name) document = true ∧
          OverBytes (domainSchema name) document)) := by
  have hnewline := @valid_published_iff (domainSchema name) document
  have hbytes := @valid_published_iff_generic (domainSchema name) document
  have hover := @not_overBytes (domainSchema name) document
  rw [decides_iff, decides_iff]
  constructor
  · tauto
  · tauto

/-- An ask, with this capability and generation. -/
def sampleAsk (capability : Str) (generation : ℤ) : Json :=
  .obj [(lit "contract_generation", .int generation), (lit "capability", .str capability)]

/-- A list in a list, this many levels down. -/
def nested : ℕ → Json
  | 0 => .arr []
  | n + 1 => .arr [nested n]

/-- An ask whose delegation chain has one item. -/
def chainAsk (item : Json) : Json :=
  .obj [(lit "contract_generation", .int 1), (lit "capability", .str (lit "a.b")),
    (lit "delegation", .obj [(lit "chain", .arr [item])])]

/-- **The checker does not decide the grammar**: it accepts a capability with a newline behind
it, and raises for a generation beyond the floats and for a list nested too deep. -/
theorem refusedBy_accepts_newline :
    (refusedBy 400 (sampleAsk (lit "a.b\n") 1) .decisionAskRequest = .ok none ∧
      valid generic decisionAskRequest (sampleAsk (lit "a.b\n") 1) = false ∧
      ¬ Decides generic 400 .decisionAskRequest (sampleAsk (lit "a.b\n") 1)) ∧
    refusedBy 400 (sampleAsk (lit "a.b") (10 ^ 400)) .decisionAskRequest =
      .error .overflowError ∧
    refusedBy 400 (chainAsk (nested 400)) .decisionAskRequest = .error .recursionError := by
  have haccepts : refusedBy 400 (sampleAsk (lit "a.b\n") 1) .decisionAskRequest = .ok none := by
    decide +kernel
  have hinvalid : valid generic decisionAskRequest (sampleAsk (lit "a.b\n") 1) = false := by
    decide +kernel
  refine ⟨⟨haccepts, hinvalid, ?_⟩, by decide +kernel, by decide +kernel⟩
  rintro ⟨answer, hanswer, hiff⟩
  rw [haccepts] at hanswer
  cases hanswer
  rw [domainSchema, hinvalid] at hiff
  exact Bool.false_ne_true (hiff.1 rfl)

end SayFirst.Plane
