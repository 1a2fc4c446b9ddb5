import SayFirst.Lib.JsonText
import SayFirst.Lib.Pattern

/-!
# JSON Schema 2020-12

The assertions a document is held to: the types, `enum`, `pattern` and the
bounds, through `properties` and `items`. A validator's own reading of a
pattern, and of the byte bound published as an extension, is a parameter.

* `valid_iff_located` — a document is valid exactly when every location of it
  meets its own keywords.
-/

namespace SayFirst.Py

namespace PyFloat

/-- `f < n` -/
def ltInt : PyFloat → ℤ → Bool
  | finite negative mantissa exponent, n =>
    let signed : ℤ := if negative then -(mantissa : ℤ) else mantissa
    if 0 ≤ exponent then signed * 2 ^ exponent.toNat < n else signed < n * 2 ^ (-exponent).toNat
  | infinite negative, _ => negative
  | nan, _ => false

end PyFloat

end SayFirst.Py

namespace SayFirst.JsonSchema

open Py

inductive TypeName where
  | object
  | array
  | string
  | integer
  | boolean
  | null
  deriving DecidableEq, Repr

/-- The body of an anchored pattern `^body$`, of texts of one line. -/
structure LinePattern where
  body : Pattern
  line : body.avoids 10 = true

/-- A schema: the keywords it asserts. -/
structure Schema where
  type : Option (List TypeName) := none
  enum : Option (List Str) := none
  pattern : Option LinePattern := none
  minLength : Option ℕ := none
  maxLength : Option ℕ := none
  maxBytes : Option ℕ := none
  minimum : Option ℤ := none
  minItems : Option ℕ := none
  maxItems : Option ℕ := none
  items : Option Schema := none
  required : List Str := []
  additionalProperties : Bool := true
  properties : List (Str × Schema) := []

/-- How a validator reads `^body$`, and whether it holds the byte bound. -/
structure Reading where
  search : LinePattern → Str → Bool
  bytes : Bool

/-- `integer` is any number without a fraction (6.1.1). -/
def hasType : TypeName → Json → Bool
  | .object, .obj _ => true
  | .array, .arr _ => true
  | .string, .str _ => true
  | .integer, .int _ => true
  | .integer, .float f => f.asInt.isSome
  | .boolean, .bool _ => true
  | .null, .null => true
  | _, _ => false

section hasType

variable (t : TypeName)

@[simp] theorem hasType_null : hasType t .null = decide (t = .null) := by cases t <;> rfl

@[simp] theorem hasType_bool (b : Bool) : hasType t (.bool b) = decide (t = .boolean) := by
  cases t <;> rfl

@[simp] theorem hasType_int (n : ℤ) : hasType t (.int n) = decide (t = .integer) := by
  cases t <;> rfl

@[simp] theorem hasType_float (f : PyFloat) :
    hasType t (.float f) = (decide (t = .integer) && f.asInt.isSome) := by
  cases t <;> rfl

@[simp] theorem hasType_str (s : Str) : hasType t (.str s) = decide (t = .string) := by
  cases t <;> rfl

@[simp] theorem hasType_arr (items : List Json) :
    hasType t (.arr items) = decide (t = .array) := by
  cases t <;> rfl

@[simp] theorem hasType_obj (members : List (Str × Json)) :
    hasType t (.obj members) = decide (t = .object) := by
  cases t <;> rfl

end hasType

/-- The value is the published text. -/
def isText (value : Json) (name : Str) : Bool :=
  match value with
  | .str s => s == name
  | _ => false

/-- The length of a text in UTF-8 is within the bound. -/
def withinBytes (bound : ℕ) (s : Str) : Bool :=
  match utf8 s with
  | none => false
  | some encoded => decide (encoded.length ≤ bound)

variable (r : Reading) (schema : Schema)

def meetsString (s : Str) : Bool :=
  schema.minLength.all (· ≤ s.length) && schema.maxLength.all (s.length ≤ ·) &&
    schema.pattern.all (r.search · s) && (!r.bytes || schema.maxBytes.all (withinBytes · s))

def meetsItems (items : List Json) : Bool :=
  schema.minItems.all (· ≤ items.length) && schema.maxItems.all (items.length ≤ ·)

def meetsNames (members : List (Str × Json)) : Bool :=
  schema.required.all (fun name => (members.lookup name).isSome) &&
    (schema.additionalProperties ||
      members.all fun m => (schema.properties.lookup m.1).isSome)

/-- A value meets the keywords that are about it and not about its parts. -/
def meets (value : Json) : Bool :=
  schema.type.all (·.any (hasType · value)) &&
    schema.enum.all (·.any (isText value)) &&
    match value with
    | .str s => meetsString r schema s
    | .int n => schema.minimum.all (· ≤ n)
    | .float f => schema.minimum.all fun bound => !f.ltInt bound
    | .arr items => meetsItems schema items
    | .obj members => meetsNames schema members
    | .null => true
    | .bool _ => true

mutual

/-- The document is valid for the schema. -/
def valid (schema : Schema) : Json → Bool
  | .arr items =>
    meets r schema (.arr items) &&
      match schema.items with
      | none => true
      | some item => validItems item items
  | .obj members => meets r schema (.obj members) && validMembers schema.properties members
  | .null => meets r schema .null
  | .bool b => meets r schema (.bool b)
  | .int n => meets r schema (.int n)
  | .float f => meets r schema (.float f)
  | .str s => meets r schema (.str s)

def validItems (item : Schema) : List Json → Bool
  | [] => true
  | value :: rest => valid item value && validItems item rest

def validMembers (properties : List (Str × Schema)) : List (Str × Json) → Bool
  | [] => true
  | (name, value) :: rest =>
    (match properties.lookup name with
      | none => true
      | some schema => valid schema value) && validMembers properties rest

end

/-- A location of a document, with the schema that applies to it. -/
inductive Located : Schema → Json → Schema → Json → Prop
  | here {schema value} : Located schema value schema value
  | item {schema item items value s v} : schema.items = some item → value ∈ items →
      Located item value s v → Located schema (.arr items) s v
  | member {schema sub members name value s v} : (name, value) ∈ members →
      schema.properties.lookup name = some sub → Located sub value s v →
      Located schema (.obj members) s v

variable {r schema}

theorem validItems_iff {item : Schema} {items : List Json} :
    validItems r item items = true ↔ ∀ value ∈ items, valid r item value = true := by
  induction items with
  | nil => simp only [validItems, List.not_mem_nil, false_implies, implies_true]
  | cons value rest ih => simp only [validItems, Bool.and_eq_true, ih, List.forall_mem_cons]

theorem validMembers_iff {properties : List (Str × Schema)} {members : List (Str × Json)} :
    validMembers r properties members = true ↔
      ∀ m ∈ members, ∀ s, properties.lookup m.1 = some s → valid r s m.2 = true := by
  induction members with
  | nil => simp only [validMembers, List.not_mem_nil, false_implies, implies_true]
  | cons m rest ih =>
    obtain ⟨name, value⟩ := m
    simp only [validMembers, Bool.and_eq_true, ih, List.forall_mem_cons]
    cases properties.lookup name with
    | none => simp
    | some s => simp

/-- Where no name stands twice, what is looked up is what is there. -/
theorem lookup_iff_mem {α β : Type} [BEq α] [LawfulBEq α] {l : List (α × β)} {a : α} {b : β}
    (h : (l.map (·.1)).Nodup) : l.lookup a = some b ↔ (a, b) ∈ l := by
  induction l with
  | nil => simp
  | cons m rest ih =>
    obtain ⟨k, v⟩ := m
    obtain ⟨hfresh, hrest⟩ := List.nodup_cons.1 h
    rw [List.lookup_cons, List.mem_cons, Prod.mk.injEq]
    by_cases hk : a = k
    · subst hk
      have hno : (a, b) ∉ rest := fun hmem => hfresh (List.mem_map.2 ⟨(a, b), hmem, rfl⟩)
      simp [hno, eq_comm]
    · rw [beq_false_of_ne hk, ih hrest]
      simp [hk]

/-- Members are valid exactly where what each property finds in them is. -/
theorem validMembers_iff_lookup {properties : List (Str × Schema)} {members : List (Str × Json)}
    (hproperties : (properties.map (·.1)).Nodup) (hmembers : (members.map (·.1)).Nodup) :
    validMembers r properties members = true ↔
      ∀ p ∈ properties, ∀ value, members.lookup p.1 = some value → valid r p.2 value = true := by
  rw [validMembers_iff]
  constructor
  · intro h p hp value hvalue
    exact h (p.1, value) ((lookup_iff_mem hmembers).1 hvalue) p.2
      ((lookup_iff_mem hproperties).2 hp)
  · intro h m hm s hs
    exact h (m.1, s) ((lookup_iff_mem hproperties).1 hs) m.2 ((lookup_iff_mem hmembers).2 hm)

/-- A valid document meets its own keywords. -/
theorem meets_of_valid {value : Json} (h : valid r schema value = true) :
    meets r schema value = true := by
  cases value with
  | arr items =>
    rw [valid, Bool.and_eq_true] at h
    exact h.1
  | obj members =>
    rw [valid, Bool.and_eq_true] at h
    exact h.1
  | _ => rwa [valid] at h

theorem valid_of_located {value : Json} {s : Schema} {v : Json}
    (hloc : Located schema value s v) (h : valid r schema value = true) :
    valid r s v = true := by
  induction hloc with
  | here => exact h
  | item hitems hmem _ ih =>
    rw [valid, hitems, Bool.and_eq_true] at h
    exact ih (validItems_iff.1 h.2 _ hmem)
  | member hmem hlookup _ ih =>
    rw [valid, Bool.and_eq_true] at h
    exact ih (validMembers_iff.1 h.2 _ hmem _ hlookup)

mutual

theorem valid_of_meets : ∀ (value : Json) (schema : Schema),
    (∀ s v, Located schema value s v → meets r s v = true) → valid r schema value = true
  | .arr items, schema, h => by
    rw [valid, Bool.and_eq_true]
    refine ⟨h _ _ .here, ?_⟩
    cases hitems : schema.items with
    | none => rfl
    | some item =>
      exact validItems_of_meets items item fun value hmem s v hloc =>
        h s v (.item hitems hmem hloc)
  | .obj members, schema, h => by
    rw [valid, Bool.and_eq_true]
    exact ⟨h _ _ .here, validMembers_of_meets members schema.properties
      fun name value hmem sub hlookup s v hloc => h s v (.member hmem hlookup hloc)⟩
  | .null, _, h => by rw [valid]; exact h _ _ .here
  | .bool _, _, h => by rw [valid]; exact h _ _ .here
  | .int _, _, h => by rw [valid]; exact h _ _ .here
  | .float _, _, h => by rw [valid]; exact h _ _ .here
  | .str _, _, h => by rw [valid]; exact h _ _ .here

theorem validItems_of_meets : ∀ (items : List Json) (item : Schema),
    (∀ value ∈ items, ∀ s v, Located item value s v → meets r s v = true) →
      validItems r item items = true
  | [], _, _ => by rw [validItems]
  | value :: rest, item, h => by
    rw [validItems, Bool.and_eq_true]
    exact ⟨valid_of_meets value item (h value List.mem_cons_self),
      validItems_of_meets rest item fun value' hmem => h value' (List.mem_cons_of_mem _ hmem)⟩

theorem validMembers_of_meets : ∀ (members : List (Str × Json)) (properties : List (Str × Schema)),
    (∀ name value, (name, value) ∈ members → ∀ sub, properties.lookup name = some sub →
      ∀ s v, Located sub value s v → meets r s v = true) →
      validMembers r properties members = true
  | [], _, _ => by rw [validMembers]
  | (name, value) :: rest, properties, h => by
    rw [validMembers, Bool.and_eq_true]
    refine ⟨?_, validMembers_of_meets rest properties fun name' value' hmem =>
      h name' value' (List.mem_cons_of_mem _ hmem)⟩
    cases hlookup : properties.lookup name with
    | none => rfl
    | some sub => exact valid_of_meets value sub (h name value List.mem_cons_self sub hlookup)

end

/-- **Valid everywhere**: a document is valid exactly when each location of it meets its own
keywords. -/
theorem valid_iff_located {value : Json} :
    valid r schema value = true ↔ ∀ s v, Located schema value s v → meets r s v = true :=
  ⟨fun h _ _ hloc => meets_of_valid (valid_of_located hloc h), valid_of_meets value schema⟩

end SayFirst.JsonSchema
