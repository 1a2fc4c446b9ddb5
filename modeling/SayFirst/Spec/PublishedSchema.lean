import SayFirst.Lib.JsonSchema
import SayFirst.Spec.Policy

/-!
# Refusing a request by its published schema (`domain/published_schema.py`)

* `refuse`, `refusedBy` — the checker.
* `decisionAskRequest`, `approvalResolveRequest`, `delegation` — the published
  schemas, a `$ref` being the schema it names.

`re.search` of `^body$` also matches before a newline that ends the text;
`float` raises for an integer no float is near; `_identity` raises below the
levels the interpreter has left.
-/

namespace SayFirst.Plane

open Py JsonSchema

/-- What the checker raises. -/
inductive Raised where
  | overflowError
  | recursionError
  deriving DecidableEq, Repr

/-- `re.search("^body$", s) is not None` -/
def search (p : LinePattern) (s : Str) : Bool :=
  p.body.fullmatch s || (s.getLast? == some 10 && p.body.fullmatch s.dropLast)

/-- `float(n)` does not raise. -/
def floatable (n : ℤ) : Bool := n.natAbs < 2 ^ 1024 - 2 ^ 970

mutual

/-- How many levels of members or items are below a value. -/
def nesting : Json → ℕ
  | .arr items => nestingItems items + 1
  | .obj members => nestingMembers members + 1
  | _ => 0

def nestingItems : List Json → ℕ
  | [] => 0
  | value :: rest => max (nesting value) (nestingItems rest)

def nestingMembers : List (Str × Json) → ℕ
  | [] => 0
  | (_, value) :: rest => max (nesting value) (nestingMembers rest)

end

/-- `_matches_type` -/
def matchesType (value : Json) : List TypeName → Except Raised Bool
  | [] => .ok false
  | name :: rest =>
    match name, value with
    | .integer, .int n => if floatable n then .ok true else .error .overflowError
    | .integer, .float f => if f.asInt.isSome then .ok true else matchesType value rest
    | _, _ => if hasType name value then .ok true else matchesType value rest

def typeName : TypeName → Str
  | .object => lit "object"
  | .array => lit "array"
  | .string => lit "string"
  | .integer => lit "integer"
  | .boolean => lit "boolean"
  | .null => lit "null"

/-- `' or '.join(declared)` -/
def typeNames : List TypeName → Str
  | [] => []
  | [name] => typeName name
  | name :: rest => typeName name ++ lit " or " ++ typeNames rest

/-- `f"{where}.{member}" if where else member` -/
def place (at_ member : Str) : Str := if at_.isEmpty then member else at_ ++ lit "." ++ member

/-- `f"{where}[{index}]"` -/
def placeItem (at_ : Str) (index : ℕ) : Str := at_ ++ lit "[" ++ decimal index ++ lit "]"

section

variable (levels : ℕ) (schema : Schema) (at_ : Str)

/-- The `enum` check of `_refuse`; the published values are strings. -/
def refuseEnum (value : Json) : Option Str :=
  match schema.enum with
  | none => none
  | some allowed =>
    if allowed.any (isText value) then none
    else some (at_ ++ lit " is not one of the published values")

/-- `_refuse_bytes` -/
def refuseBytes (s : Str) : Option Str :=
  match schema.maxBytes with
  | none => none
  | some largest =>
    match utf8 s with
    | none =>
      some (at_ ++ lit " is not UTF-8, and its published bound is counted in UTF-8 bytes")
    | some encoded =>
      if encoded.length > largest then
        some (at_ ++ lit " is longer than the published bound in bytes")
      else none

/-- `_refuse_string` -/
def refuseString (s : Str) : Option Str :=
  if schema.minLength.any (s.length < ·) then
    some (at_ ++ lit " is shorter than the published minimum")
  else if schema.maxLength.any (s.length > ·) then
    some (at_ ++ lit " is longer than the published maximum")
  else if schema.pattern.any (!search · s) then
    some (at_ ++ lit " does not match the published pattern")
  else refuseBytes schema at_ s

/-- The bounds of `_refuse` on a number. -/
def refuseNumber (below : ℤ → Bool) : Option Str :=
  if schema.minimum.any below then some (at_ ++ lit " is below the published minimum") else none

/-- The counts of `_refuse_array`. -/
def refuseCount (items : List Json) : Option Str :=
  if schema.minItems.any (items.length < ·) then
    some (at_ ++ lit " has fewer items than the published minimum")
  else if schema.maxItems.any (items.length > ·) then
    some (at_ ++ lit " has more items than the published maximum")
  else none

/-- The names `_refuse_object` requires, and those it does not know. -/
def refuseNames (members : List (Str × Json)) : Option Str :=
  match schema.required.find? fun name => (members.lookup name).isNone with
  | some member => some (place at_ member ++ lit " is required")
  | none =>
    if schema.additionalProperties then none
    else
      match members.find? fun m => (schema.properties.lookup m.1).isNone with
      | some (member, _) => some (place at_ member ++ lit " is not a member of this generation")
      | none => none

/-- `{_identity(item) for item in value}` -/
def identities (items : List Json) : Except Raised Unit :=
  if items.any (nesting · > levels) then .error .recursionError else .ok ()

end

mutual

/-- `_refuse`, with what the interpreter has left for `_identity`. -/
def refuse (levels : ℕ) (schema : Schema) (value : Json) (at_ : Str) :
    Except Raised (Option Str) :=
  match schema.type.elim (.ok true) (matchesType value) with
  | .error e => .error e
  | .ok false =>
    .ok (some (at_ ++ lit " is not of type " ++ typeNames (schema.type.getD [])))
  | .ok true =>
    match refuseEnum schema at_ value with
    | some complaint => .ok (some complaint)
    | none =>
      match value with
      | .str s => .ok (refuseString schema at_ s)
      | .int n => .ok (refuseNumber schema at_ (n < ·))
      | .float f => .ok (refuseNumber schema at_ (f.ltInt ·))
      | .arr items =>
        match refuseCount schema at_ items with
        | some complaint => .ok (some complaint)
        | none =>
          match identities levels items, schema.items with
          | .error e, _ => .error e
          | .ok _, none => .ok none
          | .ok _, some item => refuseItems levels item items at_ 0
      | .obj members =>
        match refuseNames schema at_ members with
        | some complaint => .ok (some complaint)
        | none => refuseMembers levels schema.properties members at_
      | .null => .ok none
      | .bool _ => .ok none

/-- The loop of `_refuse_array`. -/
def refuseItems (levels : ℕ) (item : Schema) (items : List Json) (at_ : Str) (index : ℕ) :
    Except Raised (Option Str) :=
  match items with
  | [] => .ok none
  | value :: rest =>
    match refuse levels item value (placeItem at_ index) with
    | .ok none => refuseItems levels item rest at_ (index + 1)
    | answer => answer

/-- The loop of `_refuse_object`. -/
def refuseMembers (levels : ℕ) (properties : List (Str × Schema)) (members : List (Str × Json))
    (at_ : Str) : Except Raised (Option Str) :=
  match members with
  | [] => .ok none
  | (member, value) :: rest =>
    match properties.lookup member with
    | none => refuseMembers levels properties rest at_
    | some schema =>
      match refuse levels schema value (place at_ member) with
      | .ok none => refuseMembers levels properties rest at_
      | answer => answer

end

/-! ## The published schemas -/

/-- `^sha256:[0-9a-f]{64}$` -/
def digestLine : LinePattern := ⟨digestPattern, by decide +kernel⟩

/-- `^[a-z][a-z0-9]*(\.[a-z][a-z0-9]*)*$` -/
def capabilityLine : LinePattern := ⟨capabilityPattern, by decide⟩

/-- `^[A-Za-z0-9][A-Za-z0-9._-]{0,127}$` -/
def scopeLine : LinePattern := ⟨scopePattern, by decide +kernel⟩

def scopeSchema : Schema :=
  { type := some [.string], minLength := some 1, maxLength := some 128, pattern := some scopeLine }

def contractGenerationSchema : Schema := { type := some [.integer], minimum := some 1 }

/-- `delegation.schema.json` -/
def delegation : Schema where
  type := some [.object]
  additionalProperties := false
  required := [lit "chain"]
  properties :=
    [(lit "chain",
      { type := some [.array], minItems := some 1, maxItems := some 4
        items :=
          some
            { type := some [.object]
              additionalProperties := false
              required := [lit "kind", lit "name", lit "uid", lit "via"]
              properties :=
                [(lit "kind",
                  { type := some [.string], minLength := some 1, maxLength := some 64
                    maxBytes := some 64 }),
                 (lit "name",
                  { type := some [.string, .null], maxLength := some 256, maxBytes := some 256 }),
                 (lit "uid", { type := some [.integer, .null], minimum := some 0 }),
                 (lit "via",
                  { type := some [.string], minLength := some 1, maxLength := some 64
                    maxBytes := some 64 })] } }),
     (lit "status", { type := some [.string], minLength := some 1 })]

/-- `decision-ask-request.schema.json` -/
def decisionAskRequest : Schema where
  type := some [.object]
  additionalProperties := false
  required := [lit "contract_generation", lit "capability"]
  properties :=
    [(lit "arguments_digest", { type := some [.string], pattern := some digestLine }),
     (lit "capability",
      { type := some [.string], minLength := some 1, maxLength := some 128
        pattern := some capabilityLine }),
     (lit "contract_generation", contractGenerationSchema),
     (lit "correlation", { type := some [.string], maxLength := some 128 }),
     (lit "delegation", delegation),
     (lit "scope", scopeSchema)]

/-- `approval-resolve-request.schema.json` -/
def approvalResolveRequest : Schema where
  type := some [.object]
  additionalProperties := false
  required := [lit "contract_generation", lit "scope", lit "approval_ref", lit "resolution"]
  properties :=
    [(lit "approval_ref", { type := some [.string], minLength := some 1, maxLength := some 128 }),
     (lit "contract_generation", contractGenerationSchema),
     (lit "reason", { type := some [.string], maxLength := some 1024 }),
     (lit "resolution", { type := some [.string], enum := some [lit "approve", lit "reject"] }),
     (lit "scope", scopeSchema)]

/-- The published request schemas. -/
inductive RequestSchema where
  | decisionAskRequest
  | approvalResolveRequest
  deriving DecidableEq, Repr

/-- `domain_schema` -/
def domainSchema : RequestSchema → Schema
  | .decisionAskRequest => decisionAskRequest
  | .approvalResolveRequest => approvalResolveRequest

/-- `refused_by` -/
def refusedBy (levels : ℕ) (document : Json) (name : RequestSchema) :
    Except Raised (Option Str) :=
  refuse levels (domainSchema name) document []

/-- The document `_validate` puts to the schema. -/
def DecisionAsk.document (ask : DecisionAsk) : Json :=
  .obj ([(lit "contract_generation", .int 1), (lit "capability", .str ask.capability),
      (lit "scope", .str ask.scope)] ++
    (ask.argumentsDigest.map fun digest => (lit "arguments_digest", .str digest)).toList ++
    (ask.correlation.map fun correlation => (lit "correlation", .str correlation)).toList)

/-- `_validate`: the complaint of the problem it answers. -/
def DecisionQuestion.validate (levels : ℕ) (question : DecisionQuestion) :
    Except Raised (Option Str) :=
  refusedBy levels question.ask.document .decisionAskRequest

end SayFirst.Plane
