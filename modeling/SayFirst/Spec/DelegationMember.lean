import SayFirst.Spec.PublishedSchema
import SayFirst.Spec.WhoAmI

/-!
# The delegation an ask declares (`whoami.py`)

`Delegation.from_request_member` as the surface calls it: the surface answers
`DelegationOutOfBounds` and no other exception, so the two are kept apart here.

* `fromRequestMember` — the reader, with what it raises.
* `Common` — the grammar the reader and the published schema share.
* `MeetsUncoded` — the reader comes to a text that has no UTF-8 form.
-/

namespace SayFirst.Contract

open Py
open SayFirst.Client (DelegatedIdentity Delegation undefinedMember member)

/-- What the reader raises. -/
inductive MemberFault where
  | outOfBounds (message : Str)
  | unicodeEncodeError (text : Str)
  deriving DecidableEq

def outOfBounds {α : Type} (message : Str) : Except MemberFault α := .error (.outOfBounds message)

/-- `_bounded` -/
def bounded (value : Str) (limit : ℕ) (name : String) : Except MemberFault Str :=
  match utf8 value with
  | none => .error (.unicodeEncodeError value)
  | some raw =>
    if raw.length > limit then
      outOfBounds (lit "delegation " ++ lit name ++ lit " is longer than " ++ decimal limit ++
        lit " bytes")
    else .ok value

/-- `if not isinstance(value, str) or not value` -/
def linkText (message : String) : Json → Except MemberFault Str
  | .str (c :: s) => .ok (c :: s)
  | _ => outOfBounds (lit message)

/-- `if name is not None and not isinstance(name, str)` -/
def linkName : Json → Except MemberFault (Option Str)
  | .null => .ok none
  | .str s => .ok (some s)
  | _ => outOfBounds (lit "a delegation name must be a string or null")

/-- `if uid is not None and (not isinstance(uid, int) or isinstance(uid, bool) or uid < 0)` -/
def linkUid : Json → Except MemberFault (Option ℤ)
  | .null => .ok none
  | .int n =>
    if n < 0 then outOfBounds (lit "a delegation uid must be a whole number or null")
    else .ok (some n)
  | _ => outOfBounds (lit "a delegation uid must be a whole number or null")

/-- `None if name is None else _bounded(name, MAX_NAME_BYTES, "name")` -/
def boundedName : Option Str → Except MemberFault (Option Str)
  | none => .ok none
  | some name => (bounded name 256 "name").map some

variable (repr : Json → Str)

/-- `_read_link` -/
def readLink : Json → Except MemberFault DelegatedIdentity
  | .obj link =>
    match undefinedMember link with
    | some name => outOfBounds (lit "a delegation entry names " ++ repr (.str name))
    | none => do
      let kind ← linkText "a delegation entry needs a kind" (member link "kind")
      let via ← linkText "a delegation entry needs a via" (member link "via")
      let name ← linkName (member link "name")
      let uid ← linkUid (member link "uid")
      let kind ← bounded kind 64 "kind"
      let name ← boundedName name
      let via ← bounded via 64 "via"
      return ⟨kind, name, uid, via⟩
  | _ => outOfBounds (lit "a delegation entry must be an object")

/-- `sorted(set(value) - {"status", "chain"})[0]`, where there is one. -/
def undefinedName (members : Client.Members) : Option Str :=
  (sortedSet ((members.map (·.1)).filter fun k =>
    ! ["status", "chain"].any (lit · == k))).head?

/-- `Delegation.from_request_member` -/
def fromRequestMember : Json → Except MemberFault (Option Delegation)
  | .null => .ok none
  | .obj members =>
    match undefinedName members with
    | some name => outOfBounds (lit "delegation names " ++ repr (.str name))
    | none =>
      match member members "chain" with
      | .arr chain =>
        if 1 ≤ chain.length ∧ chain.length ≤ 4 then
          (chain.mapM (readLink repr)).map fun links => some ⟨links⟩
        else
          outOfBounds (lit "delegation chain holds " ++ decimal chain.length ++
            lit " entries, bounds are 1 to " ++ decimal 4)
      | _ => outOfBounds (lit "delegation chain must be a list")
  | _ => outOfBounds (lit "delegation must be an object")

/-- `DelegatedIdentity.to_document` -/
def linkDocument (link : DelegatedIdentity) : Client.Members :=
  [(lit "kind", .str link.kind), (lit "name", .ofOption .str link.name),
   (lit "uid", .ofOption .int link.uid), (lit "via", .str link.via)]

/-- `Delegation.to_document` -/
def delegationDocument (record : Delegation) : Client.Members :=
  [(lit "status", .str (lit "declared")),
   (lit "chain", .arr (record.chain.map fun link => .obj (linkDocument link)))]

/-! ## What reader and schema share, and where they part -/

open JsonSchema (withinBytes)

/-- A text that is not empty and within its bound. -/
def WithinText (limit : ℕ) (value : Json) : Prop :=
  ∃ s, value = .str s ∧ s ≠ [] ∧ withinBytes limit s = true

/-- Null, or a text within its bound. -/
def WithinName (limit : ℕ) (value : Json) : Prop :=
  value = .null ∨ ∃ s, value = .str s ∧ withinBytes limit s = true

/-- Null, or a whole number, written with a fraction of zero or without one. -/
def WholeUid : Json → Prop
  | .null => True
  | .int n => 0 ≤ n
  | .float f => f.asInt.isSome = true ∧ f.ltInt 0 = false
  | _ => False

/-- A delegation entry within the bounds; a name or a uid that is not given is null. -/
structure CommonLink (link : Client.Members) : Prop where
  names : ∀ m ∈ link, m.1 ∈ ["kind", "name", "uid", "via"].map lit
  kind : WithinText 64 (member link "kind")
  via : WithinText 64 (member link "via")
  name : WithinName 256 (member link "name")
  uid : WholeUid (member link "uid")

/-- A member within the bounds, whatever its status is. -/
structure CommonMember (members : Client.Members) (links : List Client.Members) : Prop where
  names : ∀ m ∈ members, m.1 ∈ ["status", "chain"].map lit
  chain : Json.get members "chain" = some (.arr (links.map .obj))
  count : 1 ≤ links.length ∧ links.length ≤ 4

/-- The grammar the reader and the schema share. -/
def Common (value : Json) (members : Client.Members) (links : List Client.Members) : Prop :=
  value = .obj members ∧ CommonMember members links ∧ ∀ link ∈ links, CommonLink link

/-- The uid is a whole number written as a float. -/
def FloatUid (link : Client.Members) : Prop := ∃ f, member link "uid" = .float f

/-- The status is one the schema publishes: a text that is not empty, where it is given. -/
def StatusText (members : Client.Members) : Prop :=
  ∀ value, Json.get members "status" = some value → ∃ s, value = .str s ∧ s ≠ []

/-- The entry gives both members that may be null. -/
def GivesBoth (link : Client.Members) : Prop :=
  (Json.get link "name").isSome = true ∧ (Json.get link "uid").isSome = true

/-- The checks of `_read_link` on the types all pass. -/
structure TypedLink (link : Client.Members) (kind via : Str) : Prop where
  names : ∀ m ∈ link, m.1 ∈ ["kind", "name", "uid", "via"].map lit
  kind : member link "kind" = .str kind ∧ kind ≠ []
  via : member link "via" = .str via ∧ via ≠ []
  name : member link "name" = .null ∨ ∃ s, member link "name" = .str s
  uid : WholeUid (member link "uid") ∧ ¬ FloatUid link

/-- Of the texts in the order in which they are measured, one has no UTF-8 form and those before
it are within their bounds. -/
def UncodedLink (link : Client.Members) (kind via : Str) : Prop :=
  utf8 kind = none ∨ withinBytes 64 kind = true ∧
    ((∃ s, member link "name" = .str s ∧ utf8 s = none) ∨
      WithinName 256 (member link "name") ∧ utf8 via = none)

/-- The reader comes to a text that has no UTF-8 form. -/
def MeetsUncoded (value : Json) : Prop :=
  ∃ (members : Client.Members) (before : List Client.Members) (link : Client.Members) (after : List Json) (kind via : Str),
    value = .obj members ∧
    (∀ m ∈ members, m.1 ∈ ["status", "chain"].map lit) ∧
    member members "chain" = .arr (before.map .obj ++ .obj link :: after) ∧
    before.length + after.length ≤ 3 ∧
    (∀ earlier ∈ before, CommonLink earlier ∧ ¬ FloatUid earlier) ∧
    TypedLink link kind via ∧ UncodedLink link kind via

/-- Where reader and schema share a member, they part on both of two grounds or on none; and the
reader comes to no text without a UTF-8 form. -/
def Clear (value : Json) : Prop :=
  (∀ members links, Common value members links →
    ((∃ link ∈ links, FloatUid link) ↔ ¬ (StatusText members ∧ ∀ link ∈ links, GivesBoth link))) ∧
  ¬ MeetsUncoded value

end SayFirst.Contract
