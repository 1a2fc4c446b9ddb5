import SayFirst.Lib.JsonRead
import SayFirst.Spec.EvidenceStore

/-!
# Entries from documents (`domain/evidence_chain.py`, `domain/foreign.py`)

* `entryFromDocument` — the entry a stored document is read as.
* `coreOwnedEntry` — the entry a store answered with, rebuilt.
-/

namespace SayFirst.Plane

open Py Evidence

instance microseconds_neZero : NeZero 1000000 := inferInstance

/-- An instant and its microseconds, which no text of the contract shows. -/
structure Moment where
  instant : Instant
  microsecond : Fin 1000000
  deriving DecidableEq

/-- An entry and the microseconds of its instant. -/
structure TimedEntry where
  entry : EvidenceEntry
  microsecond : Fin 1000000

/-- `astimezone(UTC).isoformat()` -/
def Moment.isoformat (m : Moment) : Option Str :=
  m.instant.utc.map fun civil =>
    if m.microsecond = 0 then civil.isoformat
    else civil.stem ++ 46 :: padded 6 m.microsecond ++ lit "+00:00"

/-- `isinstance(value, Mapping)` -/
def isMapping : Json → Bool
  | .obj _ => true
  | _ => false

/-- The members of a value that is an object. -/
def membersOf : Json → Body
  | .obj members => members
  | _ => []

/-- `Principal(...)` -/
def EvidencePrincipal.construct (kind id : Str) (via : List EvidencePrincipal) :
    Except PyError EvidencePrincipal := do
  EvidenceBody.hold (!kind.isEmpty && !id.isEmpty) "principal kind and id are required"
  return .mk kind id via

/-- `via` of a principal's document is a list of objects, or absent. -/
def viaHolds (document : Body) : Bool :=
  match Json.get document "via" with
  | none => true
  | some (.arr items) => items.all isMapping
  | some _ => false

mutual

/-- `_read_principal` -/
def readPrincipal (py : Interpreter) : Json → Except PyError EvidencePrincipal
  | .obj document => do
    EvidenceBody.hold (viaHolds document) "principal via must be a list"
    let kind ← EvidenceBody.item document "kind"
    let id ← EvidenceBody.item document "id"
    let via ← readVia py document
    EvidencePrincipal.construct (kind.text py) (id.text py) via
  | _ => .error .typeError

/-- The principals of `via`. -/
def readVia (py : Interpreter) : Body → Except PyError (List EvidencePrincipal)
  | [] => .ok []
  | (key, .arr items) :: rest => if key = lit "via" then readPrincipals py items else readVia py rest
  | (key, _) :: rest => if key = lit "via" then .ok [] else readVia py rest

def readPrincipals (py : Interpreter) : List Json → Except PyError (List EvidencePrincipal)
  | [] => .ok []
  | item :: items => do
    let p ← readPrincipal py item
    let ps ← readPrincipals py items
    return p :: ps

end

/-- What `datetime.fromisoformat` answers: none where it raises, no moment of a naive one. -/
abbrev FromIso := Str → Option (Option Moment)

/-- `datetime.fromisoformat(text.replace("Z", "+00:00"))`; `__post_init__` refuses a naive one. -/
def readInstant (fromIso : FromIso) (text : Str) : Except PyError Moment :=
  match fromIso (text.flatMap fun c => if c = 90 then lit "+00:00" else [c]) with
  | none => .error (.valueError "Invalid isoformat string")
  | some none => .error (.valueError "recorded_at must be an offset-aware instant")
  | some (some moment) => .ok moment

/-- `str(value) if value is not None else None` -/
def textOrNone (py : Interpreter) : Json → Option Str
  | .null => none
  | value => some (value.text py)

/-- `entry_from_document` -/
def entryFromDocument (py : Interpreter) (fromIso : FromIso) (document : Body) :
    Except PyError TimedEntry := do
  let principal ← EvidenceBody.item document "principal"
  let body ← EvidenceBody.item document "body"
  EvidenceBody.hold (isMapping principal && isMapping body)
    "entry principal and body must be objects"
  let scope ← EvidenceBody.item document "scope"
  let kind ← EvidenceBody.item document "kind"
  let recordedAt ← EvidenceBody.item document "recorded_at"
  let moment ← readInstant fromIso (recordedAt.text py)
  let connectionId ← EvidenceBody.item document "connection_id"
  let principal ← readPrincipal py principal
  let sequence ← EvidenceBody.item document "sequence"
  let sequence ← sequence.toInt py
  let previousHash ← EvidenceBody.item document "previous_hash"
  let entryHash ← EvidenceBody.item document "entry_hash"
  let version ← EvidenceBody.item document "preimage_version"
  let entry ← EntryFields.construct
    { scope := scope.text py, kind := kind.text py, recordedAt := moment.instant
      connectionId := connectionId.text py, principal, body := membersOf body, sequence, previousHash := textOrNone py previousHash
      entryHash := entryHash.text py, preimageVersion := version.text py }
  return ⟨entry.1, moment.microsecond⟩

/-! ## Entries the core owns -/

mutual

/-- `core_owned_principal` -/
def coreOwnedPrincipal : EvidencePrincipal → Except PyError EvidencePrincipal
  | .mk kind id via => do
    let via ← coreOwnedPrincipals via
    EvidencePrincipal.construct kind id via

def coreOwnedPrincipals : List EvidencePrincipal → Except PyError (List EvidencePrincipal)
  | [] => .ok []
  | p :: ps => do
    let p ← coreOwnedPrincipal p
    let ps ← coreOwnedPrincipals ps
    return p :: ps

end

/-- `core_owned_body`: `float` is what the reader makes of a numeral. -/
def coreOwnedBody (py : Interpreter) (float : Str → PyFloat) (body : Body) : Option Body :=
  match Json.loads float (Json.canonical py (.obj body)) with
  | some (.obj owned) => some owned
  | _ => none

/-- `core_owned_instant` -/
def coreOwnedInstant (fromIso : FromIso) (m : Moment) : Option Moment := do
  (← fromIso (← m.isoformat))

/-- `core_owned_entry`; none where it raises `ForeignValueRefused`. -/
def coreOwnedEntry (py : Interpreter) (float : Str → PyFloat) (fromIso : FromIso) (e : TimedEntry) :
    Option TimedEntry := do
  let moment ← coreOwnedInstant fromIso ⟨e.entry.recordedAt, e.microsecond⟩
  let principal ← (coreOwnedPrincipal e.entry.principal).toOption
  let body ← coreOwnedBody py float e.entry.body
  let entry ← (EntryFields.construct
    { e.entry.toEntryFields with recordedAt := moment.instant, principal, body }).toOption
  return ⟨entry.1, moment.microsecond⟩

end SayFirst.Plane
