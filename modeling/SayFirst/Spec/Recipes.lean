import SayFirst.Spec.ChainRecipe
import SayFirst.Spec.Policy

/-!
# The contract's chain verifier (`sayfirst_contract/evidence_recipes.py`)

It reads entries from an untrusted document: `readEntry` holds the shape of one,
`verifyChain` runs the passes of the published recipe, `manifestHash` recomputes
what an export names itself by.
-/

namespace SayFirst.Contract

open Py Evidence

abbrev Members := List (Str × Json)

def invalid {α : Type} (message : String) : Except PyError α :=
  .error (.invalidBundle (lit message))

def recoveryEvents : List String := ["clean_stop", "unclean_stop"]
def grades : List String := ["unverified", "observability", "evidence"]

/-- `_ASYNCHRONOUS_KINDS` -/
def asynchronousKinds : List String := ["effect", "grade", "composition"]

/-- `_ENTRY_MEMBERS` -/
def entryMembers : List String :=
  ["scope", "kind", "recorded_at", "connection_id", "principal", "body", "sequence",
    "previous_hash", "entry_hash", "preimage_version"]

/-- `_BODY_REQUIRED.get(kind, ())` -/
def bodyRequired (kind : Str) : List String :=
  if kind = lit "effect" then
    ["capability", "decision_id", "outcome", "decided_at", "policy_version"]
  else if kind = lit "grade" then ["grade", "basis", "evaluated_at", "paths_inspected"]
  else if kind = lit "gap" then ["reason", "count", "first_at", "last_at", "kinds"]
  else if kind = lit "composition" then ["providers"]
  else if kind = lit "recovery" then ["event", "epoch_id", "from_sequence", "through_sequence"]
  else []

def has (document : Members) (key : String) : Bool := (Json.get document key).isSome

/-! ## Entries -/

/-- An entry `_read_entry` accepted, by its members. -/
structure Entry where
  scope : Str
  kind : Str
  recordedAt : Str
  connectionId : Str
  principal : Members
  body : Members
  sequence : ℤ
  previousHash : Option Str
  entryHash : Str
  preimageVersion : Str

def requireInvalid (ok : Bool) (message : String) : Except PyError Unit :=
  require ok (.invalidBundle (lit message))

def readObject (value : Json) : Except PyError Members :=
  match value with
  | .obj entry => .ok entry
  | _ => invalid "an entry must be an object"

def requireMembers (entry : Members) : Except PyError Unit :=
  match entryMembers.find? fun k => !has entry k with
  | some missing => invalid ("an entry lacks " ++ missing)
  | none => .ok ()

/-- `sequence`: a positive integer, and no `bool`. -/
def readSequence (entry : Members) : Except PyError ℤ :=
  match Json.get entry "sequence" with
  | some (.int n) =>
    if 1 ≤ n then .ok n else invalid "an entry's sequence must be a positive integer"
  | _ => invalid "an entry's sequence must be a positive integer"

/-- `previous_hash`: a lowercase digest or null. -/
def readPrevious (entry : Members) : Except PyError (Option Str) :=
  match Json.get entry "previous_hash" with
  | some .null => .ok none
  | some (.str s) =>
    if hashPattern.fullmatch s then .ok (some s)
    else invalid "an entry's previous_hash must be a lowercase digest or null"
  | _ => invalid "an entry's previous_hash must be a lowercase digest or null"

def readHash (entry : Members) : Except PyError Str :=
  match Json.get entry "entry_hash" with
  | some (.str s) =>
    if hashPattern.fullmatch s then .ok s
    else invalid "an entry's entry_hash must be a lowercase digest"
  | _ => invalid "an entry's entry_hash must be a lowercase digest"

/-- A member that must be a non-empty string. -/
def textMember (entry : Members) (key : String) : Except PyError Str :=
  match Json.get entry key with
  | some (.str (c :: cs)) => .ok (c :: cs)
  | _ => invalid ("an entry's " ++ key ++ " must be a non-empty string")

/-- `principal` and `body`. -/
def readObjects (entry : Members) : Except PyError (Members × Members) :=
  match Json.get entry "principal", Json.get entry "body" with
  | some (.obj principal), some (.obj body) => .ok (principal, body)
  | _, _ => invalid "an entry's principal and body must be objects"

def requirePrincipal (principal : Members) : Except PyError Unit :=
  match ["kind", "id"].find? fun k => !(Json.get principal k).any (·.str?.isSome) with
  | some member => invalid ("a principal's " ++ member ++ " must be a string")
  | none => .ok ()

/-- The last checks of `_read_entry`, on the body of a kind. -/
def checkBody (kind : Str) (body : Members) : Except PyError Unit :=
  match (bodyRequired kind).find? fun k => !has body k with
  | some missing =>
    .error (.invalidBundle (lit "a " ++ kind ++ lit " body lacks " ++ lit missing))
  | none =>
    if kind = lit "gap" ∧ !(Json.get body "reason").any (·.isOneOf gapReasons) then
      invalid "a gap names a reason this generation does not define"
    else if kind = lit "recovery" then
      if !(Json.get body "event").any (·.isOneOf recoveryEvents) then
        invalid "a recovery marker names an event this generation does not define"
      else
        match ["from_sequence", "through_sequence"].find? fun k =>
            !(Json.get body k).any (·.plainInt?.isSome) with
        | some k => invalid ("a recovery marker's " ++ k ++ " must be an integer")
        | none => .ok ()
    else .ok ()

/-- `_read_entry` -/
def readEntry (value : Json) : Except PyError Entry := do
  let entry ← readObject value
  requireMembers entry
  let sequence ← readSequence entry
  let previousHash ← readPrevious entry
  requireInvalid (!(sequence = 1 && previousHash.isSome))
    "a genesis entry cannot name a predecessor"
  requireInvalid (!(1 < sequence && previousHash.isNone))
    "a later entry must name a predecessor"
  let entryHash ← readHash entry
  let scope ← textMember entry "scope"
  let kind ← textMember entry "kind"
  let recordedAt ← textMember entry "recorded_at"
  let connectionId ← textMember entry "connection_id"
  let preimageVersion ← textMember entry "preimage_version"
  let (principal, body) ← readObjects entry
  requirePrincipal principal
  checkBody kind body
  return ⟨scope, kind, recordedAt, connectionId, principal, body, sequence, previousHash,
    entryHash, preimageVersion⟩

/-! ## Hashing -/

mutual

/-- `_principal_document`; none where it raises. -/
def principalDocument (py : Interpreter) : Json → Option Json
  | .obj members =>
    match viaDocuments py members, Json.get members "kind", Json.get members "id" with
    | some via, some kind, some id =>
      some (.obj [(lit "kind", .str (kind.text py)), (lit "id", .str (id.text py)),
        (lit "via", .arr via)])
    | _, _, _ => none
  | _ => none

/-- The documents of `principal.get("via", [])`. -/
def viaDocuments (py : Interpreter) : List (Str × Json) → Option (List Json)
  | [] => some []
  | (key, .arr items) :: rest =>
    if key = lit "via" then principalDocuments py items else viaDocuments py rest
  | (key, _) :: rest => if key = lit "via" then none else viaDocuments py rest

def principalDocuments (py : Interpreter) : List Json → Option (List Json)
  | [] => some []
  | item :: items =>
    match principalDocument py item, principalDocuments py items with
    | some d, some ds => some (d :: ds)
    | _, _ => none

end

/-- `render_instant`; none where it raises. -/
def renderInstant (py : Interpreter) (value : Str) : Option Str := do
  let stamp ← py.fromIso (value.flatMap fun c => if c = 90 then lit "+00:00" else [c])
  let instant ← stamp
  instant.utc.map Civil.text

/-- `preimage`; none where it raises. -/
def preimage (py : Interpreter) (e : Entry) : Option Bytes := do
  let recordedAt ← renderInstant py e.recordedAt
  let principal ← principalDocument py (.obj e.principal)
  preimageOf py Evidence.preimageVersion e.scope e.sequence e.kind recordedAt e.connectionId
    principal (.obj e.body) e.previousHash

/-- `entry_hash_of`; none where it raises one of `_UNAPPLIABLE`. -/
def entryHashOf (py : Interpreter) (e : Entry) : Option Str := (preimage py e).map py.sha256

/-- What `entry_hash_of` hashes of the document of an entry; none where it raises, and where the
body is no object, which `_read_entry` refuses before. -/
def documentPreimage (py : Interpreter) (entry : Members) : Option Bytes := do
  let scope ← Json.get entry "scope"
  let sequence ← (Json.get entry "sequence").bind fun value => (value.toInt py).toOption
  let kind ← Json.get entry "kind"
  let recordedAt ← (Json.get entry "recorded_at").bind fun value => renderInstant py (value.text py)
  let connectionId ← Json.get entry "connection_id"
  let principal ← (Json.get entry "principal").bind (principalDocument py)
  let previousHash ← Json.get entry "previous_hash"
  match Json.get entry "body" with
  | some (.obj body) =>
    preimageOf py Evidence.preimageVersion (scope.text py) sequence (kind.text py) recordedAt
      (connectionId.text py) principal (.obj body)
      (match previousHash with
        | .null => none
        | value => some (value.text py))
  | _ => none

/-! ## Verification -/

/-- `int(entry["body"]["count"])` of a gap. -/
def gapCount (py : Interpreter) (e : Entry) : Except PyError ℤ :=
  match Json.get e.body "count" with
  | some value => value.toInt py
  | none => .error .keyError

/-- The gaps declared, each with its count. -/
def declaredGaps (py : Interpreter) : List Entry → Except PyError (List DeclaredGap)
  | [] => .ok []
  | e :: rest =>
    if e.kind = lit "gap" then do
      let count ← gapCount py e
      let gaps ← declaredGaps py rest
      return ⟨e.sequence, ((Json.get e.body "reason").map (·.text py)).getD [], count⟩ :: gaps
    else declaredGaps py rest

/-- The grade an entry declares: one this generation does not know counts as none. -/
def declaredGrade (py : Interpreter) (e : Entry) : Option Str :=
  if e.kind = lit "grade" then
    (Json.get e.body "grade").map fun g =>
      if grades.any (fun k => g.text py == lit k) then g.text py else lit "unverified"
  else none

/-- `_grades` -/
def gradesOf (py : Interpreter) (entries : List Entry) (lowered : List Str) :
    List ConnectionGrade :=
  let take := fun (g : Grading) (e : Entry) => g.take e.connectionId (declaredGrade py e)
  (entries.foldl take ⟨[], []⟩).answer lowered.contains

/-- `_verdict` -/
def verdictOf (py : Interpreter) (entries : List Entry) (scope : Str) (fromSequence : ℤ)
    (lowered : List Str) (told : Report Entry) : Except PyError ChainVerdict := do
  let gaps ← declaredGaps py entries
  return {
    scope := scope
    condition := told.condition
    fromSequence := fromSequence
    toSequence := entries.getLast?.map Entry.sequence
    upTo := if told.condition = .intact then entries.getLast?.map Entry.sequence else none
    sequence := told.sequence
    expected := told.expected
    found := told.found
    version := told.version
    coversAnEntry := !entries.isEmpty
    declaredGaps := gaps
    grades := gradesOf py told.graded lowered }

/-- What `verify_chain` reads of an entry. -/
def entryView (py : Interpreter) : Chain.View Entry where
  sequence := Entry.sequence
  known := fun e => e.preimageVersion == Evidence.preimageVersion
  recomputed := entryHashOf py
  hash := Entry.entryHash
  previous := Entry.previousHash

/-- `verify_chain` over entries that were read. -/
def verifyRead (py : Interpreter) (read : List Entry) (scope : Str) (fromSequence : ℤ)
    (toSequence : Option ℤ) (lowered : List Str) : Except PyError ChainVerdict :=
  if !Plane.scopePattern.fullmatch scope then invalid "scope does not match the contract"
  else if fromSequence < 1 ∨ toSequence.any (· < fromSequence) then
    invalid "the requested range is invalid"
  else if read.any (fun e => e.scope != scope) ∨ outOfOrder Entry.sequence read then
    verdictOf py read scope fromSequence lowered ⟨.unverifiable, none, none, none, none, []⟩
  else
    verdictOf py read scope fromSequence lowered
      (report (entryView py) Entry.preimageVersion read
        (Chain.scan (entryView py) fromSequence toSequence read))

/-- `verify_chain` -/
def verifyChain (py : Interpreter) (entries : List Json) (scope : Str) (fromSequence : ℤ)
    (toSequence : Option ℤ) (lowered : List Str) : Except PyError ChainVerdict :=
  if !Plane.scopePattern.fullmatch scope then invalid "scope does not match the contract"
  else if fromSequence < 1 ∨ toSequence.any (· < fromSequence) then
    invalid "the requested range is invalid"
  else do
    let read ← entries.mapM readEntry
    verifyRead py read scope fromSequence toSequence lowered

/-! ## Manifests -/

def manifestV1 : Str := lit "sayfirst-control-plane/evidence-export/v1"
def manifestV2 : Str := lit "sayfirst-control-plane/evidence-export/v2"
def manifestV3 : Str := lit "sayfirst-control-plane/evidence-export/v3"
def manifestVersions : List Str := [manifestV1, manifestV2, manifestV3]

/-- `document.get(key)` as a member of another document. -/
def orNull (value : Option Json) : Json := value.getD .null

/-- The document `manifest_hash` takes its hash over, under a recipe it knows. -/
def manifestDocument (py : Interpreter) (bundle verification : Members) (entries : List Json)
    (version : Str) : Members :=
  let hashes := entries.map fun e =>
    match e with
    | .obj entry => orNull (Json.get entry "entry_hash")
    | _ => .null
  let common := [(lit "version", .str version), (lit "scope", orNull (Json.get bundle "scope")),
    (lit "from_sequence", orNull (Json.get bundle "from_sequence")),
    (lit "to_sequence", orNull (Json.get bundle "to_sequence")),
    (lit "contract_version", orNull (Json.get bundle "contract_version")),
    (lit "entry_hashes", .arr hashes)]
  if version = manifestV2 then common ++ [(lit "verdict", .obj verification)]
  else
    common ++
      [(lit "condition", .str ((orNull (Json.get verification "condition")).text py)),
        (lit "up_to", match Json.get verification "up_to" with
          | some (.int n) => .int n
          | _ => .null)]

/-- `manifest_hash`. Entries and verification were read before it is asked. -/
def manifestHash (py : Interpreter) (bundle verification : Members) (entries : List Json)
    (version : Str) : Str :=
  if version = manifestV3 then
    py.sha256 (ascii (Json.canonical py
      (.obj (bundle.filter fun m => m.1 != lit "manifest_hash"))))
  else
    py.sha256 (ascii (Json.canonical py
      (.obj (manifestDocument py bundle verification entries version))))

end SayFirst.Contract
