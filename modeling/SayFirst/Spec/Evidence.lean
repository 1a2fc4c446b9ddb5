import SayFirst.Spec.ChainRecipe
import SayFirst.Spec.Policy

/-!
# The evidence chain (`domain/evidence_chain.py`)

An `EvidenceEntry` carries the proof that `__post_init__` accepted it. `verify`
answers where a chain is intact, broken, missing an entry or not verifiable.
-/

namespace SayFirst.Plane

open Py Evidence

abbrev Body := List (Str × Json)

def entryKinds : List String := ["effect", "grade", "gap", "composition", "recovery"]
def recoveryEvents : List String := ["baseline", "clean_stop", "unclean_stop"]
def gapAccounting : List String := ["physical_record", "decision", "event"]
def daemonConnection : Str := lit "daemon"

/-- `_REASONS` -/
def publishedReasons : List String :=
  ["policy_allows", "policy_denies", "policy_absent", "policy_requires_review",
    "capability_unknown", "approval_granted", "approval_rejected"]

/-- `EFFECT_DECISION_MEMBERS` -/
def effectDecisionMembers : List String :=
  ["reason", "rule_id", "arguments_digest", "correlation", "correlation_source",
    "principal_references", "evaluation_recipe", "decision_position"]

/-- `_BODY_MEMBERS` -/
def bodyMembers (kind : Str) : List String :=
  if kind = lit "effect" then
    ["capability", "decision_id", "outcome", "decided_at", "policy_version", "capture",
      "recording_epoch"] ++ effectDecisionMembers
  else if kind = lit "grade" then
    ["grade", "basis", "evaluated_at", "paths_inspected", "recording_epoch"]
  else if kind = lit "gap" then
    ["reason", "count", "first_at", "last_at", "kinds", "decision_ids", "decision_positions",
      "accounting", "recording_epoch"]
  else if kind = lit "composition" then ["providers", "recording_epoch"]
  else
    ["event", "epoch_id", "from_sequence", "through_sequence", "lost_event_count",
      "possibly_lost_kinds", "coverage", "store_id", "first_decision_position",
      "first_covered_sequence", "legacy_effects_without_authority", "established_at",
      "recording_epoch"]

/-- `_BODY_REQUIRED` -/
def bodyRequired (kind : Str) : List String :=
  if kind = lit "effect" then
    ["capability", "decision_id", "outcome", "decided_at", "policy_version"]
  else if kind = lit "grade" then ["grade", "basis", "evaluated_at", "paths_inspected"]
  else if kind = lit "gap" then ["reason", "count", "first_at", "last_at", "kinds"]
  else if kind = lit "composition" then ["providers"]
  else ["event", "recording_epoch"]

/-- `_RECOVERY_REQUIRED` -/
def recoveryRequired (event : Json) : List String :=
  if event.eqText "baseline" then
    ["store_id", "first_decision_position", "first_covered_sequence",
      "legacy_effects_without_authority", "established_at"]
  else if event.eqText "clean_stop" then ["epoch_id", "from_sequence", "through_sequence"]
  else
    ["epoch_id", "from_sequence", "through_sequence", "lost_event_count", "possibly_lost_kinds",
      "coverage"]

/-- `^(?:user|group):.+$` -/
def referencePattern : Pattern :=
  .seq (.alt (.text "user:") (.text "group:"))
    (.seq (.cls (· != 10)) (.star (.cls (· != 10))))

/-! ## Body rules -/

namespace EvidenceBody

abbrev Check := Except PyError Unit

def refuse (message : String) : Check := .error (.valueError message)

/-- `body[key]` -/
def item (body : Body) (key : String) : Except PyError Json :=
  match Json.get body key with
  | some value => .ok value
  | none => .error .keyError

/-- The members of the body that are among `keys`. -/
def present (body : Body) (keys : List String) : List String :=
  keys.filter fun k => (Json.get body k).isSome

def has (body : Body) (key : String) : Bool := (Json.get body key).isSome

/-- A set lookup, which raises on a list or an object. -/
def inSet (value : Json) (texts : List String) : Except PyError Bool :=
  if value.isUnhashable then .error .typeError else .ok (value.isOneOf texts)

/-- `set(document) == {keys}` -/
def exactly (document : Body) (keys : List String) : Bool :=
  document.all (fun m => keys.any fun k => m.1 == lit k) && keys.all (has document)

/-- `if not ok: raise ValueError(message)` -/
def hold (ok : Bool) (message : String) : Check := require ok (.valueError message)

/-- `_validate_capture` -/
def validateCapture (value : Json) : Check :=
  match value with
  | .obj document =>
    match Json.get document "captured" with
    | some (.bool true) => do
      let required := ["captured", "provider", "bytes", "truncated", "content"]
      hold (document.all (fun m => (required ++ ["encoding"]).any fun k => m.1 == lit k) &&
        required.all (has document)) "captured content has unknown or missing members"
      let provider ← item document "provider"
      let bytes ← item document "bytes"
      let truncated ← item document "truncated"
      let content ← item document "content"
      hold (provider.isText && bytes.int?.any (fun n => 0 ≤ n && n ≤ 65536) &&
        (match truncated with | .bool _ => true | _ => false) && content.str?.isSome &&
        (Json.get document "encoding").all (·.eqText "base64")) "captured content is invalid"
    | some (.bool false) => do
      let provider := Json.get document "provider"
      hold (exactly document ["captured", "provider", "withheld"] &&
        provider.any (·.str?.isSome)) "withheld capture is invalid"
      let withheld ← item document "withheld"
      hold (provider.any (·.isText) && withheld.eqText "redaction_failed")
        "withheld capture is invalid"
    | _ => refuse "capture must say whether content was captured"
  | _ => refuse "capture must be an object"

/-- `_validate_position` -/
def validatePosition (value : Json) : Check :=
  match value with
  | .obj document =>
    if exactly document ["store_id", "position"] &&
        (Json.get document "store_id").any (·.isText) &&
        (Json.get document "position").any (·.plainInt?.any (1 ≤ ·)) then .ok ()
    else refuse "a decision position names a store and a positive position"
  | _ => refuse "a decision position names a store and a positive position"

/-- The text of each item, when every one is a string. -/
def texts (items : List Json) : Option (List Str) := items.mapM Json.str?

/-- Null, or what `ok` accepts. -/
def nullOr (ok : Json → Bool) : Json → Bool
  | .null => true
  | other => ok other

/-- The references are texts of references, sorted and unique. -/
def sortedReferences : Json → Bool
  | .arr items => (texts items).any fun references =>
      references.all referencePattern.fullmatch && references == sortedSet references
  | _ => false

/-- `_validate_copied_decision` -/
def validateCopiedDecision (body : Body) : Check :=
  if (present body effectDecisionMembers).isEmpty then .ok ()
  else do
    hold ((present body effectDecisionMembers).length == effectDecisionMembers.length)
      "an effect carries the copied decision facts together or not at all"
    let known ← item body "reason" >>= fun reason => inSet reason publishedReasons
    hold known "effect reason is outside the published enumeration"
    let ruleId ← item body "rule_id"
    hold (nullOr Json.isText ruleId) "effect rule_id must be a non-empty string or null"
    let digest ← item body "arguments_digest"
    hold (nullOr (·.str?.any digestPattern.fullmatch) digest)
      "effect arguments_digest must be a sha256 digest or null"
    let correlation ← item body "correlation"
    hold (nullOr (·.str?.any (·.length ≤ 128)) correlation)
      "effect correlation must be a string of at most 128 characters or null"
    let source ← item body "correlation_source"
    hold (source.eqText (match correlation with | .null => "absent" | _ => "boundary_supplied"))
      "effect correlation_source must say who chose the correlation"
    let references ← item body "principal_references"
    hold (sortedReferences references) "effect principal_references must be sorted unique references"
    let recipe ← item body "evaluation_recipe"
    hold recipe.isText "effect evaluation_recipe must be a non-empty string"
    item body "decision_position" >>= validatePosition

/-- The store and position of a validated decision position. -/
def positionOf (value : Json) : Str × ℤ :=
  match value with
  | .obj document =>
    ((Json.getStr document "store_id").getD [],
      ((Json.get document "position").bind Json.int?).getD 0)
  | _ => ([], 0)

/-- Tuple order. -/
def positionLe (a b : Str × ℤ) : Bool := if a.1 = b.1 then a.2 ≤ b.2 else Str.le a.1 b.1

/-- The identities and positions a gap names. -/
def validateNames (body : Body) (identities positions : List Json) : Check := do
  hold (1 ≤ identities.length && identities.length ≤ 8192 && identities.length == positions.length)
    "decision_ids and decision_positions pair one to one, bounded"
  hold (identities.all Json.isText) "a decision id must be a non-empty string"
  hold ((texts identities).getD []).Nodup "a decision id is named twice"
  positions.forM validatePosition
  hold (positions.map positionOf == (positions.map positionOf).insertionSort (positionLe · ·))
    "named losses are sorted by position"
  let count ← item body "count"
  hold (!(Json.get body "accounting").any (·.eqText "decision") || count.eqInt identities.length)
    "a decision-accounted gap counts the decisions it names"

/-- `_validate_named_losses` -/
def validateNamedLosses (body : Body) : Check := do
  hold ((Json.get body "accounting").all (·.isOneOf gapAccounting)) "gap accounting is unknown"
  if !has body "decision_ids" && !has body "decision_positions" then .ok ()
  else do
    hold (has body "decision_ids" && has body "decision_positions")
      "a gap names its decisions by identity and by position together"
    let identities ← item body "decision_ids"
    let positions ← item body "decision_positions"
    match identities, positions with
    | .arr identities, .arr positions => validateNames body identities positions
    | _, _ => refuse "decision_ids and decision_positions must be lists"

/-- A member that must be a non-empty string. -/
def textMember (body : Body) (what key : String) : Check := do
  let value ← item body key
  hold value.isText (what ++ key ++ " must be a non-empty string")

/-- What was captured, when the body says. -/
def captureMember (body : Body) : Check :=
  match Json.get body "capture" with
  | some capture => validateCapture capture
  | none => .ok ()

/-- The branch of `_validate_body` for an effect. -/
def validateEffect (body : Body) : Check := do
  ["capability", "decision_id", "decided_at", "policy_version"].forM (textMember body "effect ")
  let known ← item body "outcome" >>= fun outcome => inSet outcome ["allow", "deny", "suspend"]
  hold known "effect outcome is unknown"
  captureMember body
  validateCopiedDecision body

/-- The branch of `_validate_body` for a grade. -/
def validateGrade (body : Body) : Check := do
  let grade ← item body "grade"
  let known ← inSet grade ["unverified", "observability", "evidence"]
  hold known "grade is unknown"
  let basis ← item body "basis"
  let known ← inSet basis ["caller_can_write", "caller_cannot_write", "access_not_established"]
  hold known "grade basis is unknown"
  let inspected ← item body "paths_inspected"
  hold (inspected.int?.any (0 ≤ ·)) "paths_inspected must be non-negative"
  textMember body "" "evaluated_at"

/-- `kinds` of a gap counts known kinds, none where the gap is torn, else `count` in all. -/
def validateKinds (reason count : Json) : Json → Check
  | .obj kinds => do
    hold (kinds.all fun m => entryKinds.any (fun k => m.1 == lit k) && m.2.int?.any (1 ≤ ·))
      "gap kinds must count known evidence kinds"
    if reason.eqText "torn" then hold kinds.isEmpty "a torn gap names no kind"
    else
      hold (count.int? == some ((kinds.map fun m => m.2.int?.getD 0).sum))
        "gap kind counts must equal the total count"
  | _ => refuse "gap kinds must be an object"

/-- The branch of `_validate_body` for a gap. -/
def validateGap (body : Body) : Check := do
  let reason ← item body "reason"
  hold (reason.isOneOf gapReasons) "gap reason is unknown"
  let count ← item body "count"
  hold (count.int?.any (1 ≤ ·)) "gap count must be positive"
  item body "kinds" >>= validateKinds reason count
  ["first_at", "last_at"].forM (textMember body "gap ")
  validateNamedLosses body

/-- A sequence a recovery marker names, when it names it. -/
def sequenceMember (body : Body) (key : String) : Check :=
  hold ((Json.get body key).all (·.plainInt?.any (1 ≤ ·)))
    ("recovery " ++ key ++ " must be a positive integer")

/-- What an unclean stop says of what was lost. -/
def validateUnclean (body : Body) : Check := do
  let lost ← item body "lost_event_count"
  let coverage ← item body "coverage"
  hold ((match lost with | .null => true | _ => false) && coverage.eqText "unknown")
    "an unclean stop inventories nothing and covers unknown"
  let kinds ← item body "possibly_lost_kinds"
  match kinds with
  | .arr kinds =>
    if kinds.any (·.isUnhashable) then .error .typeError
    else
      hold (["effect", "grade", "composition", "gap"].all fun k => kinds.any (·.eqText k))
        "an unclean stop names every kind it may have lost"
  | _ => refuse "an unclean stop names every kind it may have lost"

/-- What a baseline begins with. -/
def validateBaseline (body : Body) : Check := do
  let first ← item body "first_decision_position"
  hold (first.eqInt 1) "a baseline begins at position one"
  let legacy ← item body "legacy_effects_without_authority"
  hold legacy.int?.isSome "a baseline counts the legacy effects without authority"

/-- `_validate_recovery` -/
def validateRecovery (body : Body) : Check := do
  let event ← item body "event"
  hold (event.isOneOf recoveryEvents) "recovery event is unknown"
  hold ((recoveryRequired event).all (has body))
    ("a " ++ ((recoveryEvents.find? event.eqText).getD "") ++ " marker lacks a required member")
  ["from_sequence", "through_sequence", "first_covered_sequence"].forM (sequenceMember body)
  if event.eqText "unclean_stop" then validateUnclean body
  else if event.eqText "baseline" then validateBaseline body
  else .ok ()

/-- One provider of a composition. -/
def validateProvider : Json → Check
  | .obj document => do
    hold (exactly document ["interface", "version", "provider"])
      "a composition provider has unknown members"
    let interface ← item document "interface"
    let provider ← item document "provider"
    let version ← item document "version"
    hold (interface.isText && provider.isText && version.int?.any (1 ≤ ·))
      "a composition provider is invalid"
  | _ => refuse "a composition provider has unknown members"

/-- The branch of `_validate_body` for a composition. -/
def validateComposition (body : Body) : Check := do
  let providers ← item body "providers"
  match providers with
  | .arr providers => providers.forM validateProvider
  | _ => refuse "composition providers must be a list"

/-- `_validate_body` -/
def validateBody (kind : Str) (body : Body) : Check := do
  hold ((Json.get body "recording_epoch").all Json.isText)
    "recording_epoch must be a non-empty string"
  if kind = lit "effect" then validateEffect body
  else if kind = lit "recovery" then validateRecovery body
  else if kind = lit "grade" then validateGrade body
  else if kind = lit "gap" then validateGap body
  else validateComposition body

end EvidenceBody

/-! ## Records and entries -/

/-- `Principal`, with whom it acts for. -/
inductive EvidencePrincipal where
  | mk (kind id : Str) (via : List EvidencePrincipal)

namespace EvidencePrincipal

/-- `Principal.__post_init__`, through the whole delegation. -/
def admitted : EvidencePrincipal → Bool
  | mk kind id via => !kind.isEmpty && !id.isEmpty && admittedAll via
where
  admittedAll : List EvidencePrincipal → Bool
    | [] => true
    | p :: ps => p.admitted && admittedAll ps

/-- `principal_to_document` -/
def toDocument : EvidencePrincipal → Json
  | mk kind id via => .obj [(lit "kind", .str kind), (lit "id", .str id),
      (lit "via", .arr (toDocuments via))]
where
  toDocuments : List EvidencePrincipal → List Json
    | [] => []
    | p :: ps => p.toDocument :: toDocuments ps

end EvidencePrincipal

structure EvidenceFields where
  scope : Str
  kind : Str
  recordedAt : Instant
  connectionId : Str
  principal : EvidencePrincipal
  body : Body

/-- `EvidenceRecord.__post_init__`. `recorded_at` is an instant, so it is offset-aware. -/
def EvidenceFields.validate (r : EvidenceFields) : EvidenceBody.Check := do
  EvidenceBody.hold (!r.scope.isEmpty) "scope is required"
  EvidenceBody.hold (entryKinds.any fun k => r.kind == lit k) "unknown evidence kind"
  EvidenceBody.hold (!r.connectionId.isEmpty) "connection_id is required"
  EvidenceBody.hold r.principal.admitted "principal kind and id are required"
  EvidenceBody.hold (r.body.all fun m => (bodyMembers r.kind).any fun k => m.1 == lit k)
    "evidence body has an unknown member"
  EvidenceBody.hold ((bodyRequired r.kind).all (EvidenceBody.has r.body))
    "evidence body lacks a required member"
  EvidenceBody.validateBody r.kind r.body

/-- A record the dataclass accepted. -/
structure EvidenceRecord extends EvidenceFields where
  held : toEvidenceFields.validate = .ok ()

/-- What a chain adds to a record. -/
structure EntryFields extends EvidenceFields where
  sequence : ℤ
  previousHash : Option Str
  entryHash : Str
  preimageVersion : Str

/-- `EvidenceEntry.__post_init__` -/
def EntryFields.validate (e : EntryFields) : EvidenceBody.Check := do
  e.toEvidenceFields.validate
  EvidenceBody.hold (1 ≤ e.sequence) "sequence is before the first sequence"
  EvidenceBody.hold (!(e.sequence = 1 && e.previousHash.isSome))
    "a genesis entry cannot name a predecessor"
  EvidenceBody.hold (!(1 < e.sequence && e.previousHash.isNone))
    "a later entry must name a predecessor"
  EvidenceBody.hold (e.previousHash.all hashPattern.fullmatch)
    "previous_hash is not a lowercase digest"
  EvidenceBody.hold (hashPattern.fullmatch e.entryHash) "entry_hash is not a lowercase digest"

/-- An entry the dataclass accepted. -/
structure EvidenceEntry extends EntryFields where
  held : toEntryFields.validate = .ok ()

/-- A list of components, as the control plane records one. -/
def sampleEntry : EvidenceEntry where
  scope := lit "local"
  kind := lit "composition"
  recordedAt := ⟨some ⟨2026, 1, 5, 10, 0, 0, Civil.sample.held⟩⟩
  connectionId := lit "daemon"
  principal := .mk (lit "service") (lit "daemon") []
  body := [(lit "providers", .arr [])]
  sequence := 1
  previousHash := none
  entryHash := lit "d43fe495f62cb6599d21190057e56be2f97318c66bb40139d93f88595d2d5ca9"
  preimageVersion := Evidence.preimageVersion
  held := by decide +kernel

/-! ## Hashing -/

/-- `_instant` -/
def renderInstant (i : Instant) : Option Str := i.utc.map Civil.text

/-- `preimage`; none where encoding or rendering raises. -/
def preimage (py : Interpreter) (e : EntryFields) : Option Bytes := do
  let recordedAt ← renderInstant e.recordedAt
  preimageOf py preimageVersion e.scope e.sequence e.kind recordedAt e.connectionId
    e.principal.toDocument (.obj e.body) e.previousHash

/-- `_hash` -/
def entryHashOf (py : Interpreter) (e : EntryFields) : Option Str :=
  (preimage py e).map py.sha256

/-- `entry_to_document` -/
def entryToDocument (e : EntryFields) : Option (List (Str × Json)) := do
  let recordedAt ← renderInstant e.recordedAt
  return [(lit "scope", .str e.scope), (lit "kind", .str e.kind),
    (lit "recorded_at", .str recordedAt), (lit "connection_id", .str e.connectionId),
    (lit "principal", e.principal.toDocument), (lit "body", .obj e.body),
    (lit "sequence", .int e.sequence), (lit "previous_hash", .ofOption .str e.previousHash),
    (lit "entry_hash", .str e.entryHash), (lit "preimage_version", .str e.preimageVersion)]

/-! ## Verification -/

/-- `_grades` -/
def gradesOf (entries : List EvidenceEntry) (gradesBefore : List (Str × Str)) :
    List ConnectionGrade :=
  let take := fun (g : Grading) (e : EvidenceEntry) => g.take e.connectionId
    (if e.kind = lit "grade" then (Json.get e.body "grade").bind Json.str? else none)
  (entries.foldl take ⟨gradesBefore, []⟩).answer fun _ => false

/-- `_verdict` -/
def verdictOf (entries : List EvidenceEntry) (scope : Str) (fromSequence : ℤ)
    (gradesBefore : List (Str × Str)) (told : Report EvidenceEntry) : ChainVerdict where
  scope := scope
  condition := told.condition
  fromSequence := fromSequence
  toSequence := entries.getLast?.map (·.sequence)
  upTo := if told.condition = .intact then entries.getLast?.map (·.sequence) else none
  sequence := told.sequence
  expected := told.expected
  found := told.found
  version := told.version
  coversAnEntry := !entries.isEmpty
  declaredGaps := (entries.filter fun e => e.kind = lit "gap").map fun e =>
    ⟨e.sequence, (Json.getStr e.body "reason").getD [],
      ((Json.get e.body "count").bind Json.int?).getD 0⟩
  grades := gradesOf told.graded gradesBefore

/-- What `verify` reads of an entry. -/
def entryView (py : Interpreter) : Chain.View EvidenceEntry where
  sequence := fun e => e.sequence
  known := fun e => e.preimageVersion == preimageVersion
  recomputed := fun e => entryHashOf py e.toEntryFields
  hash := fun e => e.entryHash
  previous := fun e => e.previousHash

/-- `verify` -/
def verify (py : Interpreter) (entries : List EvidenceEntry) (scope : Str) (fromSequence : ℤ)
    (toSequence : Option ℤ) (gradesBefore : List (Str × Str)) : Except PyError ChainVerdict :=
  if scope.isEmpty then .error (.invalidEvidence "scope is required")
  else if fromSequence < 1 then
    .error (.invalidEvidence "from_sequence is before the first sequence")
  else if toSequence.any (· < fromSequence) then
    .error (.invalidEvidence "to_sequence is before from_sequence")
  else if entries.any (fun e => e.scope != scope) then
    .error (.invalidEvidence "entries from another scope cannot be verified here")
  else if outOfOrder (fun e : EvidenceEntry => e.sequence) entries then
    .error (.invalidEvidence "entries are out of sequence order")
  else
    .ok (verdictOf entries scope fromSequence gradesBefore
      (report (entryView py) (·.preimageVersion) entries
        (Chain.scan (entryView py) fromSequence toSequence entries)))

end SayFirst.Plane
