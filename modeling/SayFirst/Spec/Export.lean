import SayFirst.Spec.Recipes
import SayFirst.Spec.Retrospective

/-!
# The offline verifier (`sayfirst_contract/evidence.py`)

`verifyExport` reads one exported bundle, checks its chain, its manifest, its
attached policies and its recovery markers, re-derives every effect of the
trusted part and folds all of it into one verdict.
-/

namespace SayFirst.Contract

open Py Evidence
open SayFirst.Plane (TomlLib)

inductive ArchiveState where
  | present
  | absent
  | damaged
  | unknown
  deriving DecidableEq, Repr

structure EntryRederivation where
  sequence : ℤ
  decisionId : Str
  evaluationRecipe : Option Str
  verdict : Rederivation
  cause : Option String
  expected : Option Triple
  deriving DecidableEq

structure ExportVerdict where
  scope : Option Str
  chain : Option ChainVerdict
  manifestVersion : Option Str
  manifestHashRecomputes : Option Bool
  policyVersions : List (Str × ArchiveState)
  evaluationRecipes : List Str
  rederivations : List EntryRederivation
  rederivedDecisionIds : List Str
  confirmedDecisionIds : List Str
  declaredMissingDecisionIds : List Str
  coverage : String
  fromSequence : Option ℤ
  toSequence : Option ℤ
  nextFrom : Option ℤ
  issues : List Str
  overall : Rederivation
  assertedGrades : List (Str × Str)
  deriving DecidableEq

/-- `_invalid` -/
def invalidVerdict (scope : Option Str) (reason : Str) : ExportVerdict where
  scope := scope
  chain := none
  manifestVersion := none
  manifestHashRecomputes := none
  policyVersions := []
  evaluationRecipes := []
  rederivations := []
  rederivedDecisionIds := []
  confirmedDecisionIds := []
  declaredMissingDecisionIds := []
  coverage := "unknown"
  fromSequence := none
  toSequence := none
  nextFrom := none
  issues := [lit "bundle_invalid", reason]
  overall := .unverifiable
  assertedGrades := []

/-! ## Opening the bundle -/

/-- `_optional_int` -/
def optionalInt : Option Json → Except PyError (Option ℤ)
  | none => .ok none
  | some .null => .ok none
  | some (.int n) =>
    if n < 1 then invalid "a sequence member must be a positive integer or null" else .ok (some n)
  | some _ => invalid "a sequence member must be a positive integer or null"

/-- `_verified_context`, on a list. -/
def verifiedItems (py : Interpreter) (items : List Json) (last : Option Entry) (scope : Str) :
    Except PyError (List Entry × Bool) :=
  if items.isEmpty then .ok ([], false)
  else
    match last with
    | none => .ok ([], true)
    | some last =>
      match items.mapM readEntry with
      | .error (.invalidBundle _) => .ok ([], true)
      | .error raised => .error raised
      | .ok [] => .ok ([], true)
      | .ok (head :: read) =>
        if head.sequence ≠ last.sequence + 1 ∨ head.previousHash ≠ some last.entryHash then
          .ok ([], true)
        else do
          let verdict ← verifyRead py (head :: read) scope head.sequence none []
          return if verdict.condition = .intact then (head :: read, false) else ([], true)

/-- `_verified_context`: the recovery entries behind the last one, and whether they failed. -/
def verifiedContext (py : Interpreter) (context : Option Json) (last : Option Entry)
    (scope : Str) : Except PyError (List Entry × Bool) :=
  match context with
  | none => .ok ([], false)
  | some .null => .ok ([], false)
  | some (.arr items) => verifiedItems py items last scope
  | some _ => invalid "recovery_context must be a list"

/-- What the first checks of `verify_export` read out of a bundle. -/
structure Shape where
  fromSequence : ℤ
  toSequence : Option ℤ
  nextFrom : Option ℤ
  entriesRaw : List Json
  verification : Members
  manifest : Str
  entries : List Entry
  attachments : Option Members

/-- `policy_versions`: an object, or nothing. -/
def readAttachments : Option Json → Except PyError (Option Members)
  | none => .ok none
  | some .null => .ok none
  | some (.obj attachments) => .ok (some attachments)
  | some _ => invalid "policy_versions must be an object"

/-- The checks of `verify_export` before the recovery context. -/
def readBundle (bundle : Members) : Except PyError Shape := do
  let some fromSequence ← optionalInt (Json.get bundle "from_sequence")
    | invalid "from_sequence is required"
  let toSequence ← optionalInt (Json.get bundle "to_sequence")
  let nextFrom ← optionalInt (Json.get bundle "next_from")
  let some (.arr entriesRaw) := Json.get bundle "entries"
    | invalid "entries must be a list and verification an object"
  let some (.obj verification) := Json.get bundle "verification"
    | invalid "entries must be a list and verification an object"
  let some (.str manifest) := Json.get bundle "manifest_hash" | invalid "manifest_hash is required"
  let entries ← entriesRaw.mapM readEntry
  requireInvalid (entries.isEmpty || toSequence == entries.getLast?.map Entry.sequence)
    "to_sequence must name the last entry the bundle carries"
  let attachments ← readAttachments (Json.get bundle "policy_versions")
  return ⟨fromSequence, toSequence, nextFrom, entriesRaw, verification, manifest, entries,
    attachments⟩

/-- A bundle with the recovery entries behind it. -/
structure Opened extends Shape where
  context : List Entry
  contextUnverified : Bool

def openBundle (py : Interpreter) (bundle : Members) (scope : Str) : Except PyError Opened := do
  let b ← readBundle bundle
  let (context, contextUnverified) ←
    verifiedContext py (Json.get bundle "recovery_context") b.entries.getLast? scope
  return { b with context, contextUnverified }

/-! ## Chain, manifest and markers -/

/-- `_trusted` -/
def trustedCount (entries : List Entry) (chain : ChainVerdict) : ℕ :=
  if chain.condition = .intact then entries.length
  else
    match chain.sequence with
    | none => 0
    | some s => entries.countP fun e => e.sequence < s

/-- The recipe the manifest recomputes under, whether it does, and what is wrong with it. -/
def checkManifest (py : Interpreter) (bundle : Members) (b : Shape) :
    Option Str × Option Bool × List Str :=
  let recomputes := fun version => manifestHash py bundle b.verification b.entriesRaw version == b.manifest
  let judged := fun (version : Option Str) (ok : Bool) =>
    (version, some ok, if ok then [] else [lit "manifest_mismatch"])
  match orNull (Json.get bundle "manifest_version") with
  | .null =>
    if recomputes manifestV1 then judged (some manifestV1) true
    else if recomputes manifestV2 then judged (some manifestV2) true
    else judged none false
  | .str named =>
    if manifestVersions.contains named then judged (some named) (recomputes named)
    else (none, none, [lit "manifest_recipe_unsupported"])
  | _ => (none, none, [lit "manifest_recipe_unsupported"])

/-- The span a recovery marker covers. -/
def markerSpan (e : Entry) : ℤ × ℤ :=
  (((Json.get e.body "from_sequence").bind Json.plainInt?).getD 0,
    ((Json.get e.body "through_sequence").bind Json.plainInt?).getD 0)

def isCleanStop (e : Entry) : Bool := (Json.get e.body "event").any (·.eqText "clean_stop")

/-- `_epochs` -/
def epochs (markers : List Entry) : List (ℤ × ℤ) × List (ℤ × ℤ) :=
  ((markers.filter isCleanStop).map markerSpan,
    (markers.filter fun e => !isCleanStop e).map markerSpan)

/-- `_within` -/
def within (sequence : ℤ) (spans : List (ℤ × ℤ)) : Bool :=
  spans.any fun s => s.1 ≤ sequence && sequence ≤ s.2

/-! ## Policies -/

/-- `_policy_bytes` -/
def policyBytes (py : Interpreter) (value : Json) : Except PyError (ArchiveState × Option Bytes) :=
  match value with
  | .obj state =>
    let named := orNull (Json.get state "state")
    if named.isUnhashable then .error .typeError
    else if named.eqText "absent" then .ok (.absent, none)
    else if named.eqText "damaged" then .ok (.damaged, none)
    else if named.eqText "unknown" then .ok (.unknown, none)
    else if named.eqText "present" then
      match Json.get state "content" with
      | some (.str content) =>
        match py.b64decode content with
        | some raw => .ok (.present, some raw)
        | none => invalid "a policy attachment is not base64"
      | _ => invalid "a present policy attachment carries its content"
    else invalid "a policy attachment must carry a published state"
  | _ => invalid "a policy attachment must carry a published state"

/-- What the bundle holds for a policy version: its bytes, or why it has none. -/
structure Attached where
  version : Str
  state : ArchiveState
  content : Except String Bytes
  /-- The map did not answer for the version. -/
  incomplete : Bool

/-- What is kept of an attachment that was read. -/
def keepAttachment (py : Interpreter) (version : Str) :
    ArchiveState × Option Bytes → Except PyError Attached
  | (.present, some raw) =>
    if !Plane.digestPattern.fullmatch version || lit "sha256:" ++ py.sha256 raw != version then
      .ok ⟨version, .damaged, .error "policy_damaged", true⟩
    else .ok ⟨version, .present, .ok raw, false⟩
  | (.present, none) => .error .assertionError
  | (.absent, _) => .ok ⟨version, .absent, .error "policy_absent", false⟩
  | (.damaged, _) => .ok ⟨version, .damaged, .error "policy_damaged", false⟩
  | (.unknown, _) => .ok ⟨version, .unknown, .error "policy_state_unknown", false⟩

/-- The attachment of one required version. -/
def attach (py : Interpreter) (attachments : Option Members) (version : Str) :
    Except PyError Attached :=
  match attachments.bind (·.lookup version) with
  | none => .ok ⟨version, .absent, .error "policy_absent", true⟩
  | some .null => .ok ⟨version, .absent, .error "policy_absent", true⟩
  | some value => policyBytes py value >>= keepAttachment py version

/-! ## Re-derivation -/

def isEffect (e : Entry) : Bool := e.kind == lit "effect"

/-- `str(entry["body"][key])` of a member every effect has. -/
def bodyText (py : Interpreter) (e : Entry) (key : String) : Str := (orNull (Json.get e.body key)).text py

/-- `body[key] if isinstance(body.get(key), str) else None` -/
def bodyStr (body : Members) (key : String) : Option Str := Json.getStr body key

/-- `_recorded` -/
def recorded (py : Interpreter) (body : Members) (scope : Str) : RecordedDecision where
  scope := scope
  capability := (orNull (Json.get body "capability")).text py
  principalReferences := match Json.get body "principal_references" with
    | some (.arr items) => some (items.map (·.text py))
    | _ => none
  argumentsDigest := bodyStr body "arguments_digest"
  outcome := (orNull (Json.get body "outcome")).text py
  reason := (orNull (Json.get body "reason")).text py
  ruleId := bodyStr body "rule_id"
  evaluationRecipe := bodyStr body "evaluation_recipe"

/-- What one effect re-derives to. -/
def rederiveEntry (py : Interpreter) (toml : TomlLib) (scope : Str) (lastTrusted : ℤ)
    (attached : List Attached) (e : Entry) : Except PyError EntryRederivation :=
  let answer (verdict : Rederivation) (cause : Option String) (expected : Option Triple) :
      EntryRederivation :=
    ⟨e.sequence, bodyText py e "decision_id", bodyStr e.body "evaluation_recipe", verdict, cause,
      expected⟩
  if lastTrusted < e.sequence then .ok (answer .unverifiable (some "entry_untrusted") none)
  else
    match attached.find? (·.version == bodyText py e "policy_version") with
    | none => .error .keyError
    | some held =>
      match held.content with
      | .error cause => .ok (answer .unverifiable (some cause) none)
      | .ok content =>
        match rederiveRecordedDecision toml (recorded py e.body scope) content with
        | .error _ => .error .assertionError
        | .ok result => .ok (answer result.verdict result.cause result.expected)

/-! ## The verdict -/

/-- `{**d, key: value}`: the key keeps its first place and takes the last value. -/
def dictPut (d : List (Str × Str)) (key value : Str) : List (Str × Str) :=
  if d.any (·.1 == key) then d.map fun m => if m.1 = key then (key, value) else m
  else d ++ [(key, value)]

def assertedGrades (verification : Members) : List (Str × Str) :=
  match Json.get verification "grades" with
  | some (.arr items) =>
    items.foldl (fun d item =>
      match item with
      | .obj m =>
        match Json.getStr m "connection_id", Json.getStr m "grade" with
        | some connection, some grade => dictPut d connection grade
        | _, _ => d
      | _ => d) []
  | _ => []

/-- The identities a trusted gap names. -/
def declaredMissing (py : Interpreter) (trusted : List Entry) : List Str :=
  (trusted.filter fun e => e.kind = lit "gap").flatMap fun e =>
    match Json.get e.body "decision_ids" with
    | some (.arr items) => items.map (·.text py)
    | _ => []

/-- Whether a part of the range is not accounted for. -/
def coverageUnknown (entries trusted : List Entry) (contextUnverified : Bool)
    (clean unclean : List (ℤ × ℤ)) : Bool :=
  let asynchronous := trusted.filter fun e => asynchronousKinds.any fun k => e.kind == lit k
  trusted.isEmpty || decide (trusted.length < entries.length) || contextUnverified ||
    asynchronous.any (fun e => within e.sequence unclean) ||
    asynchronous.any fun e => !within e.sequence clean

/-- The spans of the recovery markers among what is trusted and the context. -/
def spansOf (trusted : List Entry) (b : Opened) : List (ℤ × ℤ) × List (ℤ × ℤ) :=
  epochs ((trusted ++ b.context).filter fun e => e.kind = lit "recovery")

/-- What is wrong with an export, in the order it is found. -/
def issuesOf (provisional : ChainVerdict) (manifestIssues : List Str) (contextUnverified : Bool)
    (attached : List Attached) (incomplete unknown noEffect : Bool) : List Str :=
  (if provisional.condition = .unverifiable then [lit "chain_unverifiable"]
    else if provisional.condition ≠ .intact then [lit "chain_damaged"] else []) ++
  manifestIssues ++
  (if contextUnverified then [lit "recovery_context_unverified"] else []) ++
  (if attached.any Attached.incomplete then [lit "policy_map_incomplete"] else []) ++
  (if incomplete then [lit "coverage_incomplete"] else []) ++
  (if unknown then [lit "coverage_unknown"] else []) ++
  (if noEffect then [lit "no_decisions"] else [])

def overallOf (rederivations : List EntryRederivation) (issues : List Str) (coverage : String) :
    Rederivation :=
  if rederivations.any fun r => r.verdict == .differs then .differs
  else if !issues.isEmpty || coverage != "complete" || rederivations.isEmpty ||
      rederivations.any (fun r => r.verdict != .confirmed) then .unverifiable
  else .confirmed

/-- `verify_export`, after the bundle was opened. -/
def judge (py : Interpreter) (toml : TomlLib) (bundle : Members) (scope : Str) (b : Opened) :
    Except PyError ExportVerdict := do
  let provisional ← verifyRead py b.entries scope b.fromSequence b.toSequence []
  let trusted := b.entries.take (trustedCount b.entries provisional)
  let spans := spansOf trusted b
  let lowered := (trusted.filter fun e => within e.sequence spans.2).map Entry.connectionId
  let chain ← verifyRead py b.entries scope b.fromSequence b.toSequence lowered
  let effects := trusted.filter isEffect
  let attached ← (sortedSet (effects.map fun e => bodyText py e "policy_version")).mapM
    (attach py b.attachments)
  let lastTrusted := (trusted.getLast?.map Entry.sequence).getD 0
  let rederivations ← (b.entries.filter isEffect).mapM
    (rederiveEntry py toml scope lastTrusted attached)
  let manifest := checkManifest py bundle b.toShape
  let incomplete := trusted.any fun e => e.kind == lit "gap"
  let unknown := coverageUnknown b.entries trusted b.contextUnverified spans.1 spans.2
  let coverage := if incomplete then "incomplete" else if unknown then "unknown" else "complete"
  let issues := issuesOf provisional manifest.2.2 b.contextUnverified attached incomplete unknown
    effects.isEmpty
  return {
    scope := some scope
    chain := some chain
    manifestVersion := manifest.1
    manifestHashRecomputes := manifest.2.1
    policyVersions := attached.map fun a => (a.version, a.state)
    evaluationRecipes := sortedSet
      ((b.entries.filter isEffect).filterMap fun e => bodyStr e.body "evaluation_recipe")
    rederivations := rederivations
    rederivedDecisionIds := (rederivations.filter fun r => r.verdict != .unverifiable).map
      EntryRederivation.decisionId
    confirmedDecisionIds := (rederivations.filter fun r => r.verdict == .confirmed).map
      EntryRederivation.decisionId
    declaredMissingDecisionIds := declaredMissing py trusted
    coverage := coverage
    fromSequence := some b.fromSequence
    toSequence := b.toSequence
    nextFrom := b.nextFrom
    issues := issues
    overall := overallOf rederivations issues coverage
    assertedGrades := assertedGrades b.verification }

/-- `except InvalidBundle as error: return _invalid(scope, str(error))` -/
def caught (scope : Str) : Except PyError ExportVerdict → Except PyError ExportVerdict
  | .error (.invalidBundle reason) => .ok (invalidVerdict (some scope) reason)
  | other => other

/-- `verify_export` -/
def verifyExport (py : Interpreter) (toml : TomlLib) (bundle : Json) :
    Except PyError ExportVerdict :=
  match bundle with
  | .obj members =>
    match Json.get members "scope" with
    | some (.str scope) =>
      if Plane.scopePattern.fullmatch scope then
        caught scope (openBundle py members scope >>= judge py toml members scope)
      else .ok (invalidVerdict none (lit "the bundle names no valid scope"))
    | _ => .ok (invalidVerdict none (lit "the bundle names no valid scope"))
  | _ => .ok (invalidVerdict none (lit "the bundle is not an object"))

end SayFirst.Contract
