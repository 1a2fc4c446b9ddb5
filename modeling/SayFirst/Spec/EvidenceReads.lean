import SayFirst.Lib.Base64
import SayFirst.Spec.PolicyArchive

/-!
# The evidence reads (`application/evidence_reads.py`)

A page is a range of a chain with its verdict, under the grades recorded before it. An export
serves a range with the policies its effects name and the recovery entries behind it, too, under a
manifest hash. It serves no more than `exportBound` entries and, where what it serves is over
`exportByteBound` bytes, the longest prefix that is not.

* `ChainFile.gradesBefore` — what a chain recorded before a range.
* `EvidenceReads.readPage` — one page.
* `PolicyArchive.read` — one kept policy version.
* `EvidenceReads.bundle` — the document of a range.
* `EvidenceReads.export_` — the call.
-/

namespace SayFirst.Plane

open Py Evidence

/-- `MAX_POLICY_BYTES` -/
def maxPolicyBytes : ℕ := 1048576

/-- `PAGE_BOUND` -/
def pageBound : ℤ := 100

/-- `EXPORT_BOUND` -/
def exportBound : ℕ := 10000

/-- `EXPORT_BYTE_BOUND` -/
def exportByteBound : ℕ := 32 * 1024 * 1024

/-- `CONTRACT_GENERATION` -/
def contractGeneration : ℤ := 1

/-- `MANIFEST_VERSION` -/
def manifestVersion : Str := lit "sayfirst-control-plane/evidence-export/v3"

inductive ReadsError where
  | scopeRequired
  | scopeInvalid
  | rangeInvalid (message : String)
  | storeUnavailable (message : String)
  | raised (e : PyError)
  deriving DecidableEq, Repr

/-! ## The policy archive (`adapters/file/policy_archive.py`) -/

/-- The files of the archive's directory, by the version each is named for. -/
structure PolicyArchive (py : Interpreter) where
  file : Str → Option Bytes
  /-- What `keep` was given is a policy the policy store has read. -/
  kept : ∀ version content, file version = some content → versionOf py content = version →
    content.length ≤ maxPolicyBytes

/-- `read` -/
def PolicyArchive.read {py : Interpreter} (a : PolicyArchive py) (version : Str) :
    Except PyError ArchivedPolicy :=
  if digestPattern.fullmatch version then
    match a.file version with
    | none => .ok ⟨version, .absent, none⟩
    | some content =>
      if versionOf py content ≠ version then .ok ⟨version, .damaged, none⟩
      else .ok ⟨version, .present, some content⟩
  else
    .error (.valueError "a policy version is sha256: and sixty-four lowercase hex digits")

/-! ## Documents -/

def conditionValue : ChainCondition → Str
  | .intact => lit "intact"
  | .brokenAt => lit "broken_at"
  | .gapAt => lit "gap_at"
  | .unverifiable => lit "unverifiable"

/-- `verdict_to_document` -/
def verdictToDocument (v : ChainVerdict) : Body :=
  [(lit "scope", .str v.scope), (lit "condition", .str (conditionValue v.condition)),
    (lit "from_sequence", .int v.fromSequence), (lit "to_sequence", .ofOption .int v.toSequence),
    (lit "up_to", .ofOption .int v.upTo), (lit "sequence", .ofOption .int v.sequence),
    (lit "expected", .ofOption .str v.expected), (lit "found", .ofOption .str v.found),
    (lit "version", .ofOption .str v.version), (lit "covers_an_entry", .bool v.coversAnEntry),
    (lit "declared_gaps", .arr (v.declaredGaps.map fun g =>
      .obj [(lit "sequence", .int g.sequence), (lit "reason", .str g.reason),
        (lit "count", .int g.count)])),
    (lit "grades", .arr (v.grades.map fun g =>
      .obj [(lit "connection_id", .str g.connectionId), (lit "grade", .str g.grade)]))]

/-- `manifest_digest`, under the recipe a writer writes. -/
def manifestDigest (py : Interpreter) (bundle : Body) : Str :=
  py.sha256 (ascii (Json.canonical py (.obj (bundle.filter fun m => m.1 != lit "manifest_hash"))))

/-! ## The chain -/

variable {scope : Str}

namespace ChainFile

/-- `read_range`. The core's copies of the entries are equal to them. -/
def readRange (c : ChainFile scope) (fromSequence : ℤ) (toSequence : Option ℤ) :
    List EvidenceEntry :=
  (c.entries.map Subtype.val).filter fun e =>
    fromSequence ≤ e.sequence && toSequence.all fun t => e.sequence ≤ t

/-- The grades a chain recorded, connection by connection, the last one first. -/
def recordedGrades (entries : List EvidenceEntry) : List (Str × Str) :=
  entries.foldl (fun values e =>
    if e.kind = lit "grade" then
      match (Json.get e.body "grade").bind Json.str? with
      | some grade => (e.connectionId, grade) :: values
      | none => values
    else values) []

/-- `_grades_before` -/
def gradesBefore (py : Interpreter) (c : ChainFile scope) (fromSequence : ℤ) :
    Except PyError (List (Str × Str)) :=
  if fromSequence = 1 then .ok []
  else do
    let earlier := c.readRange 1 (some (fromSequence - 1))
    let verdict ← verify py earlier scope 1 (some (fromSequence - 1)) []
    return if verdict.condition = .intact then recordedGrades earlier else []

/-- A recovery entry whose span covers a sequence. -/
def closes (last : ℤ) (e : EvidenceEntry) : Bool :=
  e.kind == lit "recovery" &&
    match (Json.get e.body "from_sequence").bind Json.int?,
      (Json.get e.body "through_sequence").bind Json.int? with
    | some start, some stop => start ≤ last && last ≤ stop
    | _, _ => false

/-- `_recovery_context` -/
def recoveryContext (c : ChainFile scope) (entries : List EvidenceEntry) (head : Option ℤ) :
    List EvidenceEntry :=
  match entries.getLast?, head with
  | some last, some head =>
    if head ≤ last.sequence then []
    else
      let following := c.readRange (last.sequence + 1) (some (min head (last.sequence + exportBound)))
      match following.findIdx? (closes last.sequence) with
      | some index => following.take (index + 1)
      | none => []
  | _, _ => []

end ChainFile

/-! ## What a read raises -/

structure EvidenceReads where
  py : Interpreter
  archive : Option (PolicyArchive py)

namespace EvidenceReads

/-- What a call raises, or goes on with. -/
def rendered {α : Type} : Option α → Except ReadsError α
  | some a => .ok a
  | none => .error (.raised .overflowError)

/-- What is raised escapes. -/
def raised {α : Type} : Except PyError α → Except ReadsError α
  | .ok a => .ok a
  | .error e => .error (.raised e)

/-- What a call raises is an unavailable store, or it goes on. -/
def stored {α : Type} (message : String) : Except PyError α → Except ReadsError α
  | .ok a => .ok a
  | .error _ => .error (.storeUnavailable message)

/-- `_scope` -/
def readScope : Option Str → Except ReadsError Str
  | none => .error .scopeRequired
  | some [] => .error .scopeRequired
  | some scope => if scopePattern.fullmatch scope then .ok scope else .error .scopeInvalid

end EvidenceReads

/-! ## Pages -/

/-- What `read_page` answers. -/
structure EvidencePage where
  scope : Str
  fromSequence : ℤ
  toSequence : Option ℤ
  entries : List Body
  verification : ChainVerdict
  nextFrom : Option ℤ

/-- The document of a page. -/
def EvidencePage.document (p : EvidencePage) : Body :=
  [(lit "contract_version", .str (intText contractGeneration)), (lit "scope", .str p.scope),
    (lit "from_sequence", .int p.fromSequence), (lit "to_sequence", .ofOption .int p.toSequence),
    (lit "entries", .arr (p.entries.map Json.obj)),
    (lit "verification", .obj (verdictToDocument p.verification)),
    (lit "next_from", .ofOption .int p.nextFrom)]

namespace EvidenceReads

variable (reads : EvidenceReads)

/-- The end of a page and where the next one begins, where there is an entry to be read. -/
def pageEnd (head : Option ℤ) (fromSequence pageSize : ℤ) : Option (ℤ × Option ℤ) :=
  match head with
  | none => none
  | some head =>
    if head < fromSequence then none
    else
      let requestedEnd := min head (fromSequence + pageSize - 1)
      some (requestedEnd, if requestedEnd < head then some (requestedEnd + 1) else none)

/-- `read_page`, of a scope that was read and a range that was checked. -/
def pageOf (c : ChainFile scope) (fromSequence pageSize : ℤ) : Except ReadsError EvidencePage := do
  let range := pageEnd c.latestSequence fromSequence pageSize
  let entries := match range with
    | none => []
    | some (requestedEnd, _) => c.readRange fromSequence (some requestedEnd)
  let gradesBefore ← stored "the evidence store could not be read"
    (c.gradesBefore reads.py fromSequence)
  let verdict ← raised
    (verify reads.py entries scope fromSequence (range.map Prod.fst) gradesBefore)
  let documents ← rendered (entries.mapM fun e => entryToDocument e.toEntryFields)
  return ⟨scope, fromSequence, verdict.toSequence, documents, verdict, range.bind Prod.snd⟩

/-- `read_page`; `ready` is whether what was pending could be flushed. -/
def readPage (store : (scope : Str) → ChainFile scope) (ready : Bool) (scope : Option Str)
    (fromSequence pageSize : ℤ) : Except ReadsError EvidencePage := do
  let actual ← readScope scope
  if fromSequence < 1 || !(1 ≤ pageSize && pageSize ≤ pageBound) then
    .error (.rangeInvalid "evidence range is invalid")
  else if !ready then .error (.storeUnavailable "pending evidence could not be flushed")
  else reads.pageOf (store actual) fromSequence pageSize

end EvidenceReads

/-! ## Exports -/

namespace EvidenceReads

variable (reads : EvidenceReads)

/-- The attachment of one version. -/
def attachment (version : Str) : Except PyError (Str × Json) :=
  match reads.archive with
  | none => .ok (version, .obj [(lit "state", .str (lit ArchiveState.absent.value))])
  | some archive => do
    let answered ← archive.read version
    return (version, match answered.state, answered.content with
      | .present, some content => .obj [(lit "state", .str (lit ArchiveState.present.value)),
          (lit "content", .str (base64Encode content))]
      | .present, none => .obj [(lit "state", .str (lit ArchiveState.damaged.value))]
      | state, _ => .obj [(lit "state", .str (lit state.value))])

/-- `policy_attachments` -/
def policyAttachments (versions : List Str) : Except PyError Body :=
  (sortedSet versions).mapM reads.attachment

/-- `_bundle`, before its manifest hash. -/
def members (scope : Str) (entries : List EvidenceEntry) (fromSequence : ℤ) (nextFrom : Option ℤ)
    (verdict : ChainVerdict) (attachments : Body) (documents context : List Body) : Body :=
  [(lit "contract_version", .str (intText contractGeneration)), (lit "scope", .str scope),
    (lit "from_sequence", .int fromSequence), (lit "to_sequence", .ofOption .int verdict.toSequence),
    (lit "entry_count", .int entries.length), (lit "entries", .arr (documents.map Json.obj)),
    (lit "verification", .obj (verdictToDocument verdict)),
    (lit "next_from", .ofOption .int nextFrom), (lit "manifest_version", .str manifestVersion),
    (lit "policy_versions", .obj attachments),
    (lit "recovery_context", .arr (context.map Json.obj))]

/-- `_bundle` -/
def bundle (scope : Str) (entries : List EvidenceEntry) (fromSequence : ℤ)
    (boundedEnd nextFrom : Option ℤ) (gradesBefore : List (Str × Str))
    (context : List EvidenceEntry) : Except ReadsError Body := do
  let verdict ← raised (verify reads.py entries scope fromSequence boundedEnd gradesBefore)
  let versions := (entries.filter fun e => e.kind = lit "effect").map fun e =>
    ((Json.get e.body "policy_version").getD .null).text reads.py
  let attachments ← stored "the policy archive could not be read" (reads.policyAttachments versions)
  let documents ← rendered (entries.mapM fun e => entryToDocument e.toEntryFields)
  let context ← rendered (context.mapM fun e => entryToDocument e.toEntryFields)
  let members := members scope entries fromSequence nextFrom verdict attachments documents context
  return members ++ [(lit "manifest_hash", .str (manifestDigest reads.py members))]

/-- `len(canonical_json(bundle)) <= EXPORT_BYTE_BOUND` -/
def bounded (bundle : Body) : Bool :=
  (Json.canonical reads.py (.obj bundle)).length ≤ exportByteBound

/-- The turns of the loop of `export` behind its first cut, from the first `n` entries on. -/
def cut (scope : Str) (entries : List EvidenceEntry) (fromSequence : ℤ)
    (gradesBefore : List (Str × Str)) : ℕ → Except ReadsError Body
  | 0 => .error (.storeUnavailable
      "one entry and its policy attachment exceed the export byte bound")
  | n + 1 => do
    let served := entries.take (n + 1)
    let last := served.getLast?.map fun e => e.sequence
    let bundle ← reads.bundle scope served fromSequence last (last.map (· + 1)) gradesBefore []
    if reads.bounded bundle then return bundle else cut scope entries fromSequence gradesBefore n

/-- The loop of `export`. -/
def serve (scope : Str) (entries : List EvidenceEntry) (fromSequence : ℤ)
    (boundedEnd nextFrom : Option ℤ) (gradesBefore : List (Str × Str))
    (context : List EvidenceEntry) : Except ReadsError Body := do
  let bundle ← reads.bundle scope entries fromSequence boundedEnd nextFrom gradesBefore context
  if reads.bounded bundle || entries.isEmpty then return bundle
  else if context.isEmpty then cut reads scope entries fromSequence gradesBefore (entries.length - 1)
  else
    -- the context goes first
    let bundle ← reads.bundle scope entries fromSequence boundedEnd nextFrom gradesBefore []
    if reads.bounded bundle then return bundle
    else cut reads scope entries fromSequence gradesBefore (entries.length - 1)

/-- The end of a range and what follows it, where a head is there to be read up to. -/
def rangeEnd (head : Option ℤ) (fromSequence : ℤ) (toSequence : Option ℤ) :
    Option (ℤ × Option ℤ) :=
  match head with
  | none => none
  | some head =>
    if head < fromSequence then none
    else
      let desired := min (toSequence.getD head) head
      let stop := min desired (fromSequence + exportBound - 1)
      some (stop, if stop < desired then some (stop + 1) else none)

/-- `export`, of a scope that was read. -/
def exportRange (c : ChainFile scope) (fromSequence : ℤ) (toSequence : Option ℤ) :
    Except ReadsError Body := do
  let head := c.latestSequence
  let range := rangeEnd head fromSequence toSequence
  let entries := match range with
    | none => []
    | some (stop, _) => c.readRange fromSequence (some stop)
  let gradesBefore ← stored "the evidence store could not be read"
    (c.gradesBefore reads.py fromSequence)
  reads.serve scope entries fromSequence (range.map Prod.fst) (range.bind Prod.snd) gradesBefore
    (c.recoveryContext entries head)

/-- `export`; `ready` is whether what was pending could be flushed. -/
def export_ (store : (scope : Str) → ChainFile scope) (ready : Bool) (scope : Option Str)
    (fromSequence : ℤ) (toSequence : Option ℤ) : Except ReadsError Body := do
  let actual ← readScope scope
  if fromSequence < 1 || toSequence.any (· < fromSequence) then
    .error (.rangeInvalid "evidence range is invalid")
  else if !ready then .error (.storeUnavailable "pending evidence could not be flushed")
  else reads.exportRange (store actual) fromSequence toSequence

end EvidenceReads

end SayFirst.Plane
