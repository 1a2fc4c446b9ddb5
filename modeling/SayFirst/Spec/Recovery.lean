import SayFirst.Lib.JsonEq
import SayFirst.Lib.Slices
import SayFirst.Spec.Access
import SayFirst.Spec.Decision
import SayFirst.Spec.EvidenceStore
import SayFirst.Spec.Journal

/-!
# The recovery writer (`application/recovery.py`)

What one life of the daemon does about the epochs of one scope: it opens its own, closes
it behind a `clean_stop` marker, and at its start reconciles every epoch the journal left
open: marks it, declares in gaps what the evidence lost of it, and compares what the chain
and the authority say.

* `Authority` — the decisions of a scope, as `FileDecisionStore` serves them.
* `Root` — what is kept of the scope, and where the next changes to it stop.
* `openEpoch`, `closeMark`, `closeJournal`, `reconcileAtStart` — the calls of the writer.
-/

namespace SayFirst.Plane

open Py Evidence

/-! ## The decisions -/

/-- `Envelope` -/
structure Envelope where
  storeId : Str
  position : ℤ
  recordingEpoch : Str
  decision : Contract.Decision

def Envelope.ref (e : Envelope) : Str := e.decision.decisionRef

/-- The decision file of a scope, where `_rebuild` found it usable. -/
structure Authority where
  storeId : Str
  envelopes : List Envelope
  store_ne : storeId ≠ []
  store_eq : ∀ e ∈ envelopes, e.storeId = storeId
  /-- A position is one more than the one before it. -/
  positions : envelopes.map (·.position) = (List.range envelopes.length).map fun (k : ℕ) => (k : ℤ) + 1
  refs_nodup : (envelopes.map Envelope.ref).Nodup

/-- `store_id_of` -/
def Authority.storeIdOf (a : Authority) : Option Str :=
  if a.envelopes.isEmpty then none else some a.storeId

/-! ## The journal -/

/-- What closes an epoch, at its marker. -/
def JournalRecord.closing (kind : JournalKind) (epochId : Str) (hepoch : epochId ≠ [])
    (hkind : kind ≠ .epochOpen) (marker : Option EvidenceEntry) : JournalRecord where
  record := kind
  epochId := epochId
  storeId := none
  fromSequence := none
  markerSequence := marker.map fun e => e.sequence
  markerHash := marker.map fun e => e.entryHash
  epoch_ne := hepoch
  from_pos := fun _ h => by cases h
  opened := fun h => absurd h hkind

/-- What `epoch_reconciled` appends. -/
def JournalRecord.reconciled (opened : JournalRecord) (marker : Option EvidenceEntry) :
    JournalRecord :=
  closing .epochReconciled opened.epochId opened.epoch_ne (by decide) marker

/-- What `open_epoch` appends. -/
def JournalRecord.opening (epochId : Str) (storeId : Option Str) (hepoch : epochId ≠ [])
    (fromSequence : {n : ℤ // 1 ≤ n}) : JournalRecord where
  record := .epochOpen
  epochId := epochId
  storeId := storeId
  fromSequence := some fromSequence.1
  markerSequence := none
  markerHash := none
  epoch_ne := hepoch
  from_pos := fun _ h => Option.some.inj h ▸ fromSequence.2
  opened := fun _ => rfl

/-! ## The writer -/

/-- `GAP_ID_BOUND` -/
def gapIdBound : ℕ := 8192

/-- `POSSIBLY_LOST_KINDS` -/
def possiblyLostKinds : List String := ["effect", "grade", "composition", "gap"]

/-- `_SHARED_FACTS` -/
def sharedFacts : List String :=
  ["capability", "outcome", "policy_version", "reason", "rule_id", "arguments_digest",
    "correlation", "correlation_source", "principal_references", "evaluation_recipe"]

/-- `ArchiveState` (`ports/policy_archive.py`) -/
inductive ArchiveState where
  | present
  | absent
  | damaged
  deriving DecidableEq, Repr

structure ReconciliationReport where
  scope : Str
  checkedAt : Option Civil
  throughSequence : Option ℤ
  throughDecisionPosition : Option ℤ
  state : String
  effectsWithoutDecision : Option ℕ
  contradictoryDecisions : Option ℕ
  unflushedDeclared : Option ℕ
  unknownEventCoverage : Option Bool
  policyVersionsAbsent : Option ℕ
  policyVersionsDamaged : Option ℕ

/-- `not_run` -/
def ReconciliationReport.notRun (scope : Str) : ReconciliationReport :=
  ⟨scope, none, none, none, "not_run", none, none, none, none, none, none⟩

inductive RecoveryError where
  | store (e : StoreError)
  | decisionStoreUnavailable
  deriving DecidableEq, Repr

/-- A grade of the daemon's own connection, as `_grade_record_if_needed` answers it. -/
structure DaemonGrade (scope : Str) where
  record : RecordOf scope
  evaluatedAt : Civil
  kind_eq : record.1.kind = lit "grade"
  recorded_eq : record.1.recordedAt = ⟨some evaluatedAt⟩
  connection_eq : record.1.connectionId = daemonConnection
  principal_eq : record.1.principal = recoveryPrincipal

/-- What is kept of one scope. -/
structure Root (scope : Str) where
  disk : Disk scope
  /-- None where the authority cannot be read. -/
  authority : Option Authority
  journal : List JournalRecord
  /-- How often the clock was read, the grade of the daemon asked for, the chain appended to. -/
  readings : ℕ
  gradings : ℕ
  appends : ℕ

/-- A call of the writer: what it raises leaves what it wrote. -/
abbrev Recovery (scope : Str) := EStateM RecoveryError (Root scope)

structure RecoveryWriter (scope : Str) where
  py : Interpreter
  recordingEpoch : Str
  /-- What the clock reads, reading by reading. -/
  clock : ℕ → Civil
  /-- What the clock of the evidence store reads, append by append. -/
  storeClock : ℕ → Option Civil
  /-- What `daemon_grade` answers, call by call. -/
  daemonGrade : ℕ → Option (DaemonGrade scope)
  /-- The archive, of the versions it has a name for. -/
  archive : Option (Str → ArchiveState)
  /-- What `_render` makes of a text without an offset, which is in local time. -/
  localText : Str → Str
  epoch_ne : recordingEpoch ≠ []
  /-- `validate_scope` -/
  scope_held : scopePattern.fullmatch scope = true

/-- `_written_by_recovery` -/
def writtenByRecovery (e : EvidenceFields) : Bool :=
  e.kind == lit "recovery" ||
    e.kind == lit "gap" && (Json.get e.body "reason").any (·.eqText "unflushed")

/-- The decisions the effects of a chain carry. -/
def surviving {scope : Str} (entries : List (EntryOf scope)) : List (Str × ℤ) :=
  entries.filterMap fun e =>
    if e.1.kind = lit "effect" then
      match Json.get e.1.body "decision_position" with
      | some (.obj document) => some (EvidenceBody.positionOf (.obj document))
      | _ => none
    else none

/-- The decisions a gap names. -/
def namedBy (e : EvidenceFields) : List Str :=
  if e.kind = lit "gap" then
    match Json.get e.body "decision_ids" with
    | some (.arr ids) => ids.filterMap Json.str?
    | _ => []
  else []

/-- The decisions the gaps of a chain name. -/
def named {scope : Str} (entries : List (EntryOf scope)) : List Str :=
  entries.flatMap fun e => namedBy e.1.toEvidenceFields

/-- A recovery entry of an event, for an epoch. -/
def stopOf (event : String) (epochId : Str) (e : EvidenceFields) : Bool :=
  e.kind == lit "recovery" && (Json.get e.body "event").any (·.eqText event) &&
    (Json.get e.body "epoch_id").any fun id => id.str? == some epochId

/-- The unclean stop a chain marks for an epoch. -/
def markerOf {scope : Str} (epochId : Str) (entries : List (EntryOf scope)) :
    Option (EntryOf scope) :=
  entries.find? fun e => stopOf "unclean_stop" epochId e.1.toEvidenceFields

/-- The sequences of what an epoch produced. -/
def produced {scope : Str} (epochId : Str) (fromSequence : ℤ) (entries : List (EntryOf scope)) :
    List ℤ :=
  (entries.filter fun e => fromSequence ≤ e.1.sequence && !writtenByRecovery e.1.toEvidenceFields &&
    (Json.get e.1.body "recording_epoch").all fun id => id.str? == some epochId).map
      fun e => e.1.sequence

/-- `max(produced) if produced else 0` -/
def headOf (sequences : List ℤ) : ℤ := sequences.max?.getD 0

/-- The committed decisions of an epoch without an effect and without a gap that names them. -/
def missing {scope : Str} (authority : Authority) (epochId : Str)
    (entries : List (EntryOf scope)) : List Envelope :=
  (authority.envelopes.filter fun e => e.recordingEpoch == epochId &&
    !(surviving entries).contains (e.storeId, e.position) &&
    !(named entries).contains e.ref).insertionSort fun a b => a.position ≤ b.position

/-- The body of a `clean_stop` marker. -/
def cleanBody (epochId : Str) (fromSequence through : ℤ) : Body :=
  [(lit "event", .str (lit "clean_stop")), (lit "epoch_id", .str epochId),
    (lit "from_sequence", .int fromSequence), (lit "through_sequence", .int through),
    (lit "recording_epoch", .str (lit "recovery:" ++ epochId))]

/-- The body of an `unclean_stop` marker. -/
def uncleanBody (epochId : Str) (fromSequence head : ℤ) : Body :=
  [(lit "event", .str (lit "unclean_stop")), (lit "epoch_id", .str epochId),
    (lit "from_sequence", .int fromSequence), (lit "through_sequence", .int head),
    (lit "lost_event_count", .null),
    (lit "possibly_lost_kinds", .arr (possiblyLostKinds.map fun k => .str (lit k))),
    (lit "coverage", .str (lit "unknown")),
    (lit "recording_epoch", .str (lit "recovery:" ++ epochId))]

/-- The body of an `unflushed` gap. -/
def unflushedBody (epochId firstAt lastAt : Str) (chunk : List Envelope) : Body :=
  [(lit "reason", .str (lit "unflushed")), (lit "count", .int chunk.length),
    (lit "first_at", .str firstAt), (lit "last_at", .str lastAt),
    (lit "kinds", .obj [(lit "effect", .int chunk.length)]),
    (lit "decision_ids", .arr (chunk.map fun e => .str e.ref)),
    (lit "decision_positions", .arr (chunk.map fun e =>
      .obj [(lit "store_id", .str e.storeId), (lit "position", .int e.position)])),
    (lit "accounting", .str (lit "decision")), (lit "recording_epoch", .str epochId)]

/-- `_contradicts` -/
def contradicts (body : Body) (held : Contract.Decision) : Bool :=
  sharedFacts.any fun fact =>
    match Json.get body fact with
    | none => false
    | some value => !Json.same value ((Json.get held.toDocument fact).getD .null)

namespace RecoveryWriter

variable {scope : Str} (w : RecoveryWriter scope)

/-- `_render` -/
def render (instant : Str) : Except PyError Str :=
  let text := instant.flatMap fun c => if c = 90 then lit "+00:00" else [c]
  match w.py.fromIso text with
  | none => .error (.valueError "Invalid isoformat string")
  | some none => .ok (w.localText text)
  | some (some ⟨none⟩) => .error .overflowError
  | some (some ⟨some civil⟩) => .ok civil.text

/-- What the calculation raises, or goes on with. -/
def calculated {α : Type} : Except PyError α → Recovery scope α
  | .ok a => pure a
  | .error e => throw (.store (.raised e))

/-- `self.chain.append(record)` -/
def chainAppend (record : RecordOf scope) : Recovery scope (EntryOf scope) := fun root =>
  match ChainFile.append w.py (w.storeClock root.appends) record root.disk with
  | .ok e disk => .ok e { root with disk, appends := root.appends + 1 }
  | .error e disk => .error (.store e) { root with disk, appends := root.appends + 1 }

/-- An append to the journal; a line written in part is dropped by `recover` at the next start. -/
def journalAppend (r : JournalRecord) : Recovery scope Unit := fun root =>
  let ⟨file, stops⟩ := root.disk
  match stops with
  | [] => .ok () { root with journal := root.journal ++ [r] }
  | .goesOn :: rest => .ok () { root with disk := ⟨file, rest⟩, journal := root.journal ++ [r] }
  | .before :: rest => .error (.store .stopped) { root with disk := ⟨file, rest⟩ }
  | .within :: rest => .error (.store .stopped) { root with disk := ⟨file, rest⟩ }
  | .after :: rest =>
    .error (.store .stopped) { root with disk := ⟨file, rest⟩, journal := root.journal ++ [r] }

/-- `self._clock()` -/
def now : Recovery scope Civil := fun root =>
  .ok (w.clock root.readings) { root with readings := root.readings + 1 }

/-- `_grade_first` -/
def gradeFirst : Recovery scope Unit := do
  let due ← fun root => .ok (w.daemonGrade root.gradings) { root with gradings := root.gradings + 1 }
  match due with
  | none => return
  | some grade => discard (w.chainAppend grade.record)

/-- `_append` -/
def append (kind : Str) (body : Body) : Recovery scope (EntryOf scope) := do
  let now ← w.now
  let record ← calculated
    (EvidenceFields.construct ⟨scope, kind, ⟨some now⟩, daemonConnection, recoveryPrincipal, body⟩)
  w.chainAppend record

/-- `list(self.decisions.scan(scope))` -/
def scan : Recovery scope Authority := fun root =>
  match root.authority with
  | some authority => .ok authority root
  | none => .error .decisionStoreUnavailable root

/-! ## The epoch of this life -/

/-- `open_epoch`, of a scope that is not open yet. -/
def openEpoch : Recovery scope Unit := do
  let head := (← get).disk.file.nextSequence
  let authority ← scan
  journalAppend (.opening w.recordingEpoch authority.storeIdOf w.epoch_ne head)

/-- `close_clean`, to the marker: none where there is no epoch to close, and no marker where
nothing was produced. -/
def closeMark : Recovery scope (Option (Option EvidenceEntry)) := do
  let opened := (openEpochs (← get).journal).filter fun r => r.epochId == w.recordingEpoch
  match opened.getLast?.bind (·.fromSequence) with
  | none => return none
  | some fromSequence =>
    w.gradeFirst
    match (← get).disk.file.latestSequence with
    | none => return some none
    | some through =>
      if through < fromSequence then return some none
      else
        let marker ← w.append (lit "recovery") (cleanBody w.recordingEpoch fromSequence through)
        return some (some marker.1)

/-- `close_clean`, from the marker: the journal. -/
def closeJournal (marker : Option EvidenceEntry) : Recovery scope Unit :=
  journalAppend (.closing .epochClean w.recordingEpoch w.epoch_ne (by decide) marker)

/-- `close_clean` -/
def closeClean : Recovery scope Bool := do
  match ← w.closeMark with
  | none => return false
  | some marker =>
    w.closeJournal marker
    return true

/-! ## The next start -/

/-- One turn of the loop of `_declare_unflushed`. -/
def declare (epochId : Str) (entries : List (EntryOf scope)) (chunk : List Envelope) :
    Recovery scope (List (EntryOf scope)) := do
  let instants := (chunk.map fun e => e.decision.decidedAt).insertionSort (Str.le · ·)
  w.gradeFirst
  let firstAt ← calculated (w.render (instants.headD []))
  let lastAt ← calculated (w.render (instants.getLastD []))
  let gap ← w.append (lit "gap") (unflushedBody epochId firstAt lastAt chunk)
  return entries ++ [gap]

/-- `_declare_unflushed` -/
def declareUnflushed (epochId : Str) (entries : List (EntryOf scope)) :
    Recovery scope (List (EntryOf scope)) := do
  let authority ← scan
  (slices gapIdBound (missing authority epochId entries)).foldlM (w.declare epochId) entries

/-- The marker `_reconcile_epoch` finds or writes, and the entries with it. -/
def mark (epochId : Str) (fromSequence : ℤ) (entries : List (EntryOf scope)) :
    Recovery scope (Option (EntryOf scope) × List (EntryOf scope)) := do
  let head := headOf (produced epochId fromSequence entries)
  match markerOf epochId entries with
  | some marker => return (some marker, entries)
  | none =>
    if fromSequence ≤ head then
      w.gradeFirst
      let marker ← w.append (lit "recovery") (uncleanBody epochId fromSequence head)
      return (some marker, entries ++ [marker])
    else return (none, entries)

/-- `_reconcile_epoch` -/
def reconcileEpoch (record : JournalRecord) (entries : List (EntryOf scope)) :
    Recovery scope (List (EntryOf scope)) := do
  match record.fromSequence with
  | none => throw (.store (.raised .assertionError))
  | some fromSequence =>
    let (marker, entries) ← w.mark record.epochId fromSequence entries
    let entries ← w.declareUnflushed record.epochId entries
    journalAppend (record.reconciled (marker.map Subtype.val))
    return entries

/-- The loop of `reconcile_at_start`. -/
def reconcileEpochs : List JournalRecord → List (EntryOf scope) →
    Recovery scope (List (EntryOf scope))
  | [], entries => return entries
  | record :: rest, entries => do
    -- this life's own epoch, open on purpose
    if record.epochId = w.recordingEpoch then reconcileEpochs rest entries
    else
      let entries ← w.reconcileEpoch record entries
      reconcileEpochs rest entries

/-- The states of the versions, where each is one the archive has a name for. -/
def archived (versions : List Str) : Except PyError (List ArchiveState) :=
  match w.archive with
  | none => .ok []
  | some read => versions.mapM fun version =>
    if digestPattern.fullmatch version then .ok (read version)
    else .error (.valueError
      "a policy version is sha256: and sixty-four lowercase hex digits")

/-- `_compare` -/
def compare (entries : List (EntryOf scope)) : Recovery scope ReconciliationReport := do
  let authority ← scan
  let effects := entries.filter fun e => e.1.kind = lit "effect"
  let held := fun (e : EntryOf scope) =>
    (authority.envelopes.find? fun d =>
      (Json.get e.1.body "decision_id").any fun id => Json.text w.py id == d.ref).map (·.decision)
  let versions := sortedSet (effects.filterMap fun e =>
    (Json.get e.1.body "policy_version").map (Json.text w.py))
  let positions := (surviving effects).map Prod.snd
  let without := (effects.filter fun e => (held e).isNone).length
  let contradictory := (effects.filter fun e => (held e).any (contradicts e.1.body)).length
  let unflushed := entries.filter fun e => (Json.get e.1.body "reason").any (·.eqText "unflushed")
  let states ← calculated (w.archived versions)
  let now ← w.now
  return {
    scope := scope
    checkedAt := some now
    throughSequence := entries.getLast?.map fun e => e.1.sequence
    throughDecisionPosition := positions.max?
    state := if contradictory ≠ 0 then "contradicts" else if without ≠ 0 then "disagrees" else "agrees"
    effectsWithoutDecision := some without
    contradictoryDecisions := some contradictory
    unflushedDeclared := some (unflushed.flatMap fun e => namedBy e.1.toEvidenceFields).length
    unknownEventCoverage := some (entries.any fun e => e.1.kind = lit "recovery" &&
      (Json.get e.1.body "event").any (·.eqText "unclean_stop"))
    policyVersionsAbsent := some (states.count .absent)
    policyVersionsDamaged := some (states.count .damaged) }

/-- `reconcile_at_start` -/
def reconcileAtStart : Recovery scope ReconciliationReport := do
  let entries := (← get).disk.file.entries
  let records := openEpochs (← get).journal
  let reconciled := do
    let entries ← w.reconcileEpochs records entries
    w.compare entries
  tryCatch reconciled fun
    | .decisionStoreUnavailable => pure (.notRun scope)
    | e => throw e

/-! ## A start -/

/-- `_recover_and_open`, of one scope; whether it opened the epoch of this life. -/
def recoverAndOpen (composition : Bool) : Recovery scope Bool := do
  let opens := composition || !(openEpochs (← get).journal).isEmpty
  if opens then w.openEpoch
  discard w.reconcileAtStart
  return opens

end RecoveryWriter

end SayFirst.Plane
