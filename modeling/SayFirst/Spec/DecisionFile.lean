import SayFirst.Lib.Triple
import SayFirst.Spec.Journal
import SayFirst.Spec.Readers

/-!
# The decision store (`adapters/file/decision_store.py`)

The decision file of one scope as the bytes it holds, the index kept of it in memory, and the
advisory locks the call holds. Any call on the operating system may fail.

* `readHeader`, `readEnvelope`, `rebuild` — the index a file gives.
* `flock` — a lock is waited for while a lock of another description excludes it.
* `recoverTail` — the bytes behind the last newline are dropped.
* `append` — the call, with the lock it takes and what it reads again where the scope is fenced.
-/

namespace SayFirst.Plane.DecisionFile

open Py
open SayFirst.Contract (Decision)
open SayFirst.Client (ClientHost ReadError ErrorKind invalid)

/-- `STORAGE_VERSION` -/
def storageVersion : ℤ := 1

/-- `_LINE_BOUND` -/
def lineBound : ℕ := 8 * 1024 * 1024

/-- `scope_matches_contract` -/
def scopeMatchesContract (scope : Str) : Bool := scopePattern.fullmatch scope

structure DecisionPosition where
  storeId : Str
  position : ℤ
  deriving DecidableEq

structure Envelope where
  scope : Str
  storeId : Str
  position : ℤ
  recordingEpoch : Str
  decision : Decision

/-- A decision of the index: its offset in the file and its position. -/
structure Indexed where
  decisionRef : Str
  offset : ℕ
  position : DecisionPosition
  deriving DecidableEq

/-- `_ScopeState`; `offsets` and `positions` hold the same references. -/
structure ScopeState where
  storeId : Str
  nextPosition : ℤ
  index : List Indexed
  unusable : Option Str
  fenced : Bool
  deriving DecidableEq

/-- `decision_ref in state.offsets` -/
def ScopeState.holds (s : ScopeState) (decisionRef : Str) : Bool :=
  s.index.any (·.decisionRef == decisionRef)

variable (py : ClientHost) (scope : Str)

/-! ## The lines -/

/-- `json.loads(line)`; none where it nests deeper than is parsed, which nothing here catches. -/
def load (line : Str) : Option (Except ReadError Json) :=
  match py.loads (ascii line) with
  | .ok document => some (.ok document)
  | .error (.recursionError _) => none
  | .error e => some (.error ⟨.valueError, e.text⟩)

/-- A text that is not empty. -/
def named (value : Json) : Option Str :=
  match value with
  | .str (c :: cs) => some (c :: cs)
  | _ => none

/-- `_read_header` -/
def readHeader : Json → Except ReadError Str
  | .obj document =>
    if !(memberOf document "storage_version").eqInt storageVersion then
      invalid (lit "the header names no supported storage version")
    else
      match memberOf document "header" with
      | .obj header =>
        if (memberOf header "scope").str? ≠ some scope then
          invalid (lit "the header names another scope")
        else
          match named (memberOf header "store_id") with
          | some storeId => .ok storeId
          | none => invalid (lit "the header names no store")
      | _ => invalid (lit "the header names another scope")
  | _ => invalid (lit "the header names no supported storage version")

/-- `_read_envelope` -/
def readEnvelope : Json → Except ReadError Envelope
  | .obj document =>
    if !(memberOf document "storage_version").eqInt storageVersion then
      invalid (lit "an envelope names no supported storage version")
    else if (memberOf document "scope").str? ≠ some scope then
      invalid (lit "an envelope names another scope")
    else
      match memberOf document "position" with
      | .int position =>
        if position < 1 then invalid (lit "an envelope's position must be a positive integer")
        else
          match named (memberOf document "store_id"), named (memberOf document "recording_epoch") with
          | some storeId, some recordingEpoch =>
            match memberOf document "decision" with
            | .obj decision => do
              let read ← Client.decisionFromDocument py decision
              if read.scope ≠ scope then
                invalid (lit "the decision names another scope than its envelope")
              else return ⟨scope, storeId, position, recordingEpoch, read⟩
            | _ => invalid (lit "an envelope carries no decision")
          | _, _ => invalid (lit "an envelope names no store or no epoch")
      | _ => invalid (lit "an envelope's position must be a positive integer")
  | _ => invalid (lit "an envelope names no supported storage version")

/-! ## The index a file gives -/

/-- What a line behind the header adds to the index. -/
def ScopeState.record (offset : ℕ) (document : Json) (s : ScopeState) :
    Except ReadError ScopeState := do
  let envelope ← readEnvelope py scope document
  let reference := envelope.decision.decisionRef
  if envelope.storeId ≠ s.storeId then invalid (lit "an envelope names another store")
  else if envelope.position ≠ s.nextPosition then
    invalid (lit "position " ++ intText envelope.position ++ lit " where " ++
      intText s.nextPosition ++ lit " was expected")
  else if s.holds reference then
    invalid (lit "decision " ++ py.repr (.str reference) ++ lit " is recorded twice")
  else
    return { s with
      nextPosition := envelope.position + 1
      index := s.index ++ [⟨reference, offset, ⟨s.storeId, envelope.position⟩⟩] }

/-- What `_rebuild` catches of a line. -/
def caught (e : ReadError) : Bool := e.kind ∈ [.valueError, .keyError, .typeError]

/-- The scope a line makes unusable. -/
def ScopeState.spoiled (number : ℕ) (e : ReadError) (s : ScopeState) : ScopeState :=
  let reason := lit "line " ++ decimal number ++ lit " is not a usable record: " ++ e.text
  { s with unusable := some reason }

/-- The lines behind the header, until one is not usable; none where one raises what is not
caught. -/
def recordLines : ℕ → ℕ → ScopeState → List Str → Option ScopeState
  | _, _, s, [] => some s
  | number, offset, s, line :: lines => do
    match (← load py line) >>= fun document => s.record py scope offset document with
    | .ok s' => recordLines (number + 1) (offset + line.length + 1) s' lines
    | .error e => if caught e then some (s.spoiled number e) else none

/-- `_rebuild`; `fresh` is the identifier a file without a header gets. -/
def rebuild (fresh : Str) (raw : Str) : Option ScopeState := do
  -- whatever stands behind the last newline is torn
  let fenced := tornLength raw != 0
  match completeLines raw with
  | [] => some ⟨fresh, 1, [], none, fenced⟩
  | header :: lines =>
    match (← load py header) >>= readHeader scope with
    | .ok storeId => recordLines py scope 2 (header.length + 1) ⟨storeId, 1, [], none, fenced⟩ lines
    | .error e => if caught e then some (ScopeState.spoiled 1 e ⟨[], 1, [], none, fenced⟩) else none

/-! ## Locks -/

inductive LockKind where
  | shared
  | exclusive
  deriving DecidableEq

/-- An advisory lock, of one open file description. -/
structure Lock where
  description : ℕ
  kind : LockKind
  deriving DecidableEq

/-- An exclusive lock and any lock of another description exclude each other. -/
def Lock.excludes (a b : Lock) : Bool :=
  a.description != b.description && (a.kind == .exclusive || b.kind == .exclusive)

/-! ## The store -/

/-- A call on the operating system that may fail. -/
inductive Point where
  | root
  | directory
  | read
  | open_
  | chmod
  | lock
  | truncate
  | truncateSync
  | reread
  | header
  | headerSync
  | envelope
  | envelopeSync
  | directorySync
  deriving DecidableEq

/-- What the store runs on: which calls fail, how many bytes a write that fails has written,
whether another writer holds the root, and the identifiers that are drawn. -/
structure Host where
  fails : Point → Bool
  written : ℕ
  rootHeld : Bool
  storeIds : ℕ → Str

inductive Event where
  /-- The file was read again, and the index made of it. -/
  | rescanned (state : ScopeState)
  | wrote (bytes : Str)

/-- The file of the scope and the index of it, and the locks of the call. -/
structure Store where
  content : Option Str
  state : Option ScopeState
  recoveredBytes : ℕ
  drawn : ℕ
  locks : List Lock
  opened : ℕ
  events : List Event

inductive AppendError where
  | scope
  | rootHeldByAnotherWriter
  | unavailable (reason : Str)
  | alreadyExists
  | indeterminate
  | osError (point : Point)
  /-- An exception of a reader that nothing catches. -/
  | uncaught
  /-- A lock is waited for that the call holds itself. -/
  | blocked
  deriving DecidableEq

abbrev Call := EStateM AppendError Store

variable (host : Host)

def refuseIf (refused : Bool) (e : AppendError) : Call Unit :=
  if refused then throw e else pure ()

def reach (point : Point) : Call Unit := refuseIf (host.fails point) (.osError point)

/-- `os.open`, or `target.open("rb")` -/
def openDescription : Call ℕ :=
  modifyGet fun s => (s.opened, { s with opened := s.opened + 1 })

/-- `fcntl.flock` -/
def flock (lock : Lock) : Call Unit := do
  refuseIf ((← get).locks.any lock.excludes) .blocked
  modify fun s => { s with locks := lock :: s.locks.filter (·.description != lock.description) }

/-- A closed description holds no lock. -/
def Store.close (description : ℕ) (s : Store) : Store :=
  { s with locks := s.locks.filter (·.description != description) }

/-- `try: ... finally: os.close(descriptor)`; a call that waits never comes to its end. -/
def closing {α : Type} (description : ℕ) (body : Call α) : Call α := fun s =>
  match body s with
  | .ok a s' => .ok a (s'.close description)
  | .error .blocked s' => .error .blocked s'
  | .error e s' => .error e (s'.close description)

/-- The index is kept. -/
def keep (state : ScopeState) : Call ScopeState :=
  modifyGet fun s => (state, { s with state := some state, drawn := s.drawn + 1 })

/-- `_rebuild`, and what it raises. -/
def rebuilt (raw : Str) : Call ScopeState := do
  match rebuild py scope (host.storeIds (← get).drawn) raw with
  | some state => keep state
  | none => throw .uncaught

/-- The index of the file as it stands, read under a shared lock. -/
def readAgain (point : Point) : Call ScopeState := do
  match (← get).content with
  | none => keep ⟨host.storeIds (← get).drawn, 1, [], none, false⟩
  | some raw =>
    reach host point
    let description ← openDescription
    closing description (flock ⟨description, .shared⟩)
    rebuilt py scope host raw

/-- `_state_locked`, which reads the file where no index is kept of it. -/
def stateLocked : Call ScopeState := do
  match (← get).state with
  | some state => return state
  | none => readAgain py scope host .read

/-- `_state_locked(..., rescan=True)` -/
def rescan : Call ScopeState := do
  let state ← readAgain py scope host .reread
  modify fun s => { s with events := s.events ++ [.rescanned state] }
  return state

def Store.setFenced (fenced : Bool) (s : Store) : Store :=
  { s with state := s.state.map fun state => { state with fenced } }

/-- `_recover_tail`: how many bytes were dropped. -/
def recoverTail : Call ℕ := do
  let raw := (← get).content.getD []
  if Whole raw then
    modify (Store.setFenced false)
    return 0
  else
    let kept := repaired (lineBound + 1) raw
    reach host .truncate
    modify fun s => { s with content := some kept }
    reach host .truncateSync
    let dropped := raw.length - kept.length
    modify fun s => { s with recoveredBytes := s.recoveredBytes + dropped }
    modify (Store.setFenced false)
    return dropped

/-- Bytes at the end of the file. -/
def Store.written (bytes : Str) (s : Store) : Store :=
  { s with content := some (s.content.getD [] ++ bytes), events := s.events ++ [.wrote bytes] }

/-- The bytes a write that fails has written: not all of them. -/
def Host.part (bytes : Str) : Str := bytes.dropLast.take host.written

def headerLine (storeId : Str) : Str :=
  Json.canonical py.toInterpreter (.obj
    [(lit "storage_version", .int storageVersion),
      (lit "header", .obj [(lit "scope", .str scope), (lit "store_id", .str storeId)])]) ++ [10]

/-- `_write_header` -/
def writeHeader (storeId : Str) : Call Unit := do
  let payload := headerLine py scope storeId
  if host.fails .header then
    modify (Store.written (host.part payload))
    throw (.osError .header)
  else
    modify (Store.written payload)
    reach host .headerSync

/-- A file that was made by this call, or that holds nothing, gets its header. -/
def beginFile (created : Bool) (storeId : Str) : Call Unit := do
  if created || (← get).content.getD [] == [] then writeHeader py scope host storeId
  else pure ()

/-- `_write_all` -/
def writeAll (payload : Str) : Call Unit := do
  if host.fails .envelope then
    modify (Store.written (host.part payload))
    modify (Store.setFenced true)
    throw .indeterminate
  else
    modify (Store.written payload)
    if host.fails .envelopeSync then
      modify (Store.setFenced true)
      throw .indeterminate
    else pure ()

/-- `_open`, which makes the file where there is none. -/
def openTarget (created : Bool) : Call ℕ := do
  reach host .open_
  modify fun s => { s with content := some (s.content.getD []) }
  refuseIf (created && host.fails .chmod) (.osError .chmod)
  openDescription

/-- `hold_root` and `_ensure_directory` -/
def prepare : Call Unit := do
  reach host .root
  refuseIf host.rootHeld .rootHeldByAnotherWriter
  reach host .directory

/-- A fenced scope is recovered, and its file read again. -/
def refreshed (d : Decision) (state : ScopeState) : Call ScopeState := do
  if state.fenced then
    discard (recoverTail host)
    let state ← rescan py scope host
    refuseIf (state.holds d.decisionRef) .alreadyExists
    return state
  else return state

/-- The line of a decision at a position. -/
def envelopeLine (epoch : Str) (d : Decision) (at_ : DecisionPosition) : Str :=
  Json.canonical py.toInterpreter (.obj
    [(lit "storage_version", .int storageVersion), (lit "scope", .str scope),
      (lit "store_id", .str at_.storeId), (lit "position", .int at_.position),
      (lit "recording_epoch", .str epoch), (lit "decision", .obj d.toDocument)]) ++ [10]

/-- The decision is written at the next position of an index. -/
def write (epoch : Str) (d : Decision) (created : Bool) (state : ScopeState) : Call Indexed := do
  beginFile py scope host created state.storeId
  let placed : DecisionPosition := ⟨state.storeId, state.nextPosition⟩
  let payload := envelopeLine py scope epoch d placed
  refuseIf (payload.length > lineBound)
    (.unavailable (lit "a decision record exceeds the byte bound"))
  let offset := ((← get).content.getD []).length
  writeAll host payload
  refuseIf (created && host.fails .directorySync) (.osError .directorySync)
  return ⟨d.decisionRef, offset, placed⟩

/-- What an append does under the lock of the file. -/
def underLock (epoch : Str) (d : Decision) (created : Bool) (description : ℕ) (state : ScopeState) :
    Call Indexed := do
  reach host .lock
  flock ⟨description, .exclusive⟩
  let state ← refreshed py scope host d state
  write py scope host epoch d created state

/-- The decision is put into the index. -/
def ScopeState.publish (entry : Indexed) (s : ScopeState) : ScopeState :=
  { s with index := s.index ++ [entry], nextPosition := entry.position.position + 1 }

/-- `append`, of a decision of the scope. -/
def append (epoch : Str) (d : Decision) : Call DecisionPosition := do
  refuseIf (!scopeMatchesContract scope) .scope
  prepare host
  let state ← stateLocked py scope host
  match state.unusable with
  | some reason =>
    throw (.unavailable (lit "scope " ++ py.repr (.str scope) ++ lit ": " ++ reason))
  | none =>
    refuseIf (state.holds d.decisionRef) .alreadyExists
    let created := (← get).content.isNone
    let description ← openTarget host created
    let entry ← closing description (underLock py scope host epoch d created description state)
    modify fun s => { s with state := s.state.map (ScopeState.publish entry) }
    return entry.position

end SayFirst.Plane.DecisionFile
