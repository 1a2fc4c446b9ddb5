import SayFirst.Lib.JsonRead
import SayFirst.Lib.Interpreter
import SayFirst.Lib.Lines
import SayFirst.Lib.Run

/-!
# The recovery journal (`adapters/file/recovery_journal.py`)

The journal file of one scope as the text it holds (canonical JSON is ASCII, so a byte is a
character), with what each call does to it when a write of it fails after some bytes.

* `JournalRecord` — a record `_read_record` lets through.
* `readLocked`, `append`, `recover` — the calls on the file.
* `Journal.next` — a call, and what has been returned of the appends.
-/

namespace SayFirst.Plane

open Py

inductive JournalKind where
  | epochOpen
  | epochClean
  | epochReconciled
  deriving DecidableEq, Repr

def JournalKind.text : JournalKind → String
  | epochOpen => "epoch_open"
  | epochClean => "epoch_clean"
  | epochReconciled => "epoch_reconciled"

/-- `RECORDS` -/
def JournalKind.ofText (value : Json) : Option JournalKind :=
  [epochOpen, epochClean, epochReconciled].find? fun kind => value.eqText kind.text

/-- `JournalRecord`, as `_read_record` lets it through. -/
structure JournalRecord where
  record : JournalKind
  epochId : Str
  storeId : Option Str
  fromSequence : Option ℤ
  markerSequence : Option ℤ
  markerHash : Option Str
  epoch_ne : epochId ≠ []
  from_pos : ∀ n, fromSequence = some n → 1 ≤ n
  opened : record = .epochOpen → fromSequence.isSome

/-- `open_epochs` -/
def openEpochs (records : List JournalRecord) : List JournalRecord :=
  records.filter fun item => item.record == .epochOpen &&
    !records.any fun other => other.record != .epochOpen && other.epochId == item.epochId

/-- A record of the journal, at its position. -/
structure JournalRow where
  scope : Str
  position : ℤ
  record : JournalRecord

/-- `_LINE_BOUND` -/
def lineBound : ℕ := 65536

variable (py : Interpreter) (float : Str → PyFloat)

/-! ## The lines -/

/-- The header of the journal of a scope. -/
def headerDocument (scope : Str) : List (Str × Json) :=
  [(lit "journal_version", .int 1), (lit "header", .obj [(lit "scope", .str scope)])]

/-- The document of a record at a position. -/
def JournalRecord.document (scope : Str) (position : ℤ) (r : JournalRecord) : List (Str × Json) :=
  [(lit "journal_version", .int 1), (lit "scope", .str scope), (lit "position", .int position),
    (lit "record", .str (lit r.record.text)), (lit "epoch_id", .str r.epochId),
    (lit "store_id", .ofOption .str r.storeId), (lit "from_sequence", .ofOption .int r.fromSequence),
    (lit "marker_sequence", .ofOption .int r.markerSequence),
    (lit "marker_hash", .ofOption .str r.markerHash)]

def headerLine (scope : Str) : Str := Json.canonical py (.obj (headerDocument scope))

def JournalRecord.line (scope : Str) (position : ℤ) (r : JournalRecord) : Str :=
  Json.canonical py (.obj (r.document scope position))

/-! ## Reading -/

/-- A sequence that is a positive integer, or null. -/
def sequenceOf (value : Json) : Option (Option {n : ℤ // 1 ≤ n}) :=
  match value with
  | .null => some none
  | .int n => if h : 1 ≤ n then some (some ⟨n, h⟩) else none
  | _ => none

/-- `document.get(key)`: `None` where it is absent. -/
def memberOf (document : List (Str × Json)) (key : String) : Json :=
  (Json.get document key).getD .null

/-- `JournalRecord(...)`, when an opened epoch says where it begins. -/
def recordOf (kind : JournalKind) (epochId : Str) (storeId : Option Str)
    (fromSequence markerSequence : Option {n : ℤ // 1 ≤ n}) (markerHash : Option Str) :
    Option JournalRecord :=
  if held : epochId ≠ [] ∧ (kind = .epochOpen → fromSequence.isSome) then
    some { record := kind, epochId, storeId, fromSequence := fromSequence.map (·.1)
           markerSequence := markerSequence.map (·.1), markerHash
           epoch_ne := held.1
           from_pos := by
             intro n hn
             obtain ⟨m, -, rfl⟩ := Option.map_eq_some_iff.1 hn
             exact m.2
           opened := fun h => by simpa using held.2 h }
  else none

/-- `_read_record`; none where it raises. -/
def readRecord (document : List (Str × Json)) (scope : Str) (expected : ℤ) : Option JournalRow := do
  let kind ← JournalKind.ofText (memberOf document "record")
  let epochId ← (memberOf document "epoch_id").str?
  let fromSequence ← sequenceOf (memberOf document "from_sequence")
  let markerSequence ← sequenceOf (memberOf document "marker_sequence")
  let record ← recordOf kind epochId (memberOf document "store_id").str? fromSequence
    markerSequence (memberOf document "marker_hash").str?
  if (memberOf document "scope").str? = some scope ∧
      (memberOf document "position").eqInt expected = true then
    some ⟨scope, expected, record⟩
  else none

/-- `json.loads(line)`, when it is an object of the journal's version. -/
def versioned (line : Str) : Option (List (Str × Json)) :=
  match Json.loads float line with
  | some (.obj document) =>
    if (memberOf document "journal_version").eqInt 1 then some document else none
  | _ => none

/-- The header names the scope. -/
def headerNames (document : List (Str × Json)) (scope : Str) : Bool :=
  match memberOf document "header" with
  | .obj header => (memberOf header "scope").str? == some scope
  | _ => false

/-- The records behind the header, each at its position. -/
def readRows (scope : Str) : ℤ → List Str → Option (List JournalRow)
  | _, [] => some []
  | expected, line :: lines => do
    let document ← versioned float line
    let row ← readRecord document scope expected
    let rows ← readRows scope (expected + 1) lines
    return row :: rows

/-- `_read_locked`; none where a line is no usable record. -/
def readLocked (scope : Str) (text : Str) : Option (List JournalRow) :=
  match completeLines text with
  | [] => some []
  | header :: lines => do
    let document ← versioned float header
    if headerNames document scope then readRows float scope 1 lines else none

/-- `records`: a journal without a file holds none. -/
def records (scope : Str) (content : Option Str) : Option (List JournalRow) :=
  match content with
  | none => some []
  | some text => readLocked float scope text

/-! ## Writing -/

/-- What an append that is let through writes: a header where there is none, and its line. -/
def payload (scope : Str) (text : Str) (rows : List JournalRow) (r : JournalRecord) : Str :=
  terminated ((if text = [] then [headerLine py scope] else []) ++
    [r.line py scope ((rows.getLast?.map (·.position)).getD 0 + 1)])

/-- What becomes of an append whose process lives on. -/
inductive Fate where
  | works
  /-- The file is not opened, nor created. -/
  | unopened
  /-- The file is opened, and created where there was none; nothing is written. -/
  | unwritten
  /-- `os.write` fails after so many bytes. -/
  | short (count : ℕ)
  /-- Everything is written, and `os.fsync` fails. -/
  | unsynced

/-- What of the payload is written. -/
def Fate.written (fate : Fate) (payload : Str) : Str :=
  match fate with
  | works => payload
  | unopened => []
  | unwritten => []
  | short count => payload.take count
  | unsynced => payload

def Fate.returns : Fate → Bool
  | works => true
  | _ => false

/-- `_append`: the file it leaves, and whether it returned. -/
def append (scope : Str) (content : Option Str) (r : JournalRecord) : Fate → Option Str × Bool
  | .unopened => (content, false)
  | fate =>
    let text := content.getD []
    match readLocked float scope text with
    | none => (some text, false)
    | some rows => (some (text ++ fate.written (payload py scope text rows r)), fate.returns)

/-- `recover` -/
def recover (content : Option Str) : Option Str := content.map (repaired (lineBound + 1))

/-! ## The journal over its calls -/

/-- A record whose texts are read back as they were written, with positive marks: what the
recovery writer appends. -/
structure Appendable extends JournalRecord where
  epoch_spelled : Json.spelled epochId = true
  store_spelled : ∀ s, storeId = some s → Json.spelled s = true
  hash_spelled : ∀ s, markerHash = some s → Json.spelled s = true
  marker_pos : ∀ n, markerSequence = some n → 1 ≤ n

/-- The file of a scope, and the records whose append returned. -/
structure Journal where
  content : Option Str
  returned : List JournalRecord

inductive JournalCall where
  | append (r : Appendable) (fate : Fate)
  /-- A start: `recover`. -/
  | restart

namespace Journal

/-- No journal. -/
def init : Journal := ⟨none, []⟩

def next (scope : Str) (s : Journal) : JournalCall → Journal
  | .append r fate =>
    let (content, returned) := Plane.append py float scope s.content r.toJournalRecord fate
    ⟨content, if returned then s.returned ++ [r.toJournalRecord] else s.returned⟩
  | .restart => ⟨recover s.content, s.returned⟩

def step (scope : Str) (s : Journal) (call : JournalCall) : Option Journal :=
  some (s.next py float scope call)

end Journal

end SayFirst.Plane
