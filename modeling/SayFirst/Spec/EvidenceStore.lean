import SayFirst.Lib.Raises
import SayFirst.Spec.Evidence

/-!
# The evidence store (`adapters/file/evidence_store.py`)

The chain file of one scope: its complete lines, each the entry it was written from, and
whether bytes of a line nobody completed stand behind them. `append` drops those bytes,
declares them, places the record after the last entry and writes it; it may stop, by a
failure or a crash, before, within or after each change to the file.

* `ChainFile.append` — the call.
* `ChainStore.next` — a call, and what has been returned and torn so far.
-/

namespace SayFirst.Plane

open Py Evidence

/-- `_ENTRY_BOUND` -/
def entryBound : ℕ := 524288

/-- `_RECOVERY_PRINCIPAL` -/
def recoveryPrincipal : EvidencePrincipal := .mk (lit "service") (lit "daemon") []

/-- A record for the chain of one scope. -/
abbrev RecordOf (scope : Str) := { r : EvidenceRecord // r.scope = scope }

/-- An entry of the chain of one scope. -/
abbrev EntryOf (scope : Str) := { e : EvidenceEntry // e.scope = scope }

/-- `EvidenceRecord(...)` -/
def EvidenceFields.construct (r : EvidenceFields) : Except PyError (RecordOf r.scope) :=
  match held : r.validate with
  | .ok () => .ok ⟨⟨r, held⟩, rfl⟩
  | .error e => .error e

/-- `EvidenceEntry(...)` -/
def EntryFields.construct (e : EntryFields) : Except PyError (EntryOf e.scope) :=
  match held : e.validate with
  | .ok () => .ok ⟨⟨e, held⟩, rfl⟩
  | .error e => .error e

theorem EvidenceEntry.sequence_pos (e : EvidenceEntry) : 1 ≤ e.sequence := by
  have h := e.held
  unfold EntryFields.validate at h
  obtain ⟨_, -, h⟩ := bind_ok_iff.1 h
  obtain ⟨_, hpos, -⟩ := bind_ok_iff.1 h
  by_contra hneg
  simp [EvidenceBody.hold, require, hneg] at hpos

/-! ## Placing a record -/

/-- The record at a sequence, before its hash. -/
def EvidenceFields.at_ (r : EvidenceFields) (sequence : ℤ) (previousHash : Option Str) : EntryFields :=
  { r with sequence, previousHash, entryHash := [], preimageVersion := preimageVersion }

/-- The entry of a record at a sequence, under its hash. -/
def EvidenceRecord.entryAt (py : Interpreter) (r : EvidenceRecord) (sequence : ℤ)
    (previousHash : Option Str) : Except PyError (EntryOf r.scope) :=
  let placed := r.at_ sequence previousHash
  match entryHashOf py placed with
  | some hash => EntryFields.construct { placed with entryHash := hash }
  | none => .error (if (renderInstant r.recordedAt).isNone then .overflowError
      else .valueError "surrogates not allowed")

/-- `entry_verifies` -/
def entryVerifies (py : Interpreter) (e : EvidenceEntry) : Bool :=
  e.preimageVersion == preimageVersion && entryHashOf py e.toEntryFields == some e.entryHash

/-- `chained` -/
def chained (py : Interpreter) (r : EvidenceRecord) : Option EvidenceEntry →
    Except PyError (EntryOf r.scope)
  | none => r.entryAt py 1 none
  | some previous =>
    if previous.scope ≠ r.scope then .error (.valueError "a chain cannot follow another scope")
    else if entryHashOf py previous.toEntryFields ≠ some previous.entryHash then
      .error (.valueError "the predecessor hash does not carry its sequence")
    else r.entryAt py (previous.sequence + 1) (some previous.entryHash)

/-- `chained_after_break` -/
def chainedAfterBreak (py : Interpreter) (r : EvidenceRecord) (previous : EvidenceEntry) :
    Except PyError (EntryOf r.scope) :=
  if previous.scope ≠ r.scope then .error (.valueError "a chain cannot follow another scope")
  else r.entryAt py (previous.sequence + 1) (some previous.entryHash)

/-- `_place` -/
def EvidenceRecord.place (py : Interpreter) (r : EvidenceRecord) (previous : Option EvidenceEntry) :
    Except PyError (EntryOf r.scope) :=
  match previous with
  | some p => if entryVerifies py p then chained py r (some p) else chainedAfterBreak py r p
  | none => chained py r none

variable {scope : Str}

/-- `_place`, on the chain of a scope. -/
def RecordOf.place (py : Interpreter) (r : RecordOf scope) (previous : Option EvidenceEntry) :
    Except PyError (EntryOf scope) :=
  (r.1.place py previous).map fun e => ⟨e.1, e.2.trans r.2⟩

/-- What `_write` refuses of an entry. -/
def fits (py : Interpreter) (e : EntryOf scope) : Except PyError Unit :=
  match entryToDocument e.1.toEntryFields with
  | none => .error .overflowError
  | some document =>
    if (Json.canonical py (.obj document)).length + 1 > entryBound then
      .error (.valueError "evidence entry exceeds the byte bound")
    else .ok ()

/-- The body of a `torn` gap. -/
def tornBody (instant : Str) : Body :=
  [(lit "reason", .str (lit "torn")), (lit "count", .int 1), (lit "first_at", .str instant),
    (lit "last_at", .str instant), (lit "kinds", .obj [])]

/-- `_torn_gap`; `now` is what the clock reads, none where it raises or reads no aware instant. -/
def tornGap (py : Interpreter) (scope : Str) (now : Option Civil)
    (previous : Option EvidenceEntry) : Except PyError (EntryOf scope) :=
  match now with
  | none => .error (.valueError "clock must return an offset-aware instant")
  | some now => do
    let gap ← EvidenceFields.construct
      ⟨scope, lit "gap", ⟨some now⟩, daemonConnection, recoveryPrincipal, tornBody now.text⟩
    RecordOf.place py gap previous

/-! ## The file -/

structure ChainFile (scope : Str) where
  entries : List (EntryOf scope)
  torn : Bool

/-- Where a change to the file stops: a failure of the call, or the end of the process. -/
inductive Stop where
  | goesOn
  /-- Nothing is changed. -/
  | before
  /-- Some bytes of the line are written, and not its end. -/
  | within
  /-- The change is made, and nothing behind it: the sync fails, or what is read next. -/
  | after
  deriving DecidableEq, Repr

/-- The file, and where its next changes stop; those behind the last stop go on. -/
structure Disk (scope : Str) where
  file : ChainFile scope
  stops : List Stop

inductive StoreError where
  | raised (e : PyError)
  | stopped
  deriving DecidableEq, Repr

namespace ChainFile

/-- `_last_entry` -/
def lastEntry (c : ChainFile scope) : Option EvidenceEntry := c.entries.getLast?.map Subtype.val

/-- `latest_sequence` -/
def latestSequence (c : ChainFile scope) : Option ℤ := c.lastEntry.map fun e => e.sequence

/-- `(0 if head is None else head) + 1` -/
def nextSequence (c : ChainFile scope) : {n : ℤ // 1 ≤ n} :=
  match c.lastEntry with
  | none => ⟨1, le_refl 1⟩
  | some e => ⟨e.sequence + 1, by have := e.sequence_pos; omega⟩

/-- The bytes behind the last newline are dropped. -/
def cut (c : ChainFile scope) : ChainFile scope := { c with torn := false }

/-- Bytes of a line are written. -/
def tear (c : ChainFile scope) : ChainFile scope := { c with torn := true }

/-- A line is written. -/
def line (e : EntryOf scope) (c : ChainFile scope) : ChainFile scope :=
  { c with entries := c.entries ++ [e] }

/-- A call on the file: what ends it early leaves what it wrote. -/
abbrev Call (scope : Str) := EStateM StoreError (Disk scope)

/-- What the call raises, or goes on with. -/
def Call.of {α : Type} : Except PyError α → Call scope α
  | .ok a => pure a
  | .error e => throw (.raised e)

/-- A change to the file, and what stands there when it stops within. -/
def change (part whole : ChainFile scope → ChainFile scope) : Call scope Unit := fun d =>
  match d.stops with
  | [] => .ok () ⟨whole d.file, []⟩
  | .goesOn :: rest => .ok () ⟨whole d.file, rest⟩
  | .before :: rest => .error .stopped ⟨d.file, rest⟩
  | .within :: rest => .error .stopped ⟨part d.file, rest⟩
  | .after :: rest => .error .stopped ⟨whole d.file, rest⟩

/-- `_recover_torn_tail` -/
def recoverTornTail : Call scope Bool := do
  if (← get).file.torn then
    change id cut
    return true
  else return false

/-- `_write` -/
def write (py : Interpreter) (e : EntryOf scope) : Call scope (EntryOf scope) := do
  Call.of (fits py e)
  change tear (line e)
  return e

/-- The bytes dropped are declared. -/
def declareTorn (py : Interpreter) (now : Option Civil) : Call scope Unit := do
  let gap ← Call.of (tornGap py scope now (← get).file.lastEntry)
  discard (write py gap)

/-- The record is placed after the last entry, and written. -/
def put (py : Interpreter) (r : RecordOf scope) : Call scope (EntryOf scope) := do
  let entry ← Call.of (r.place py (← get).file.lastEntry)
  write py entry

/-- `append` -/
def append (py : Interpreter) (now : Option Civil) (r : RecordOf scope) :
    Call scope (EntryOf scope) := do
  if ← recoverTornTail then declareTorn py now
  put py r

end ChainFile

/-! ## The store over its calls -/

/-- The file of a scope, the entries its appends returned, and how many entries stood before the
bytes an append left torn. -/
structure ChainStore (scope : Str) where
  file : ChainFile scope
  returned : List (EntryOf scope)
  tears : List ℕ

inductive EvidenceCall (scope : Str) where
  | append (now : Option Civil) (r : RecordOf scope) (stops : List Stop)
  /-- The store keeps nothing from one life to the next. -/
  | restart

namespace ChainStore

/-- An empty chain. -/
def init (scope : Str) : ChainStore scope := ⟨⟨[], false⟩, [], []⟩

/-- What a call leaves: its file and what it returned. -/
def after (s : ChainStore scope) (file : ChainFile scope) (returned : Option (EntryOf scope)) :
    ChainStore scope where
  file := file
  returned := s.returned ++ returned.toList
  tears := if file.torn then s.tears ++ [file.entries.length] else s.tears

def next (py : Interpreter) (s : ChainStore scope) : EvidenceCall scope → ChainStore scope
  | .append now r stops =>
    match ChainFile.append py now r ⟨s.file, stops⟩ with
    | .ok entry disk => s.after disk.file (some entry)
    | .error _ disk => s.after disk.file none
  | .restart => s

def step (py : Interpreter) (s : ChainStore scope) (call : EvidenceCall scope) :
    Option (ChainStore scope) := some (s.next py call)

end ChainStore

end SayFirst.Plane
