import SayFirst.Lib.Simulation
import SayFirst.Spec.EvidenceFile
import SayFirst.Spec.EvidenceReads
import SayFirst.Spec.EvidenceStore

/-!
# The two evidence stores, call by call (`adapters/memory/evidence_store.py`)

The chain of one scope as the daemon's memory holds it, and the calls of either store as a machine.
A call of the file store carries what its clock reads and where its changes to the file stop.

* `MemoryChain.append`, `readRange`, `latestSequence` — the store in memory.
* `memoryStore`, `fileStore` — the machines.
-/

namespace SayFirst.Plane

open Py Evidence
open EvidenceFile (validateScope validateRange)

variable {scope : Str}

/-- `_chains[scope]`; a scope without a chain has an empty one. -/
abbrev MemoryChain (scope : Str) := List (EntryOf scope)

/-- An entry of a record's scope is one of the chain of the record. -/
theorem RecordOf.scope_of_entry (r : RecordOf scope) (e : EntryOf r.1.scope) : e.1.scope = scope :=
  e.2.trans r.2

namespace MemoryChain

/-- `append` -/
def append (py : Interpreter) (chain : MemoryChain scope) (r : RecordOf scope) :
    Except PyError (EntryOf scope) × MemoryChain scope :=
  match validateScope scope with
  | .error e => (.error e, chain)
  | .ok _ =>
    match chained py r.1 (chain.getLast?.map Subtype.val) with
    | .error e => (.error e, chain)
    | .ok entry =>
      let entry : EntryOf scope := ⟨entry.1, r.scope_of_entry entry⟩
      (.ok entry, chain ++ [entry])

/-- `read_range` -/
def readRange (chain : MemoryChain scope) (fromSequence : ℤ) (toSequence : Option ℤ) :
    Except PyError (List EvidenceEntry) := do
  validateRange scope fromSequence toSequence
  return (chain.map Subtype.val).filter fun e =>
    fromSequence ≤ e.sequence && toSequence.all fun t => e.sequence ≤ t

/-- `latest_sequence` -/
def latestSequence (chain : MemoryChain scope) : Except PyError (Option ℤ) := do
  validateScope scope
  return chain.getLast?.map fun e => e.1.sequence

end MemoryChain

/-- The store in memory. -/
def memoryStore (py : Interpreter) (scope : Str) :
    Machine (MemoryChain scope) (RecordOf scope) (Except PyError (EntryOf scope)) :=
  MemoryChain.append py

/-- The store of the file: what an append answers, or raises, and none for a restart. -/
def fileStore (py : Interpreter) (scope : Str) :
    Machine (ChainFile scope) (EvidenceCall scope) (Option (Except StoreError (EntryOf scope)))
  | c, .append now r stops =>
    match validateScope scope with
    | .error e => (some (.error (.raised e)), c)
    | .ok _ =>
      match ChainFile.append py now r ⟨c, stops⟩ with
      | .ok e d => (some (.ok e), d.file)
      | .error err d => (some (.error err), d.file)
  -- What a restart loses is the memory of the process; the file is read again.
  | c, .restart => (none, c)

namespace ChainFile

/-- `read_range`, with what it refuses. -/
def readRangeOf (c : ChainFile scope) (fromSequence : ℤ) (toSequence : Option ℤ) :
    Except PyError (List EvidenceEntry) := do
  validateRange scope fromSequence toSequence
  return c.readRange fromSequence toSequence

/-- `latest_sequence`, with what it refuses. -/
def latestSequenceOf (c : ChainFile scope) : Except PyError (Option ℤ) := do
  validateScope scope
  return c.latestSequence

end ChainFile

end SayFirst.Plane
