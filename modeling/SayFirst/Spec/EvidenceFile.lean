import SayFirst.Lib.Lines
import SayFirst.Spec.EntryDocument

/-!
# The file of a chain (`adapters/file/evidence_store.py`)

The chain file of one scope as the bytes it holds.

* `recoverTornTail` — the bytes behind the last newline are dropped, or the file is refused.
* `lastEntry` — the last entry, looked for from the end within a bound.
* `readRange` — the entries, read from the beginning.
-/

namespace SayFirst.Plane.EvidenceFile

open Py Evidence

/-- `_TAIL_BOUND` -/
def tailBound : ℕ := entryBound + 1

/-- `_recover_torn_tail`: whether a tail was dropped, and the file behind the call. -/
def recoverTornTail (raw : Str) : Except PyError Bool × Str :=
  if Whole raw then (.ok false, raw)
  else
    let window := min raw.length tailBound
    match lastNewline (raw.drop (raw.length - window)) with
    | some i => (.ok true, raw.take (raw.length - window + i + 1))
    | none =>
      if window < raw.length then
        (.error (.valueError "the incomplete evidence entry exceeds the bounded tail"), raw)
      else (.ok true, [])

variable (py : Interpreter) (float : Str → PyFloat) (fromIso : FromIso)

/-- `json.loads` of a stored line, and the entry of it. -/
def readLine (line : Str) : Except PyError TimedEntry :=
  match Json.loads float line with
  | none => .error (.valueError "Expecting value")
  | some (.obj document) => entryFromDocument py fromIso document
  | some _ => .error (.valueError "stored evidence entry is not an object")

/-- `complete.rsplit(b"\n", 1)[-1]` -/
def afterLast (s : Str) : Str := (s.reverse.takeWhile (· ≠ 10)).reverse

/-- The loop of `_last_entry`, from an amount on: the line it finds, none where it finds none. -/
def scanBack (raw : Str) (amount : ℕ) : Option Str :=
  let complete := beforeLast (raw.drop (raw.length - amount))
  if !complete.isEmpty && (raw.length == amount || complete.contains 10) then
    some (afterLast complete)
  else if h : 0 < amount ∧ amount < min raw.length tailBound then
    scanBack raw (min (min raw.length tailBound) (amount * 2))
  else none
termination_by min raw.length tailBound - amount
decreasing_by omega

/-- `_last_entry` -/
def lastEntry (raw : Str) : Except PyError (Option TimedEntry) :=
  if raw = [] then .ok none
  else
    match scanBack raw (min raw.length 4096) with
    | some line => (readLine py float fromIso line).map some
    | none => .error (.valueError "stored evidence entry exceeds the bounded tail")

/-- `validate_scope` -/
def validateScope (scope : Str) : Except PyError Unit :=
  require (scopePattern.fullmatch scope) (.valueError "scope does not match the contract")

/-- `latest_sequence`; a scope without a chain has no file. -/
def latestSequence (scope : Str) (file : Option Str) : Except PyError (Option ℤ) := do
  validateScope scope
  match file with
  | none => return none
  | some raw =>
    let last ← lastEntry py float fromIso raw
    return last.map (·.entry.sequence)

/-- `raw.splitlines()`, behind what a line has so far. -/
def splitLines : Str → Str → List Str
  | [], [] => []
  | line, [] => [line]
  | line, 10 :: s => line :: splitLines [] s
  | line, 13 :: 10 :: s => line :: splitLines [] s
  | line, 13 :: s => line :: splitLines [] s
  | line, c :: s => splitLines (line ++ [c]) s

/-- `_validate_range` -/
def validateRange (scope : Str) (fromSequence : ℤ) (toSequence : Option ℤ) : Except PyError Unit := do
  validateScope scope
  require (!(fromSequence < 1 || toSequence.any (· < fromSequence)))
    (.valueError "evidence range is invalid")

/-- `read_range` -/
def readRange (scope : Str) (file : Option Str) (fromSequence : ℤ) (toSequence : Option ℤ) :
    Except PyError (List TimedEntry) := do
  validateRange scope fromSequence toSequence
  match file with
  | none => return []
  | some raw =>
    let lines := if raw.getLast? = some 10 then splitLines [] raw else (splitLines [] raw).dropLast
    let entries ← lines.mapM (readLine py float fromIso)
    return entries.filter fun e =>
      fromSequence ≤ e.entry.sequence && toSequence.all fun t => e.entry.sequence ≤ t

end SayFirst.Plane.EvidenceFile
