import SayFirst.Lib.Triple
import SayFirst.Spec.Recovery

/-!
# Keeping a policy (`adapters/file/policy_archive.py`)

The directory of the archive, as one object of one process writes it: a final file and a temporary
one for each version. Any call on the operating system may fail, and a call that fails may still have
made its change. The write of the temporary is in pieces, any of which may fail. What another process
writes is outside the model.

* `FilePolicyArchive.keep` — the call, in the order of its file operations.
* `FilePolicyArchive.after` — the directory behind a run of calls.
-/

namespace SayFirst.Plane

open Py Evidence

def ArchiveState.value : ArchiveState → String
  | .present => "present"
  | .absent => "absent"
  | .damaged => "damaged"

/-- `ArchivedPolicy` -/
structure ArchivedPolicy where
  version : Str
  state : ArchiveState
  content : Option Bytes
  deriving DecidableEq

/-- `version_of` -/
def versionOf (py : Interpreter) (content : Bytes) : Str := lit "sha256:" ++ py.sha256 content

namespace FilePolicyArchive

/-- The files of the directory. -/
inductive FileName where
  /-- `<hex>.toml` -/
  | final (version : Str)
  /-- `.<hex>.tmp-<pid>-<id>`, the process and the object being the same in every call -/
  | temporary (version : Str)
  deriving DecidableEq

structure Directory where
  made : Bool
  file : FileName → Option Bytes

/-- The calls on the operating system, in the order `keep` makes them. -/
inductive Operation where
  | read
  | isDir
  | mkdir
  | chmod
  | syncParent
  | openTemporary
  | fchmod
  | fsync
  | closeTemporary
  | link
  | unlink
  | syncDirectory
  | readAgain
  deriving DecidableEq, Repr

inductive Answer where
  | done
  | failed
  /-- It raises, and its change is made. -/
  | late
  deriving DecidableEq, Repr

/-- How the operating system answers one call of `keep`. A write takes `n + 1` bytes at most, or
raises; those behind the last of `writes` take everything. -/
structure Host where
  answer : Operation → Answer
  writes : List (Option ℕ)

/-- Nothing fails. -/
def Host.healthy : Host := ⟨fun _ => .done, []⟩

inductive ArchiveError where
  | valueError (message : String)
  | osError
  | fileExists
  deriving DecidableEq, Repr

abbrev Call := EStateM ArchiveError Directory

namespace Directory

/-- The file holds the content, or is gone. -/
def set (d : Directory) (name : FileName) (content : Option Bytes) : Directory :=
  { d with file := fun other => if other = name then content else d.file other }

end Directory

variable (py : Interpreter) (host : Host)

/-- A call on the operating system, and the change it makes. -/
def doing (operation : Operation) (change : Directory → Directory) : Call Unit := fun d =>
  match host.answer operation with
  | .done => .ok () (change d)
  | .failed => .error .osError d
  | .late => .error .osError (change d)

/-- `_read_locked` -/
def readLocked (operation : Operation) (version : Str) : Call ArchivedPolicy := do
  doing host operation id
  match (← get).file (.final version) with
  | none => return ⟨version, .absent, none⟩
  | some content =>
    return if versionOf py content ≠ version then ⟨version, .damaged, none⟩
      else ⟨version, .present, some content⟩

/-- `_ensure_directory` -/
def ensureDirectory : Call Unit := do
  doing host .isDir id
  if (← get).made then return ()
  doing host .mkdir fun d => { d with made := true }
  doing host .chmod id
  doing host .syncParent id

/-- `os.open(temporary, os.O_WRONLY | os.O_CREAT | os.O_EXCL, 0o600)` -/
def openTemporary (version : Str) : Call Unit := do
  if ((← get).file (.temporary version)).isSome then throw .fileExists
  doing host .openTemporary fun d => d.set (.temporary version) (some [])

/-- Bytes are written behind those of the temporary. -/
def extend (version : Str) (bytes : Bytes) (d : Directory) : Directory :=
  d.set (.temporary version) ((d.file (.temporary version)).map (· ++ bytes))

/-- `while view: view = view[os.write(descriptor, view):]` -/
def writeAll (version : Str) : List (Option ℕ) → Bytes → Call Unit
  | _, [] => return ()
  | [], content => modify (extend version content)
  | none :: _, _ => throw .osError
  | some n :: writes, content => do
    modify (extend version (content.take (n + 1)))
    writeAll version writes (content.drop (n + 1))

/-- What is done under the descriptor; `os.close` comes behind it however it ends. -/
def fill (version : Str) (content : Bytes) : Call Unit := do
  doing host .fchmod id
  writeAll version host.writes content
  doing host .fsync id

/-- `try: ... finally: os.close(descriptor)` -/
def closing (body : Call Unit) : Call Unit := fun d =>
  match body d with
  | .ok () d => doing host .closeTemporary id d
  | .error e d =>
    match doing host .closeTemporary id d with
    | .ok () d => .error e d
    | .error e d => .error e d

/-- `os.link(temporary, target)`: whether there was no target. -/
def link (version : Str) : Call Bool := do
  let d ← get
  if (d.file (.final version)).isSome then return false
  doing host .link fun d => d.set (.final version) (d.file (.temporary version))
  return true

/-- The temporary is published under its version. -/
def publish (version : Str) (content : Bytes) : Call ArchivedPolicy := do
  let linked ← link host version
  doing host .unlink fun d => d.set (.temporary version) none
  doing host .syncDirectory id
  if linked then return ⟨version, .present, some content⟩
  else readLocked py host .readAgain version

/-- `keep` -/
def keep (version : Str) (content : Bytes) : Call ArchivedPolicy := do
  if !digestPattern.fullmatch version then
    throw (.valueError "a policy version is sha256: and sixty-four lowercase hex digits")
  if versionOf py content ≠ version then
    throw (.valueError "the bytes do not hash to the version they were offered under")
  let existing ← readLocked py host .read version
  if existing.state ≠ .absent then return existing
  ensureDirectory host
  openTemporary host version
  closing host (fill host version content)
  publish py host version content

/-- A call of `keep`. -/
structure Kept where
  version : Str
  content : Bytes
  host : Host

/-- The directory behind a call, however it ends. -/
def step (d : Directory) (call : Kept) : Directory :=
  match keep py call.host call.version call.content d with
  | .ok _ d => d
  | .error _ d => d

def after (d : Directory) (calls : List Kept) : Directory := calls.foldl (step py) d

end FilePolicyArchive

end SayFirst.Plane
