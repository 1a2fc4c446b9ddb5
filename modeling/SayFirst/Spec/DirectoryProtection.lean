import SayFirst.Spec.Access

/-!
# The directory of the local address (`domain/directory_protection.py`)

Whoever writes the directory of the socket, or one above it, can put another socket under its name.
The daemon does not start before every one of them is its own or root's, and no one else's to write.

* `directoryProtection` — the verdict on a directory and those above it.
* `ancestorsProtection` — the part of it that the place of the evidence is held to as well.
-/

namespace SayFirst.Plane

open Py

/-- What `stat` said of a directory. -/
structure DirectoryFacts where
  name : Str
  mode : ℕ
  uid : ℕ
  isDirectory : Bool
  hasAccessAcl : Option Bool
  deriving DecidableEq, Repr

def socketDirectoryUnprotected : String := "socket_directory_unprotected"

def aclChecked : String := "checked"

def aclUnverified : String := "unverified"

def aclNotOnThisPlatform : String := "not checked on this platform"

/-- `Verdict` -/
structure DirectoryVerdict where
  refusal : Option String
  detail : Str
  acl : String
  deriving DecidableEq, Repr

/-- `protected` -/
def DirectoryVerdict.isProtected (v : DirectoryVerdict) : Bool := v.refusal.isNone

/-- `_refused` -/
def refusedDirectory (detail : Str) (acl : String) : DirectoryVerdict :=
  ⟨some socketDirectoryUnprotected, detail, acl⟩

variable (daemonUid : ℕ) (platform : String)

/-- One turn of the loop of `ancestors_protection`. -/
def ancestorProtection (ancestor : DirectoryFacts) : Option Str :=
  if ancestor.uid ≠ 0 ∧ ancestor.uid ≠ daemonUid then
    some (lit "an ancestor is owned by uid " ++ decimal ancestor.uid ++ lit ": " ++ ancestor.name)
  -- Anybody else owns neither this directory nor the entry below it.
  else if !writeReachesTheEntryBelow ancestor.mode true false false then none
  else if hasBit ancestor.mode 0o002 then
    some (lit "an ancestor is writable by anyone and not sticky: " ++ ancestor.name)
  else if hasBit ancestor.mode 0o020 then
    some (lit "an ancestor is writable by a group and not sticky: " ++ ancestor.name)
  else if platform = "linux" then
    match ancestor.hasAccessAcl with
    | none =>
      some (lit "an ancestor's access control list could not be read: " ++ ancestor.name)
    | some true =>
      some (lit "an ancestor carries an access control list and is not sticky: " ++ ancestor.name)
    | some false => none
  else none

/-- `ancestors_protection`, nearest first. -/
def ancestorsProtection (ancestors : List DirectoryFacts) : Option Str :=
  ancestors.findSome? (ancestorProtection daemonUid platform)

/-- The answer of the check of access lists. -/
def aclOf (st : DirectoryFacts) : String :=
  if platform ≠ "linux" then aclNotOnThisPlatform
  else if st.hasAccessAcl = none then aclUnverified
  else aclChecked

/-- `directory_protection` -/
def directoryProtection (st : DirectoryFacts) (ancestors : List DirectoryFacts) :
    DirectoryVerdict :=
  let refused := fun detail => refusedDirectory detail (aclOf platform st)
  if !st.isDirectory then refused (lit "not a directory: " ++ st.name)
  else if st.uid ≠ 0 ∧ st.uid ≠ daemonUid then
    refused (lit "owned by uid " ++ decimal st.uid ++ lit ": " ++ st.name)
  else if hasBit st.mode (0o020 ||| 0o002) then refused (lit "writable by others: " ++ st.name)
  else if platform = "linux" ∧ st.hasAccessAcl = none then
    -- A check that could not run is not one that passed.
    refused (lit "the access control list could not be read: " ++ st.name)
  else if platform = "linux" ∧ st.hasAccessAcl = some true then
    refused (lit "carries an access control list: " ++ st.name)
  else
    match ancestorsProtection daemonUid platform ancestors with
    | some replaceable => refused replaceable
    | none => ⟨none, lit "acl: " ++ lit (aclOf platform st), aclOf platform st⟩

end SayFirst.Plane
