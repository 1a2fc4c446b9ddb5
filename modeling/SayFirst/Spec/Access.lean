import SayFirst.Spec.Policy
import Mathlib.Algebra.GroupWithZero.Nat

/-!
# Who could write the authority (`access/effective_access.py`)

* `resolveIdentity`, `buildPrincipal` — the principal a peer credential becomes
  (`domain/principal.py`).
* `decidingPrincipal`, `callerAccess` — what the HTTP surface makes of it
  (`adapters/http_surface.py`).
* `writeAccess` — what a principal could do to a file, through any name of it.
* `protection` — whether nobody but the administrators could.
* `evaluateGrade` — what an inspected path supports (`domain/integrity_grade.py`).
* `refusedAtAsk` — the two refusals an ask begins with.
-/

namespace SayFirst.Plane

open Py

/-! ## Identity -/

structure PeerCredential where
  uid : ℕ
  gid : ℕ

structure Account where
  name : Str
  primaryGid : ℕ

/-- What the account directory answers. -/
structure AccountDirectory where
  account : ℕ → Option Account
  groupIds : Str → ℕ → List ℕ
  groupName : ℕ → Option Str

inductive GroupsStatus where
  | resolved
  | partial_
  | unknown
  deriving DecidableEq, Repr

structure GroupResolution where
  groups : Option (List Str)
  status : GroupsStatus
  unnamedGroupIds : List ℕ

/-- The group ids the directory reports of a peer. -/
def reportedGids (directory : AccountDirectory) (uid primaryGid : ℕ) : List ℕ :=
  match directory.account uid with
  | some account => directory.groupIds account.name account.primaryGid
  | none => [primaryGid]

/-- `resolve_identity` -/
def resolveIdentity (directory : AccountDirectory) (uid primaryGid : ℕ) :
    Option Account × GroupResolution :=
  let gids := reportedGids directory uid primaryGid
  let names := gids.filterMap directory.groupName
  let unnamed := gids.filter fun gid => (directory.groupName gid).isNone
  (directory.account uid,
    ⟨some names, if unnamed.isEmpty then .resolved else .partial_, unnamed⟩)

/-- `Principal` (`sayfirst_contract/whoami.py`) -/
structure PeerPrincipal where
  kind : Str
  uid : ℕ
  gid : ℕ
  name : Option Str
  groups : Option (List Str)
  groupsStatus : GroupsStatus
  unnamedGroupIds : List ℕ

/-- `build_principal` -/
def buildPrincipal (credential : PeerCredential) (account : Option Account)
    (resolution : GroupResolution) (kind : Str) : PeerPrincipal where
  kind := kind
  uid := credential.uid
  gid := credential.gid
  name := account.map Account.name
  groups := resolution.groups
  groupsStatus := resolution.status
  unnamedGroupIds := resolution.unnamedGroupIds

/-- The principal a connection is established with. -/
def establish (directory : AccountDirectory) (credential : PeerCredential) (kind : Str) :
    PeerPrincipal :=
  let (account, resolution) := resolveIdentity directory credential.uid credential.gid
  buildPrincipal credential account resolution kind

/-- `principal.name or str(principal.uid)` -/
def PeerPrincipal.nameOrUid (p : PeerPrincipal) : Str :=
  match p.name with
  | some (c :: cs) => c :: cs
  | _ => decimal p.uid

/-- `_deciding_principal` -/
def decidingPrincipal (p : PeerPrincipal) : Principal where
  kind := p.kind
  uid := p.uid
  userName := p.nameOrUid
  gids := p.gid :: p.unnamedGroupIds
  groupNames := p.groups.getD []
  delegatedHuman := none

structure CallerAccess where
  uid : ℕ
  gids : List ℕ

/-- `_caller_access`, of a connection with a principal. -/
def callerAccess (p : PeerPrincipal) : CallerAccess := ⟨p.uid, p.gid :: p.unnamedGroupIds⟩

/-! ## The file system -/

/-- An absolute path: its components, from the root down. -/
abbrev Path := List Str

structure Metadata where
  uid : ℕ
  gid : ℕ
  mode : ℕ
  isDirectory : Bool
  isLink : Bool

structure AclEntry where
  tag : ℕ
  permissions : ℕ
  identifier : ℕ

/-- What a link names: an absolute path, or one from the directory the link is in. -/
structure LinkTarget where
  absolute : Bool
  parts : List Str

/-- What the host answers about a path; none where it raises `OSError`. -/
structure FileSystem where
  isSymlink : Path → Option Bool
  readlink : Path → Option LinkTarget
  lstat : Path → Option Metadata
  /-- `_acl` -/
  acl : Path → Option (List AclEntry)

/-- `(current, *current.parents)` -/
def chainOf (current : Path) : List Path := current.inits.reverse

/-- `_MAX_LINKS` -/
def maxLinks : ℕ := 40

/-- The loop of `_extend`: the chains of one segment, and of what its first link names. -/
def segmentChains (fs : FileSystem) (follow : Path → Option (List (List Path))) (current : Path) :
    List Str → Option (List (List Path))
  | [] => some [chainOf current]
  | part :: rest =>
    if part = lit ".." then
      (segmentChains fs follow current.dropLast rest).map (chainOf current :: ·)
    else
      match fs.isSymlink (current ++ [part]) with
      | none => none
      | some false => segmentChains fs follow (current ++ [part]) rest
      | some true =>
        match fs.readlink (current ++ [part]) with
        | none => none
        | some target =>
          (follow ((if target.absolute then target.parts else current ++ target.parts) ++ rest)).map
            (chainOf (current ++ [part]) :: ·)

/-- `_extend`; `links` more may be followed. -/
def extend (fs : FileSystem) : ℕ → Path → Option (List (List Path))
  | 0, _ => none
  | links + 1, absolute => segmentChains fs (extend fs links) [] absolute

/-- `_naming_chains`, of a name made absolute; none where it raises. -/
def namingChains (fs : FileSystem) (path : Path) : Option (List (List Path)) :=
  extend fs (maxLinks + 1) path

/-! ## Write access -/

inductive AccessState where
  | writable
  | notWritable
  | unknown
  deriving DecidableEq, Repr

structure AccessVerdict where
  kind : AccessState
  component : Option Path
  reason : Option String
  deriving DecidableEq

def hasBit (mode bit : ℕ) : Bool := mode &&& bit != 0

/-- `write_reaches_the_entry_below` -/
def writeReachesTheEntryBelow (mode : ℕ) (isDirectory ownsTheDirectory ownsTheEntry : Bool) : Bool :=
  if !isDirectory then true
  else if !hasBit mode 0o1000 then true
  else ownsTheDirectory || ownsTheEntry

/-- The mask entry of an access list, or every permission. -/
def aclMask (entries : List AclEntry) : ℕ :=
  ((entries.find? (·.tag == 0x10)).map AclEntry.permissions).getD 7

/-- `_acl_writers`, of the entries of one tag. -/
def aclWriters (entries : List AclEntry) (tag : ℕ) : List ℕ :=
  (entries.filter fun e => e.tag == tag && hasBit (e.permissions &&& aclMask entries) 0x02).map
    AclEntry.identifier

/-- `_acl_unless_a_link` -/
def aclUnlessALink (fs : FileSystem) (component : Path) (metadata : Metadata) :
    Option (List AclEntry) :=
  if metadata.isLink then some [] else fs.acl component

/-- Whether a grant on this component reaches the entry below it. -/
def reaches (uid : ℕ) (entryUid : Option ℕ) (first : Bool) (metadata : Metadata) : Bool :=
  first || writeReachesTheEntryBelow metadata.mode metadata.isDirectory (uid == metadata.uid)
    (entryUid == some uid)

/-- Whether the component gives write to a group. -/
def groupWrites (metadata : Metadata) (entries : List AclEntry) (gid : ℕ) : Bool :=
  (aclWriters entries 0x08).contains gid || (metadata.gid == gid && hasBit metadata.mode 0o020)

/-- `_write_access_along`, from a component on. -/
def writeAccessAlong (fs : FileSystem) (uid : ℕ) (gids : List ℕ) (entryUid : Option ℕ)
    (first : Bool) : List Path → AccessVerdict
  | [] => ⟨.notWritable, none, none⟩
  | component :: above =>
    match fs.lstat component with
    | none => ⟨.unknown, some component, some "stat_failed"⟩
    | some metadata =>
      match aclUnlessALink fs component metadata with
      | none => ⟨.unknown, some component, some "acl_unreadable"⟩
      | some entries =>
        if uid = 0 then ⟨.writable, some component, some "root"⟩
        else if reaches uid entryUid first metadata && !metadata.isLink then
          if uid = metadata.uid then ⟨.writable, some component, some "owner"⟩
          else if (aclWriters entries 0x02).contains uid ||
              (aclWriters entries 0x08).any gids.contains then
            ⟨.writable, some component, some "acl_write"⟩
          else if gids.contains metadata.gid && hasBit metadata.mode 0o020 then
            ⟨.writable, some component, some "group_write"⟩
          else if hasBit metadata.mode 0o002 then ⟨.writable, some component, some "other_write"⟩
          else writeAccessAlong fs uid gids (some metadata.uid) false above
        else writeAccessAlong fs uid gids (some metadata.uid) false above

/-- The loop of `write_access`, with the first chain that could not be read. -/
def writeAccessOver (fs : FileSystem) (uid : ℕ) (gids : List ℕ) (unknown : Option AccessVerdict) :
    List (List Path) → AccessVerdict
  | [] => unknown.getD ⟨.notWritable, none, none⟩
  | chain :: rest =>
    let verdict := writeAccessAlong fs uid gids none true chain
    if verdict.kind = .writable then verdict
    else
      writeAccessOver fs uid gids
        (if verdict.kind = .unknown ∧ unknown.isNone then some verdict else unknown) rest

/-- `write_access` -/
def writeAccess (fs : FileSystem) (path : Path) (uid : ℕ) (gids : List ℕ) : AccessVerdict :=
  match namingChains fs path with
  | none => ⟨.unknown, some path, some "stat_failed"⟩
  | some chains => writeAccessOver fs uid gids none chains

/-! ## Protection -/

inductive ProtectionState where
  | protected_
  | exposed
  | unknown
  deriving DecidableEq, Repr

structure ProtectionVerdict where
  kind : ProtectionState
  component : Option Path
  reason : Option String
  deriving DecidableEq

/-- The administrators a path is judged against. -/
structure Administrators where
  allowedOwnerUids : List ℕ
  allowedWriteGids : List ℕ

/-- `_entries_are_replaceable` -/
def entriesAreReplaceable (metadata : Metadata) (first : Bool) : Bool :=
  first || writeReachesTheEntryBelow metadata.mode metadata.isDirectory false false

/-- `_protection_along`, from a component on. -/
def protectionAlong (fs : FileSystem) (admins : Administrators) (first : Bool) :
    List Path → ProtectionVerdict
  | [] => ⟨.protected_, none, none⟩
  | component :: above =>
    match fs.lstat component with
    | none => ⟨.unknown, some component, some "stat_failed"⟩
    | some metadata =>
      match aclUnlessALink fs component metadata with
      | none => ⟨.unknown, some component, some "acl_unreadable"⟩
      | some entries =>
        if !admins.allowedOwnerUids.contains metadata.uid then
          ⟨.exposed, some component, some "owner"⟩
        else if metadata.isLink then protectionAlong fs admins false above
        else if entriesAreReplaceable metadata first then
          if !((aclWriters entries 0x02).all admins.allowedOwnerUids.contains) ||
              !((aclWriters entries 0x08).all admins.allowedWriteGids.contains) then
            ⟨.exposed, some component, some "acl_write"⟩
          else if hasBit metadata.mode 0o020 && !admins.allowedWriteGids.contains metadata.gid then
            ⟨.exposed, some component, some "group_write"⟩
          else if hasBit metadata.mode 0o002 then ⟨.exposed, some component, some "other_write"⟩
          else protectionAlong fs admins false above
        else protectionAlong fs admins false above

/-- The loop of `protection`, with the first chain that could not be read. -/
def protectionOver (fs : FileSystem) (admins : Administrators)
    (unknown : Option ProtectionVerdict) : List (List Path) → ProtectionVerdict
  | [] => unknown.getD ⟨.protected_, none, none⟩
  | chain :: rest =>
    let verdict := protectionAlong fs admins true chain
    if verdict.kind = .exposed then verdict
    else
      protectionOver fs admins
        (if verdict.kind = .unknown ∧ unknown.isNone then some verdict else unknown) rest

/-- `protection` -/
def protection (fs : FileSystem) (path : Path) (admins : Administrators) : ProtectionVerdict :=
  match namingChains fs path with
  | none => ⟨.unknown, some path, some "stat_failed"⟩
  | some chains => protectionOver fs admins none chains

/-- `FilePolicyStore.write_access_of`; `moved` is a name that changed under the walk. -/
def policyAccess (fs : FileSystem) (path : Path) (moved : Bool) (p : Principal) : AccessVerdict :=
  if moved then ⟨.unknown, some path, some "changed_while_checked"⟩
  else writeAccess fs path p.uid p.gids

/-- `FileConfiguration.write_access_of` -/
def configurationAccess (fs : FileSystem) (path : Path) (p : Principal) : AccessVerdict :=
  writeAccess fs path p.uid p.gids

inductive AskRefusal where
  | policyWritableByPrincipal
  | configurationWritableByPrincipal
  deriving DecidableEq, Repr

/-- What `ask` refuses a principal over in system mode, before anything else. -/
def refusedAtAsk (policy configuration : AccessVerdict) : Option AskRefusal :=
  if policy.kind ≠ .notWritable then some .policyWritableByPrincipal
  else if configuration.kind ≠ .notWritable then some .configurationWritableByPrincipal
  else none

/-! ## Grades -/

structure PathFacts where
  isThere : Bool
  ownerUid : Option ℕ
  ownerGid : Option ℕ
  mode : Option ℕ
  aclPresent : Option Bool

inductive Grade where
  | unverified
  | observability
  | evidence
  deriving DecidableEq, Repr

structure GradeEvaluation where
  grade : Grade
  basis : String
  pathsInspected : ℕ
  deriving DecidableEq

/-- A path whose owner and mode were established, and that has no access list. -/
structure KnownFacts where
  ownerUid : ℕ
  ownerGid : ℕ
  mode : ℕ

def PathFacts.known (f : PathFacts) : Option KnownFacts :=
  match f.isThere, f.ownerUid, f.ownerGid, f.mode, f.aclPresent with
  | true, some ownerUid, some ownerGid, some mode, some false => some ⟨ownerUid, ownerGid, mode⟩
  | _, _, _, _, _ => none

/-- `_class_bits` -/
def classBits (caller : CallerAccess) (fact : KnownFacts) : ℕ :=
  if caller.uid = fact.ownerUid then fact.mode >>> 6 &&& 7
  else if caller.gids.contains fact.ownerGid then fact.mode >>> 3 &&& 7
  else fact.mode &&& 7

/-- The loop of `evaluate_grade`: how many paths were read when one could be written. -/
def writableAt (caller : CallerAccess) (index : ℕ) : List KnownFacts → Option ℕ
  | [] => none
  | fact :: below =>
    let bits := classBits caller fact
    let owns := caller.uid == fact.ownerUid
    let overChild := match below with
      | [] => true
      | child :: _ =>
        writeReachesTheEntryBelow fact.mode true owns (child.ownerUid == caller.uid)
    if (owns || hasBit bits 2) && overChild then some (index + 1)
    -- what cannot be searched cannot be reached through
    else if hasBit bits 1 then writableAt caller (index + 1) below
    else none

/-- `evaluate_grade` -/
def evaluateGrade (caller : CallerAccess) (facts : List PathFacts) : GradeEvaluation :=
  if caller.uid = 0 then ⟨.observability, "caller_can_write", facts.length⟩
  else
    match facts.mapM PathFacts.known with
    | none => ⟨.unverified, "access_not_established", facts.length⟩
    | some known =>
      if facts.isEmpty then ⟨.unverified, "access_not_established", 0⟩
      else
        match writableAt caller 0 known with
        | some inspected => ⟨.observability, "caller_can_write", inspected⟩
        | none => ⟨.unverified, "caller_cannot_write", facts.length⟩

/-- `GRADE_RANK` -/
def Grade.rank : Grade → ℕ
  | .unverified => 0
  | .observability => 1
  | .evidence => 2

/-- `_weakest_claim` (`application/evidence_emitter.py`) -/
def weakestClaim (evaluations : List GradeEvaluation) : GradeEvaluation :=
  let inspected := (evaluations.map (·.pathsInspected)).sum
  let claim := ["caller_can_write", "access_not_established", "caller_cannot_write"].findSome?
    fun basis => (evaluations.find? (·.basis == basis)).map fun item => ⟨item.grade, basis, inspected⟩
  claim.getD ⟨.unverified, "access_not_established", inspected⟩

end SayFirst.Plane
