import SayFirst.Spec.Connection
import SayFirst.Spec.Readers

/-!
# The readers of an identity and of a grant

`WhoAmI.from_document` with the peer, the principal and the declared delegation
(`whoami.py`), and `Grant.from_document` (`grants.py`).
-/

namespace SayFirst.Client

open Py
open SayFirst.Plane (GroupsStatus ConnectionStatus Mode)

instance : StrEnum GroupsStatus where
  members := [.resolved, .partial_, .unknown]
  value
    | .resolved => lit "resolved"
    | .partial_ => lit "partial"
    | .unknown => lit "unknown"

instance : StrEnum ConnectionStatus where
  members := [.established, .unknown, .refused]
  value
    | .established => lit "established"
    | .unknown => lit "unknown"
    | .refused => lit "refused"

instance : StrEnum Mode where
  members := [.perUser, .system]
  value
    | .perUser => lit "per_user"
    | .system => lit "system"

structure Peer where
  uid : ℤ
  gid : ℤ
  pid : Option ℤ
  capturedAt : Str

structure Principal where
  kind : Str
  uid : ℤ
  gid : ℤ
  name : Option Str
  groups : Option (List Str)
  groupsStatus : Known GroupsStatus
  unnamedGroupIds : List ℤ
  establishedBy : Str
  establishedAt : Str
  extra : Members

structure DelegatedIdentity where
  kind : Str
  name : Option Str
  uid : Option ℤ
  via : Str

/-- `Delegation.declared`: its status is always `declared`. -/
structure Delegation where
  chain : List DelegatedIdentity

structure WhoAmI where
  contractGeneration : ℤ
  connectionId : Str
  socketPath : Str
  mode : Known Mode
  peer : Peer
  principal : Option Principal
  status : Known ConnectionStatus
  refreshDueAt : Option Str
  groupLifetimeSeconds : ℤ
  delegation : Option Delegation
  extra : Members

variable (py : ClientHost)

/-- `Peer.from_document` -/
def peerFromDocument (document : Members) : Except ReadError Peer := do
  let pid ← item document "pid"
  let uid ← wholeAt py document "uid"
  let gid ← wholeAt py document "gid"
  let capturedAt ← textAt py document "captured_at"
  return ⟨uid, gid, pid.plainInt?, capturedAt⟩

/-- `tuple(str(item) for item in groups) if isinstance(groups, list) else None` -/
def groupNames : Json → Option (List Str)
  | .arr groups => some (groups.map (Json.text py.toInterpreter))
  | _ => none

/-- `document.get("unnamed_group_ids", ())`, each read as an integer. -/
def unnamedGroupIds (document : Members) : Except ReadError (List ℤ) :=
  match Json.get document "unnamed_group_ids" with
  | none => .ok []
  | some value => iterated py value >>= List.mapM (whole py)

/-- `Principal.from_document` -/
def principalFromDocument (document : Members) : Except ReadError Principal := do
  let groups ← item document "groups"
  let name ← item document "name"
  let kind ← textAt py document "kind"
  let uid ← wholeAt py document "uid"
  let gid ← wholeAt py document "gid"
  let groupsStatus ← enumAt py GroupsStatus document "groups_status"
  let unnamed ← unnamedGroupIds py document
  let establishedBy ← textAt py document "established_by"
  let establishedAt ← textAt py document "established_at"
  return { kind, uid, gid, name := name.str?, groups := groupNames py groups, groupsStatus
           unnamedGroupIds := unnamed, establishedBy, establishedAt
           extra := extra ["kind", "uid", "gid", "name", "groups", "groups_status",
             "unnamed_group_ids", "established_by", "established_at", "reference"] document }

/-! ## The declared delegation -/

/-- `_bounded`: `encode` raises `UnicodeEncodeError`, a `ValueError`, on a lone surrogate. -/
def bounded (value : Str) (limit : ℕ) (name : String) : Except ReadError Str :=
  match utf8 value with
  | none => .error ⟨.valueError, py.encodeError value⟩
  | some raw =>
    if raw.length > limit then
      invalid (lit "delegation " ++ lit name ++ lit " is longer than " ++ decimal limit ++
        lit " bytes")
    else .ok value

/-- The first name, in order, of a member that a delegation entry does not define. -/
def undefinedMember (members : Members) : Option Str :=
  (sortedSet ((members.map (·.1)).filter fun k =>
    ! ["kind", "name", "uid", "via"].any (lit · == k))).head?

/-- A name that is a string or null. -/
def linkName : Json → Except ReadError (Option Str)
  | .null => .ok none
  | .str s => .ok (some s)
  | _ => invalid (lit "a delegation name must be a string or null")

/-- A uid that is a whole number or null. -/
def linkUid : Json → Except ReadError (Option ℤ)
  | .null => .ok none
  | .int n =>
    if n < 0 then invalid (lit "a delegation uid must be a whole number or null") else .ok (some n)
  | _ => invalid (lit "a delegation uid must be a whole number or null")

/-- A text that is not empty. -/
def linkText (message : String) (value : Json) : Except ReadError Str :=
  match value with
  | .str (c :: s) => .ok (c :: s)
  | _ => invalid (lit message)

/-- `_read_link` -/
def readLink (value : Json) : Except ReadError DelegatedIdentity := do
  let link ← object "a delegation entry must be an object" value
  match undefinedMember link with
  | some name => invalid (lit "a delegation entry names " ++ py.repr (.str name))
  | none =>
    let kind ← linkText "a delegation entry needs a kind" (member link "kind")
    let via ← linkText "a delegation entry needs a via" (member link "via")
    let name ← linkName (member link "name")
    let uid ← linkUid (member link "uid")
    let kind ← bounded py kind 64 "kind"
    let name ←
      match name with
      | none => .ok none
      | some name => (bounded py name 256 "name").map some
    let via ← bounded py via 64 "via"
    return ⟨kind, name, uid, via⟩

/-- `Delegation.declared(delegation["chain"]) if isinstance(delegation, Mapping) else None` -/
def delegationOf : Json → Except ReadError (Option Delegation)
  | .obj delegation => do
    let chain ← item delegation "chain"
    let links ← iterated py chain
    let chain ← links.mapM (readLink py)
    return some ⟨chain⟩
  | _ => .ok none

/-- `Principal.from_document(principal) if isinstance(principal, Mapping) else None` -/
def principalOf : Json → Except ReadError (Option Principal)
  | .obj principal => (principalFromDocument py principal).map some
  | _ => .ok none

/-- `WhoAmI.from_document` -/
def whoAmIFromDocument (document : Members) : Except ReadError WhoAmI := do
  let peer ← item document "peer"
  let principal ← item document "principal"
  let delegation ← item document "delegation"
  let refreshDueAt ← item document "refresh_due_at"
  let peer ← object "peer must be an object" peer
  let contractGeneration ← wholeAt py document "contract_generation"
  let connectionId ← textAt py document "connection_id"
  let socketPath ← textAt py document "socket_path"
  let mode ← enumAt py Mode document "mode"
  let peer ← peerFromDocument py peer
  let principal ← principalOf py principal
  let status ← enumAt py ConnectionStatus document "status"
  let groupLifetimeSeconds ← wholeAt py document "group_lifetime_seconds"
  let delegation ← delegationOf py delegation
  return { contractGeneration, connectionId, socketPath, mode, peer, principal, status
           refreshDueAt := refreshDueAt.str?, groupLifetimeSeconds, delegation
           extra := extra ["contract_generation", "connection_id", "socket_path", "mode", "peer",
             "principal", "status", "refresh_due_at", "group_lifetime_seconds",
             "delegation"] document }

/-! ## `grants.py` -/

structure GrantConditions where
  scope : Str
  capability : Str
  principalReference : Str
  argumentsDigest : Option Str
  deriving DecidableEq

structure Grant where
  grantId : Str
  decisionRef : Str
  policyVersion : Str
  issuedAt : Str
  lifetimeSeconds : ℤ
  expiresAt : Str
  heartbeatSeconds : ℤ
  conditions : GrantConditions

/-- `None if conditions["arguments_digest"] is None else str(conditions["arguments_digest"])` -/
def pinnedDigest : Json → Option Str
  | .null => none
  | value => some (value.text py.toInterpreter)

/-- `Grant.from_document` -/
def grantFromDocument (document : Members) : Except ReadError Grant := do
  let conditions ←
    item document "conditions" >>= object "a grant publishes its conditions as an object"
  let grantId ← textAt py document "grant_id"
  let decisionRef ← textAt py document "decision_ref"
  let policyVersion ← textAt py document "policy_version"
  let issuedAt ← textAt py document "issued_at"
  let lifetimeSeconds ← wholeAt py document "lifetime_seconds"
  let expiresAt ← textAt py document "expires_at"
  let heartbeatSeconds ← wholeAt py document "heartbeat_seconds"
  let scope ← textAt py conditions "scope"
  let capability ← textAt py conditions "capability"
  let principalReference ← textAt py conditions "principal_reference"
  let argumentsDigest ← item conditions "arguments_digest"
  return { grantId, decisionRef, policyVersion, issuedAt, lifetimeSeconds, expiresAt
           heartbeatSeconds
           conditions := ⟨scope, capability, principalReference, pinnedDigest py argumentsDigest⟩ }

end SayFirst.Client
