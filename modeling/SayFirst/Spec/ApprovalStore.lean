import SayFirst.Lib.Heap
import SayFirst.Spec.Approval

/-!
# Where a suspended approval waits (`application/approvals.py`)

Each operation runs under the store's lock and answers with the store it leaves
behind, also when it raises: `resolve` ends a wait that ran out and then raises.
The clock is read where the source reads it.
-/

namespace SayFirst.Plane

open Py

/-- `(scope, approval_ref)` -/
abbrev ApprovalKey := Str × Str

/-- The order of the pairs the two due-time indexes hold. -/
def dueLe (a b : ℤ × ApprovalKey) : Bool :=
  a.1 < b.1 || (a.1 == b.1 &&
    (if a.2.1 = b.2.1 then Str.le a.2.2 b.2.2 else Str.le a.2.1 b.2.1))

structure ApprovalStore where
  byReference : ApprovalKey → Option Approval
  byQuestion : Question → List ApprovalKey
  due : List (ℤ × ApprovalKey)
  lapsing : List (ℤ × ApprovalKey)

inductive ApprovalError where
  | valueError (message : String)
  | keyError
  | approvalAlreadyExists
  | approvalAlreadyResolved
  | approvalAlreadyClaimed
  | approvalUnknown
  deriving DecidableEq, Repr

inductive ApprovalResolution where
  | approve
  | reject
  deriving DecidableEq, Repr

/-- `_STATE_OF` -/
def ApprovalResolution.state : ApprovalResolution → ApprovalState
  | approve => .approved
  | reject => .rejected

/-- What an operation answers, and the store it leaves. -/
abbrev StoreAnswer (α : Type) := Except ApprovalError α × ApprovalStore

namespace ApprovalStore

def empty : ApprovalStore := ⟨fun _ => none, fun _ => [], [], []⟩

/-- `self._by_reference[key] = record` -/
def put (s : ApprovalStore) (key : ApprovalKey) (a : Approval) : ApprovalStore :=
  { s with byReference := fun k => if k = key then some a else s.byReference k }

/-- `_lapse_instant` -/
def lapseInstant (kept : Approval) : Option ℤ :=
  if kept.state = .pending then none
  else if kept.state = .approved ∧ kept.consumed = false then none
  else if kept.consumed then kept.consumedAt.map (· + (kept.deadline - kept.requestedAt))
  else kept.resolvedAt.map (· + (kept.deadline - kept.requestedAt))

/-- `_is_of_no_further_use` -/
def isOfNoFurtherUse (kept : Approval) (now : ℤ) : Bool := (lapseInstant kept).any (· ≤ now)

/-- `_index_lapse` -/
def indexLapse (s : ApprovalStore) (key : ApprovalKey) (kept : Approval) : ApprovalStore :=
  match lapseInstant kept with
  | none => s
  | some lapsesAt => { s with lapsing := heappush dueLe (lapsesAt, key) s.lapsing }

/-- `open` -/
def openWait (s : ApprovalStore) (a : Approval) : StoreAnswer Approval :=
  if a.published then
    (.error (.valueError "an approval is opened unpublished: publication is the store's transition, taken once the provider has the wait and its decision is committed"), s)
  else if a.state ≠ .pending then
    (.error (.valueError ("only a pending approval can be opened, not a " ++ a.state.value ++ " one")), s)
  else if (s.byReference a.key).isSome then (.error .approvalAlreadyExists, s)
  else
    (.ok a,
      { s.put a.key a with
        byQuestion := fun q => if q = a.question then s.byQuestion q ++ [a.key] else s.byQuestion q
        due := heappush dueLe (a.deadline, a.key) s.due })

/-- `read` -/
def read (s : ApprovalStore) (key : ApprovalKey) : Except ApprovalError Approval :=
  match s.byReference key with
  | some kept => .ok kept
  | none => .error .approvalUnknown

/-- The walk of `_newest_live` over the references of one question, newest first. -/
def newestLiveIn (s : ApprovalStore) (now : ℤ) (inFlight : Bool) :
    List ApprovalKey → Except ApprovalError (Option Approval)
  | [] => .ok none
  | key :: older =>
    match s.byReference key with
    | none => .error .keyError
    | some kept =>
      if kept.consumed then newestLiveIn s now inFlight older
      else if (kept.claimed || !kept.published) && !inFlight then newestLiveIn s now inFlight older
      else if kept.stateAt now = .expired then newestLiveIn s now inFlight older
      else if kept.state = .rejected ∧ kept.deadline ≤ now then newestLiveIn s now inFlight older
      else .ok (some kept)

/-- `_newest_live` -/
def newestLive (s : ApprovalStore) (question : Question) (now : ℤ) (inFlight : Bool) :
    Except ApprovalError (Option Approval) :=
  newestLiveIn s now inFlight (s.byQuestion question).reverse

/-- `find_for_question` -/
def findForQuestion (s : ApprovalStore) (question : Question) (clock : ℤ) :
    Except ApprovalError (Option Approval) :=
  s.newestLive question clock false

/-- `open_if_absent` -/
def openIfAbsent (s : ApprovalStore) (a : Approval) (clock : ℤ) : StoreAnswer Approval :=
  match s.newestLive a.question clock true with
  | .error raised => (.error raised, s)
  | .ok (some found) => (.ok found, s)
  | .ok none => s.openWait a

/-- A record rebuilt by `replace` and put back under its key. -/
def putReplaced (s : ApprovalStore) (key : ApprovalKey) (fields : ApprovalFields) :
    StoreAnswer Approval :=
  match fields.build with
  | .error message => (.error (.valueError message), s)
  | .ok a => (.ok a, s.put key a)

/-- `publish` -/
def publish (s : ApprovalStore) (key : ApprovalKey) : StoreAnswer Approval :=
  match s.read key with
  | .error raised => (.error raised, s)
  | .ok kept =>
    if kept.state ≠ .pending then
      (.error (.valueError "only an open wait is published, and a wait a person answered was published by that act"), s)
    else if kept.published then (.ok kept, s)
    else s.putReplaced key { kept.toApprovalFields with published := true }

/-- The record and its reference are taken out; `list.remove` raises on a missing one. -/
def drop (s : ApprovalStore) (key : ApprovalKey) (kept : Approval) :
    Except ApprovalError Unit × ApprovalStore :=
  let s' : ApprovalStore :=
    { s with byReference := fun k => if k = key then none else s.byReference k }
  let references := s.byQuestion kept.question
  if references.isEmpty then (.ok (), s')
  else if key ∉ references then (.error (.valueError "list.remove(x): x not in list"), s')
  else
    (.ok (), { s' with
      byQuestion := fun q => if q = kept.question then references.erase key else s.byQuestion q })

/-- `abandon` -/
def abandon (s : ApprovalStore) (key : ApprovalKey) : StoreAnswer Approval :=
  match s.read key with
  | .error raised => (.error raised, s)
  | .ok kept =>
    if kept.state ≠ .pending ∨ kept.claimed ∨ kept.published then
      (.error (.valueError "only a wait nobody has been told about, nobody has answered and nobody is spending can be abandoned"), s)
    else
      let (answer, s') := s.drop key kept
      (answer.map fun _ => kept, s')

/-- `resolve` -/
def resolve (s : ApprovalStore) (key : ApprovalKey) (person : Str)
    (resolution : ApprovalResolution) (reason : Option Str) (now : ℤ) : StoreAnswer Approval :=
  match s.read key with
  | .error raised => (.error raised, s)
  | .ok kept =>
    if kept.state ≠ .pending then (.error .approvalAlreadyResolved, s)
    else if kept.deadline ≤ now then
      match ({ kept.toApprovalFields with
          state := .expired, resolvedAt := some kept.deadline } : ApprovalFields).build with
      | .error message => (.error (.valueError message), s)
      | .ok expired =>
        (.error .approvalAlreadyResolved, (s.put key expired).indexLapse key expired)
    else
      match ({ kept.toApprovalFields with
          state := resolution.state, resolvedAt := some now, person := some person,
          resolutionReason := reason, published := true } : ApprovalFields).build with
      | .error message => (.error (.valueError message), s)
      | .ok resolved => (.ok resolved, (s.put key resolved).indexLapse key resolved)

/-- `claim` -/
def claim (s : ApprovalStore) (key : ApprovalKey) : StoreAnswer Approval :=
  match s.read key with
  | .error raised => (.error raised, s)
  | .ok kept =>
    if kept.state ≠ .approved then
      (.error (.valueError "only an approved approval authorises an execution"), s)
    else if kept.consumed || kept.claimed then (.error .approvalAlreadyClaimed, s)
    else s.putReplaced key { kept.toApprovalFields with claimed := true }

/-- `release_claim` -/
def releaseClaim (s : ApprovalStore) (key : ApprovalKey) : StoreAnswer Approval :=
  match s.read key with
  | .error raised => (.error raised, s)
  | .ok kept =>
    if kept.consumed then
      (.error (.valueError "the execution it authorised happened, and a claim behind a record is not given back"), s)
    else if kept.claimed = false then (.error (.valueError "the approval is not claimed"), s)
    else s.putReplaced key { kept.toApprovalFields with claimed := false }

/-- `consume` -/
def consume (s : ApprovalStore) (key : ApprovalKey) (clock : ℤ) : StoreAnswer Approval :=
  match s.read key with
  | .error raised => (.error raised, s)
  | .ok kept =>
    if kept.state ≠ .approved then
      (.error (.valueError "only an approved approval authorises an execution"), s)
    else if kept.consumed then
      (.error (.valueError "the approval was already consumed: one resolution authorises one execution"), s)
    else if kept.claimed = false then
      (.error (.valueError "the execution is taken under this lock before the decision that spends it is recorded"), s)
    else
      match ({ kept.toApprovalFields with
          consumed := true, consumedAt := some clock } : ApprovalFields).build with
      | .error message => (.error (.valueError message), s)
      | .ok consumed => (.ok consumed, (s.put key consumed).indexLapse key consumed)

/-! ## The sweeps

Every turn of a loop takes out an entry that is due and puts back none that is,
so the length of the index bounds the turns.
-/

/-- The loop of `expire_past`, with the records it ended. -/
def expireLoop (now : ℤ) : ℕ → ApprovalStore → List Approval → StoreAnswer (List Approval)
  | 0, s, ended => (.ok ended, s)
  | turns + 1, s, ended =>
    match s.due with
    | [] => (.ok ended, s)
    | (at_, key) :: rest =>
      if now < at_ then (.ok ended, s)
      else
        let popped := { s with due := rest }
        match s.byReference key with
        | none => expireLoop now turns popped ended
        | some kept =>
          if kept.state ≠ .pending then expireLoop now turns popped ended
          else if now < kept.deadline then
            -- the reference was opened again: back at the deadline the record holds
            expireLoop now turns { popped with due := heappush dueLe (kept.deadline, key) rest }
              ended
          else
            match ({ kept.toApprovalFields with
                state := .expired, resolvedAt := some kept.deadline } : ApprovalFields).build with
            | .error message => (.error (.valueError message), popped)
            | .ok expired =>
              expireLoop now turns ((popped.put key expired).indexLapse key expired)
                (ended ++ [expired])

/-- `_store_key` order, the order a sweep answers in. -/
def storeKeyLe (a b : Approval) : Bool :=
  if a.scope = b.scope then Str.le a.approvalRef b.approvalRef else Str.le a.scope b.scope

/-- `expire_past` -/
def expirePast (s : ApprovalStore) (now : ℤ) : StoreAnswer (List Approval) :=
  let (answer, s') := expireLoop now s.due.length s []
  (answer.map (·.insertionSort (storeKeyLe · ·)), s')

/-- The loop of `forget_lapsed`, with the records it dropped. -/
def forgetLoop (now : ℤ) : ℕ → ApprovalStore → List Approval → StoreAnswer (List Approval)
  | 0, s, forgotten => (.ok forgotten, s)
  | turns + 1, s, forgotten =>
    match s.lapsing with
    | [] => (.ok forgotten, s)
    | (at_, key) :: rest =>
      if now < at_ then (.ok forgotten, s)
      else
        let popped := { s with lapsing := rest }
        match s.byReference key with
        | none => forgetLoop now turns popped forgotten
        | some kept =>
          if isOfNoFurtherUse kept now then
            match popped.drop key kept with
            | (.error raised, s') => (.error raised, s')
            | (.ok (), s') => forgetLoop now turns s' (forgotten ++ [kept])
          else forgetLoop now turns (popped.indexLapse key kept) forgotten

/-- `forget_lapsed` -/
def forgetLapsed (s : ApprovalStore) (now : ℤ) : StoreAnswer (List Approval) :=
  let (answer, s') := forgetLoop now s.lapsing.length s []
  (answer.map (·.insertionSort (storeKeyLe · ·)), s')

end ApprovalStore

/-! ## The operations under one clock -/

/-- A call of the store. The instant handed to `resolve` and to the two sweeps was read from the
clock before the lock was taken; every other operation reads the clock under it. -/
inductive StoreCall where
  | tick (now : ℤ)
  | openIfAbsent (a : Approval)
  | publish (key : ApprovalKey)
  | abandon (key : ApprovalKey)
  | resolve (key : ApprovalKey) (person : Str) (resolution : ApprovalResolution)
      (reason : Option Str) (at_ : ℤ)
  | claim (key : ApprovalKey)
  | releaseClaim (key : ApprovalKey)
  | consume (key : ApprovalKey)
  | expirePast (at_ : ℤ)
  | forgetLapsed (at_ : ℤ)

/-- The store, and what its clock reads. -/
structure ClockedStore where
  now : ℤ
  store : ApprovalStore

def ClockedStore.step (s : ClockedStore) : StoreCall → Option ClockedStore
  | .tick now => if s.now ≤ now then some { s with now } else none
  | .openIfAbsent a => some { s with store := (s.store.openIfAbsent a s.now).2 }
  | .publish key => some { s with store := (s.store.publish key).2 }
  | .abandon key => some { s with store := (s.store.abandon key).2 }
  | .resolve key person resolution reason at_ =>
    if at_ ≤ s.now then
      some { s with store := (s.store.resolve key person resolution reason at_).2 }
    else none
  | .claim key => some { s with store := (s.store.claim key).2 }
  | .releaseClaim key => some { s with store := (s.store.releaseClaim key).2 }
  | .consume key => some { s with store := (s.store.consume key s.now).2 }
  | .expirePast at_ =>
    if at_ ≤ s.now then some { s with store := (s.store.expirePast at_).2 } else none
  | .forgetLapsed at_ =>
    if at_ ≤ s.now then some { s with store := (s.store.forgetLapsed at_).2 } else none

/-! ## The operations at any instant -/

/-- A call that may change the store, with the instant its clock reads. -/
inductive StoreOperation where
  | openWait (a : Approval)
  | openIfAbsent (a : Approval) (clock : ℤ)
  | publish (key : ApprovalKey)
  | abandon (key : ApprovalKey)
  | resolve (key : ApprovalKey) (person : Str) (resolution : ApprovalResolution)
      (reason : Option Str) (now : ℤ)
  | claim (key : ApprovalKey)
  | releaseClaim (key : ApprovalKey)
  | consume (key : ApprovalKey) (clock : ℤ)
  | expirePast (now : ℤ)
  | forgetLapsed (now : ℤ)

/-- The store an operation leaves, whatever it answers. -/
def ApprovalStore.perform (s : ApprovalStore) : StoreOperation → ApprovalStore
  | .openWait a => (s.openWait a).2
  | .openIfAbsent a clock => (s.openIfAbsent a clock).2
  | .publish key => (s.publish key).2
  | .abandon key => (s.abandon key).2
  | .resolve key person resolution reason now => (s.resolve key person resolution reason now).2
  | .claim key => (s.claim key).2
  | .releaseClaim key => (s.releaseClaim key).2
  | .consume key clock => (s.consume key clock).2
  | .expirePast now => (s.expirePast now).2
  | .forgetLapsed now => (s.forgetLapsed now).2

end SayFirst.Plane
