import SayFirst.Spec.SocketClient

/-!
# When an exception leaves a reader

The clause around the readers names `KeyError`, `TypeError` and `ValueError`. What passes it
is the `OverflowError` of an infinite number handed to `int`, at the first member that does
not read.

* `Operation.reader_raises` — the documents on which an exception leaves an operation's reader.
* `grant_raises` — the grants on which one leaves `Grant.from_document`.
-/

namespace SayFirst.Client

open Py
open SayFirst.Plane (Outcome)

/-- An exception the clause around a reader does not name. -/
def Uncaught (error : ReadError) : Prop := error.isCaught = false

/-- A number that is infinite: `Infinity`, or a numeral beyond the floats. -/
def Infinite (value : Json) : Prop := ∃ negative, value = .float (.infinite negative)

def Has (document : Members) (key : String) : Prop := ∃ value, Json.get document key = some value

def InfiniteAt (document : Members) (key : String) : Prop :=
  ∃ value, Json.get document key = some value ∧ Infinite value

variable (py : ClientHost)

/-- The first item that is not read as an integer is infinite. -/
def FirstInfinite (items : List Json) : Prop :=
  ∃ before value after, items = before ++ value :: after ∧
    (∀ earlier ∈ before, Returns (whole py earlier)) ∧ Infinite value

/-! ## The documents -/

/-- A policy status whose format or rule count is infinite, behind members that read. -/
def PolicyStatusOverflows (document : Members) : Prop :=
  (∃ projected, Json.get document "projection" = some (.obj projected)) ∧
    Has document "authority" ∧ Has document "policy_version" ∧
    (InfiniteAt document "format" ∨ Returns (wholeAt py document "format") ∧
      Has document "loaded_at" ∧ InfiniteAt document "rule_count")

/-- A grade whose interval is infinite. -/
def GradeOverflows (document : Members) : Prop :=
  Has document "grade" ∧ Has document "basis" ∧ Has document "evaluated_at" ∧
    Has document "store" ∧ InfiniteAt document "reevaluation_interval_seconds"

/-- A status with an infinite generation, interval or uid, behind members that read. -/
def StatusOverflows (generation : ℤ) (document : Members) : Prop :=
  ∃ principal store grade items,
    Json.get document "principal" = some (.obj principal) ∧
    Json.get document "store" = some (.obj store) ∧
    Json.get document "integrity_grade" = some (.obj grade) ∧
    Json.get document "supported_generations" = some (.arr items) ∧
    (FirstInfinite py items ∨
      (∃ supported, items.mapM (whole py) = .ok supported ∧ generation ∈ supported) ∧
      (GradeOverflows grade ∨ Returns (gradeFromDocument py grade) ∧
        Has document "privacy_provider" ∧ Has principal "kind" ∧ InfiniteAt principal "uid"))

/-- A peer with an infinite uid or gid. -/
def PeerOverflows (document : Members) : Prop :=
  Has document "pid" ∧
    (InfiniteAt document "uid" ∨ Returns (wholeAt py document "uid") ∧ InfiniteAt document "gid")

/-- A principal with an infinite uid, gid or group id, behind members that read. -/
def PrincipalOverflows (document : Members) : Prop :=
  Has document "groups" ∧ Has document "name" ∧ Has document "kind" ∧
    (InfiniteAt document "uid" ∨ Returns (wholeAt py document "uid") ∧
      (InfiniteAt document "gid" ∨ Returns (wholeAt py document "gid") ∧
        Has document "groups_status" ∧
        ∃ items, Json.get document "unnamed_group_ids" = some (.arr items) ∧
          FirstInfinite py items))

/-- An identity with an infinite number in its peer, its principal or its lifetime. -/
def WhoAmIOverflows (document : Members) : Prop :=
  ∃ peer principal,
    Json.get document "peer" = some (.obj peer) ∧
    Json.get document "principal" = some principal ∧
    Has document "delegation" ∧ Has document "refresh_due_at" ∧ Has document "connection_id" ∧
    Has document "socket_path" ∧ Has document "mode" ∧
    (PeerOverflows py peer ∨ Returns (peerFromDocument py peer) ∧
      ((∃ members, principal = .obj members ∧ PrincipalOverflows py members) ∨
        Returns (principalOf py principal) ∧ Has document "status" ∧
          InfiniteAt document "group_lifetime_seconds"))

/-- A grant whose lifetime or heartbeat is infinite, behind members that read. -/
def GrantOverflows (document : Members) : Prop :=
  (∃ conditions, Json.get document "conditions" = some (.obj conditions)) ∧
    Has document "grant_id" ∧ Has document "decision_ref" ∧ Has document "policy_version" ∧
    Has document "issued_at" ∧
    (InfiniteAt document "lifetime_seconds" ∨ Returns (wholeAt py document "lifetime_seconds") ∧
      Has document "expires_at" ∧ InfiniteAt document "heartbeat_seconds")

/-- The documents of generation `generation` on which an exception leaves the reader. -/
def Operation.Overflows (operation : Operation) (generation : ℤ) (document : Members) : Prop :=
  match operation with
  | readStatus => StatusOverflows py generation document
  | readWhoami => WhoAmIOverflows py document
  | readPolicyStatus => PolicyStatusOverflows py document
  | _ => False

variable {py}

/-! ## Each piece of a reader -/

section Pieces

variable {document : Members} {key : String} {value : Json}

theorem item_ok : item document key = .ok value ↔ Json.get document key = some value := by
  unfold item
  cases Json.get document key <;> simp

@[simp] theorem item_raises : Raises Uncaught (item document key) ↔ False := by
  unfold item
  cases Json.get document key <;> simp [Uncaught, ReadError.isCaught]

theorem item_map_ok {α : Type} {f : Json → α} {a : α} :
    (item document key).map f = .ok a ↔ ∃ value, Json.get document key = some value ∧ f value = a := by
  unfold item
  cases Json.get document key <;> simp [Except.map]

@[simp] theorem item_map_raises {α : Type} {f : Json → α} :
    Raises Uncaught ((item document key).map f) ↔ False := by
  unfold item
  cases Json.get document key <;> simp [Except.map, Uncaught, ReadError.isCaught]

@[simp] theorem textAt_raises : Raises Uncaught (textAt py document key) ↔ False := item_map_raises

@[simp] theorem stringAt_raises : Raises Uncaught (stringAt document key) ↔ False :=
  item_map_raises

@[simp] theorem enumAt_raises {α : Type} [StrEnum α] :
    Raises Uncaught (enumAt py α document key) ↔ False := item_map_raises

@[simp] theorem textAt_ok : (∃ a, textAt py document key = .ok a) ↔ Has document key := by
  simp only [textAt, item_map_ok, Has]
  exact ⟨fun ⟨_, v, h, _⟩ => ⟨v, h⟩, fun ⟨v, h⟩ => ⟨_, v, h, rfl⟩⟩

@[simp] theorem stringAt_ok : (∃ a, stringAt document key = .ok a) ↔ Has document key := by
  simp only [stringAt, item_map_ok, Has]
  exact ⟨fun ⟨_, v, h, _⟩ => ⟨v, h⟩, fun ⟨v, h⟩ => ⟨_, v, h, rfl⟩⟩

@[simp] theorem enumAt_ok {α : Type} [StrEnum α] :
    (∃ a, enumAt py α document key = .ok a) ↔ Has document key := by
  simp only [enumAt, item_map_ok, Has]
  exact ⟨fun ⟨_, v, h, _⟩ => ⟨v, h⟩, fun ⟨v, h⟩ => ⟨_, v, h, rfl⟩⟩

@[simp] theorem invalid_raises {α : Type} {message : Str} :
    Raises Uncaught (invalid message : Except ReadError α) ↔ False := by
  simp [invalid, Uncaught, ReadError.isCaught]

theorem object_ok {message : String} {members : Members} :
    object message value = .ok members ↔ value = .obj members := by
  cases value <;> simp [object, invalid]

@[simp] theorem object_raises {message : String} :
    Raises Uncaught (object message value) ↔ False := by
  cases value <;> simp [object]

/-- **`int` lets an infinite number through the clause**, and nothing else. -/
theorem whole_raises : Raises Uncaught (whole py value) ↔ Infinite value := by
  cases value with
  | float f => cases f <;> simp [whole, Json.toInt, Infinite, Uncaught, ReadError.isCaught]
  | str s =>
    cases h : py.intOfText s <;> simp [whole, Json.toInt, h, Infinite, Uncaught, ReadError.isCaught]
  | _ => simp [whole, Json.toInt, Infinite, Uncaught, ReadError.isCaught]

theorem wholeAt_raises : Raises Uncaught (wholeAt py document key) ↔ InfiniteAt document key := by
  simp [wholeAt, raises_bind, item_ok, whole_raises, InfiniteAt]

theorem wholes_raise {items : List Json} :
    Raises Uncaught (items.mapM (whole py)) ↔ FirstInfinite py items := by
  simp only [raises_mapM, whole_raises, FirstInfinite]

@[simp] theorem iterated_raises : Raises Uncaught (iterated py value) ↔ False := by
  cases value <;> simp [iterated, Uncaught, ReadError.isCaught]

/-- Of texts, none is infinite. -/
theorem not_firstInfinite_texts {α : Type} {l : List α} {f : α → Str} :
    ¬FirstInfinite py (l.map fun a => Json.str (f a)) := by
  rintro ⟨before, value, after, heq, -, negative, rfl⟩
  have hmem : Json.float (.infinite negative) ∈ l.map fun a => Json.str (f a) := by simp [heq]
  simp at hmem

end Pieces

/-! ## Each reader -/

variable {document : Members} {generation : ℤ}

theorem plainInt_eq {value : Json} (h : value.plainInt? = some generation) :
    value = .int generation := by
  cases value <;> simp_all [Json.plainInt?]

/-- The generation of an answer reads, when the answer echoes one. -/
theorem generation_reads (h : (member document "contract_generation").plainInt? = some generation) :
    Json.get document "contract_generation" = some (.int generation) := by
  have hmember := plainInt_eq h
  unfold member at hmember
  cases hget : Json.get document "contract_generation" with
  | none => simp [hget] at hmember
  | some value => simpa [hget] using hmember

theorem wholeAt_int {key : String} {n : ℤ} (h : Json.get document key = some (.int n)) :
    wholeAt py document key = .ok n := by
  simp [wholeAt, item, h, whole, Json.toInt, Bind.bind, Except.bind]

/-- What a policy status lets through. -/
theorem policyStatus_raises
    (h : Json.get document "contract_generation" = some (.int generation)) :
    Raises Uncaught (policyStatusFromDocument py document) ↔ PolicyStatusOverflows py document := by
  have hgeneration : ¬InfiniteAt document "contract_generation" := by
    simp [InfiniteAt, h, Infinite]
  simp only [policyStatusFromDocument, raises_bind, item_raises, object_raises, textAt_raises,
    enumAt_raises, wholeAt_raises, raises_pure, textAt_ok, hgeneration, bind_ok_iff, item_ok,
    object_ok, exists_and_right, exists_eq_right, false_or, or_false, and_false, exists_false,
    PolicyStatusOverflows, Returns]

theorem grade_raises :
    Raises Uncaught (gradeFromDocument py document) ↔ GradeOverflows document := by
  simp only [gradeFromDocument, raises_bind, textAt_raises, enumAt_raises, wholeAt_raises,
    raises_pure, textAt_ok, enumAt_ok, exists_and_right, false_or, or_false, and_false,
    exists_false, GradeOverflows]

theorem peer_raises : Raises Uncaught (peerFromDocument py document) ↔ PeerOverflows py document := by
  simp only [peerFromDocument, raises_bind, item_raises, textAt_raises, wholeAt_raises, raises_pure,
    item_ok, exists_and_right, false_or, or_false, and_false, exists_false, PeerOverflows, Has,
    Returns]

/-- Of what group ids may be, only a list holds a number. -/
theorem unnamedGroupIds_raises :
    Raises Uncaught (unnamedGroupIds py document) ↔
      ∃ items, Json.get document "unnamed_group_ids" = some (.arr items) ∧
        FirstInfinite py items := by
  unfold unnamedGroupIds
  cases h : Json.get document "unnamed_group_ids" with
  | none => simp
  | some value =>
    cases value <;> simp [raises_bind, iterated, wholes_raise, not_firstInfinite_texts, Uncaught,
      ReadError.isCaught]

theorem principal_raises :
    Raises Uncaught (principalFromDocument py document) ↔ PrincipalOverflows py document := by
  simp only [principalFromDocument, raises_bind, item_raises, textAt_raises, enumAt_raises,
    wholeAt_raises, unnamedGroupIds_raises, raises_pure, item_ok, textAt_ok, enumAt_ok,
    exists_and_right, false_or, or_false, and_false, exists_false, PrincipalOverflows, Has, Returns]

theorem grant_raises :
    Raises Uncaught (grantFromDocument py document) ↔ GrantOverflows py document := by
  simp only [grantFromDocument, raises_bind, item_raises, object_raises, textAt_raises,
    wholeAt_raises, raises_pure, bind_ok_iff, item_ok, object_ok, textAt_ok, exists_and_right,
    exists_eq_right, false_or, or_false, and_false, exists_false, GrantOverflows, Returns]

theorem approval_raises
    (h : Json.get document "contract_generation" = some (.int generation)) :
    ¬Raises Uncaught (approvalFromDocument py document) := by
  have hgeneration : ¬InfiniteAt document "contract_generation" := by
    simp [InfiniteAt, h, Infinite]
  simp only [approvalFromDocument, raises_bind, textAt_raises, stringAt_raises, enumAt_raises,
    wholeAt_raises, raises_pure, hgeneration, or_false, and_false, exists_false,
    not_false_eq_true]

theorem decisionFromDocument_raises
    (h : Json.get document "contract_generation" = some (.int generation)) :
    ¬Raises Uncaught (decisionFromDocument py document) := by
  have hgeneration : ¬InfiniteAt document "contract_generation" := by
    simp [InfiniteAt, h, Infinite]
  rw [decisionFromDocument, raises_bind, item_raises, false_or]
  rintro ⟨value, -, hraises⟩
  cases houtcome : readEnum Outcome py value with
  | unknown raw => simp [houtcome] at hraises
  | known outcome =>
    simp only [houtcome, raises_bind, textAt_raises, stringAt_raises, enumAt_raises,
      wholeAt_raises, raises_pure, hgeneration, or_false, and_false, exists_false] at hraises

theorem readDecision_raises
    (h : Json.get document "contract_generation" = some (.int generation)) :
    ¬Raises Uncaught (readDecision py document) := by
  unfold readDecision
  cases readEnum Outcome py (member document "outcome") with
  | unknown raw => simp
  | known outcome =>
    simp only [raises_bind, decisionFromDocument_raises h, raises_pure, and_false, exists_false,
      or_false, not_false_eq_true]

theorem threeObjects_ok {a b c : Json} {r : Members × Members × Members} :
    threeObjects a b c = .ok r ↔ a = .obj r.1 ∧ b = .obj r.2.1 ∧ c = .obj r.2.2 := by
  obtain ⟨x, y, z⟩ := r
  cases a <;> cases b <;> cases c <;> simp [threeObjects, invalid]

@[simp] theorem threeObjects_raises {a b c : Json} :
    Raises Uncaught (threeObjects a b c) ↔ False := by
  cases a <;> cases b <;> cases c <;> simp [threeObjects]

theorem daemonPrincipal_raises :
    Raises Uncaught (daemonPrincipal py document) ↔
      Has document "kind" ∧ InfiniteAt document "uid" := by
  simp only [daemonPrincipal, raises_bind, textAt_raises, stringAt_raises, wholeAt_raises,
    raises_pure, textAt_ok, exists_and_right, false_or, or_false, and_false, exists_false]

theorem supported_raises
    (h : Json.get document "contract_generation" = some (.int generation)) :
    Raises Uncaught (supportedFromDocument py document) ↔
      ∃ items, Json.get document "supported_generations" = some (.arr items) ∧
        FirstInfinite py items := by
  cases hget : Json.get document "supported_generations" with
  | none => simp [supportedFromDocument, item, hget, raises_bind, Uncaught, ReadError.isCaught]
  | some value =>
    cases value <;> simp [supportedFromDocument, item, hget, h, raises_bind, wholes_raise,
      apply_ite (Raises Uncaught)]

theorem supported_ok
    (h : Json.get document "contract_generation" = some (.int generation)) :
    Returns (supportedFromDocument py document) ↔
      ∃ items, Json.get document "supported_generations" = some (.arr items) ∧
        ∃ supported, items.mapM (whole py) = .ok supported ∧ generation ∈ supported := by
  cases hget : Json.get document "supported_generations" with
  | none => simp [supportedFromDocument, item, hget, returns_bind]
  | some value =>
    cases value <;> simp [supportedFromDocument, item, hget, h, returns_bind, invalid,
      apply_ite Returns]

theorem status_raises
    (h : Json.get document "contract_generation" = some (.int generation)) :
    Raises Uncaught (statusFromDocument py document) ↔ StatusOverflows py generation document := by
  simp only [statusFromDocument, raises_bind, item_raises, threeObjects_raises, supported_raises h,
    grade_raises, textAt_raises, daemonPrincipal_raises, enumAt_raises, raises_pure, item_ok,
    threeObjects_ok, textAt_ok, exists_and_right, false_or, or_false, and_false, exists_false]
  have hsupported : (∃ x, supportedFromDocument py document = .ok x) ↔ _ := supported_ok h
  rw [hsupported]
  constructor
  · rintro ⟨_, hp, _, hs, _, hg, ⟨principal, store, grade⟩, ⟨rfl, rfl, rfl⟩,
      ⟨items, hitems, hinf⟩ | ⟨⟨items, hitems, hread⟩, hrest⟩⟩
    · exact ⟨principal, store, grade, items, hp, hs, hg, hitems, .inl hinf⟩
    · exact ⟨principal, store, grade, items, hp, hs, hg, hitems, .inr ⟨hread, hrest⟩⟩
  · rintro ⟨principal, store, grade, items, hp, hs, hg, hitems, hinf | ⟨hread, hrest⟩⟩
    · exact ⟨_, hp, _, hs, _, hg, (principal, store, grade), ⟨rfl, rfl, rfl⟩,
        .inl ⟨items, hitems, hinf⟩⟩
    · exact ⟨_, hp, _, hs, _, hg, (principal, store, grade), ⟨rfl, rfl, rfl⟩,
        .inr ⟨⟨items, hitems, hread⟩, hrest⟩⟩

/-! ## The identity -/

@[simp] theorem bounded_raises {value : Str} {limit : ℕ} {name : String} :
    Raises Uncaught (bounded py value limit name) ↔ False := by
  unfold bounded
  cases utf8 value with
  | none => simp [Uncaught, ReadError.isCaught]
  | some raw => simp [apply_ite (Raises Uncaught)]

@[simp] theorem linkText_raises {message : String} {value : Json} :
    Raises Uncaught (linkText message value) ↔ False := by
  unfold linkText
  split <;> simp

@[simp] theorem linkName_raises {value : Json} : Raises Uncaught (linkName value) ↔ False := by
  cases value <;> simp [linkName]

@[simp] theorem linkUid_raises {value : Json} : Raises Uncaught (linkUid value) ↔ False := by
  cases value <;> simp [linkUid, apply_ite (Raises Uncaught)]

/-- What a declared delegation raises is always caught. -/
theorem readLink_raises {value : Json} : ¬Raises Uncaught (readLink py value) := by
  rw [readLink, raises_bind, object_raises, false_or]
  rintro ⟨link, -, h⟩
  cases hname : undefinedMember link with
  | some name => simp [hname] at h
  | none =>
    simp only [hname, raises_bind, linkText_raises, linkName_raises, linkUid_raises,
      bounded_raises, false_or] at h
    obtain ⟨kind, -, via, -, name, -, uid, -, text, -, h⟩ := h
    cases name <;> simp [raises_bind] at h

theorem delegationOf_raises {value : Json} : ¬Raises Uncaught (delegationOf py value) := by
  cases value with
  | obj delegation =>
    simp [delegationOf, raises_bind, raises_mapM, readLink_raises]
  | _ => simp [delegationOf]

theorem principalOf_raises {value : Json} :
    Raises Uncaught (principalOf py value) ↔
      ∃ members, value = .obj members ∧ PrincipalOverflows py members := by
  cases value with
  | obj members =>
    simp [principalOf, principal_raises]
  | _ => simp [principalOf]

theorem whoAmI_raises
    (h : Json.get document "contract_generation" = some (.int generation)) :
    Raises Uncaught (whoAmIFromDocument py document) ↔ WhoAmIOverflows py document := by
  simp only [whoAmIFromDocument, raises_bind, item_raises, object_raises, textAt_raises,
    enumAt_raises, wholeAt_raises, peer_raises, principalOf_raises, delegationOf_raises,
    raises_pure, raises_ok, item_ok, object_ok, textAt_ok, enumAt_ok, wholeAt_int h,
    exists_and_right, false_or, or_false, and_false, exists_false]
  constructor
  · rintro ⟨_, hpeer, principal, hprincipal, hdelegation, hrefresh, peer, rfl, -, hid, hsocket,
      hmode, hrest⟩
    exact ⟨peer, principal, hpeer, hprincipal, hdelegation, hrefresh, hid, hsocket, hmode, hrest⟩
  · rintro ⟨peer, principal, hpeer, hprincipal, hdelegation, hrefresh, hid, hsocket, hmode, hrest⟩
    exact ⟨_, hpeer, principal, hprincipal, hdelegation, hrefresh, peer, rfl, ⟨generation, rfl⟩,
      hid, hsocket, hmode, hrest⟩

/-- **When an exception leaves the reader of an operation**: at an infinite number where an
integer is read, if every member before it reads. -/
theorem Operation.reader_raises {operation : Operation}
    (h : Json.get document "contract_generation" = some (.int generation)) :
    Raises Uncaught (operation.reader py document) ↔ operation.Overflows py generation document := by
  cases operation with
  | readStatus => simp [reader, valueReader, status_raises h, Overflows]
  | readWhoami => simp [reader, valueReader, whoAmI_raises h, Overflows]
  | readPolicyStatus => simp [reader, valueReader, policyStatus_raises h, Overflows]
  | askDecision | readDecision => simp [reader, readDecision_raises h, Overflows]
  | readApproval | resolveApproval => simp [reader, valueReader, approval_raises h, Overflows]
  | readEvidence | exportEvidence => simp [reader, Overflows]

end SayFirst.Client
