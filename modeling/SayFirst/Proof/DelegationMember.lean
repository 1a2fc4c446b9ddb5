import SayFirst.Lib.Raises
import SayFirst.Lib.Utf8
import SayFirst.Proof.ClientTotal
import SayFirst.Proof.Grammar
import SayFirst.Spec.DelegationMember

/-!
# The delegation reader and the published schema

* `readLink_returns_iff`, `readLink_uncoded_iff` — what one entry reads as.
* `valid_link_iff`, `valid_delegation_iff` — what the published schema accepts.
* `delegation_decided_iff` — the reader decides the schema exactly where the two
  part on no ground and no text without a UTF-8 form is met.
-/

namespace SayFirst.Contract

open Py JsonSchema
open SayFirst.Client (DelegatedIdentity Delegation undefinedMember member)
open SayFirst.Plane (published delegation refuse)

/-- The reader raises what the surface does not catch. -/
def Uncoded : MemberFault → Prop
  | .outOfBounds _ => False
  | .unicodeEncodeError _ => True

variable {repr : Json → Str}

/-! ## The readers of one value -/

theorem bounded_ok_iff {value w : Str} {limit : ℕ} {name : String} :
    bounded value limit name = .ok w ↔ w = value ∧ withinBytes limit value = true := by
  rw [bounded, withinBytes]
  cases utf8 value with
  | none => simp
  | some raw =>
    by_cases h : raw.length > limit
    · simp [h, outOfBounds]
    · simp only [h, if_false, Except.ok.injEq, decide_eq_true_eq]
      exact ⟨fun heq => ⟨heq.symm, by omega⟩, fun heq => heq.1.symm⟩

theorem bounded_returns {value : Str} {limit : ℕ} {name : String} :
    Returns (bounded value limit name) ↔ withinBytes limit value = true := by
  simp [Returns, bounded_ok_iff]

theorem bounded_uncoded {value : Str} {limit : ℕ} {name : String} :
    Raises Uncoded (bounded value limit name) ↔ utf8 value = none := by
  rw [bounded]
  cases utf8 value with
  | none => simp [Uncoded]
  | some raw =>
    by_cases h : raw.length > limit
    · simp [h, outOfBounds, Uncoded]
    · simp [h]

theorem linkText_ok_iff {message : String} {value : Json} {s : Str} :
    linkText message value = .ok s ↔ value = .str s ∧ s ≠ [] := by
  unfold linkText
  split
  · constructor
    · rintro h
      cases h
      exact ⟨rfl, List.cons_ne_nil _ _⟩
    · rintro ⟨h, -⟩
      cases h
      rfl
  · rename_i hother
    constructor
    · intro h
      cases h
    · rintro ⟨rfl, hne⟩
      obtain ⟨c, t, rfl⟩ := List.exists_cons_of_ne_nil hne
      exact (hother c t rfl).elim

theorem linkText_uncoded {message : String} {value : Json} :
    ¬ Raises Uncoded (linkText message value) := by
  unfold linkText
  split
  · simp
  · simp [outOfBounds, Uncoded]

theorem linkName_ok_iff {value : Json} {name : Option Str} :
    linkName value = .ok name ↔ value = .ofOption .str name := by
  cases value with
  | null => cases name <;> simp [linkName, Json.ofOption]
  | str s => cases name <;> simp [linkName, Json.ofOption]
  | _ => cases name <;> simp [linkName, Json.ofOption, outOfBounds]

theorem linkName_uncoded {value : Json} : ¬ Raises Uncoded (linkName value) := by
  cases value <;> simp [linkName, outOfBounds, Uncoded]

theorem linkUid_ok_iff {value : Json} {uid : Option ℤ} :
    linkUid value = .ok uid ↔
      value = .ofOption .int uid ∧ WholeUid value ∧ ¬ ∃ f, value = .float f := by
  cases value with
  | null => cases uid <;> simp [linkUid, Json.ofOption, WholeUid]
  | int n =>
    by_cases h : n < 0
    · cases uid <;> simp [linkUid, Json.ofOption, WholeUid, h, outOfBounds]
    · cases uid <;> simp [linkUid, Json.ofOption, WholeUid, h]
      omega
  | _ => cases uid <;> simp [linkUid, Json.ofOption, outOfBounds]

theorem linkUid_uncoded {value : Json} : ¬ Raises Uncoded (linkUid value) := by
  unfold linkUid
  split
  · simp
  · split
    · simp [outOfBounds, Uncoded]
    · simp
  · simp [outOfBounds, Uncoded]

theorem boundedName_ok_iff {name w : Option Str} :
    boundedName name = .ok w ↔ w = name ∧ ∀ s, name = some s → withinBytes 256 s = true := by
  cases name with
  | none =>
    simp only [boundedName, Except.ok.injEq, reduceCtorEq, false_implies, implies_true, and_true]
    exact eq_comm
  | some s =>
    constructor
    · intro h
      rw [boundedName] at h
      cases hbounded : bounded s 256 "name" with
      | error e =>
        rw [hbounded] at h
        cases h
      | ok t =>
        rw [hbounded] at h
        cases h
        obtain ⟨rfl, hs⟩ := bounded_ok_iff.1 hbounded
        exact ⟨rfl, fun _ h => Option.some.inj h ▸ hs⟩
    · rintro ⟨rfl, hs⟩
      rw [boundedName, bounded_ok_iff.2 ⟨rfl, hs s rfl⟩]
      rfl

theorem boundedName_uncoded {name : Option Str} :
    Raises Uncoded (boundedName name) ↔ ∃ s, name = some s ∧ utf8 s = none := by
  cases name with
  | none => simp [boundedName]
  | some s => simp [boundedName, bounded_uncoded]

/-- No member is undefined exactly where every name is a defined one. -/
theorem head_undefined {members : Client.Members} {defined : List String} :
    (sortedSet ((members.map (·.1)).filter fun k => ! defined.any (lit · == k))).head? = none ↔
      ∀ m ∈ members, m.1 ∈ defined.map lit := by
  rw [List.head?_eq_none_iff, List.eq_nil_iff_forall_not_mem]
  constructor
  · intro h m hm
    have := h m.1
    simp only [mem_sortedSet, List.mem_filter, List.mem_map, not_and] at this
    have hdefined := this ⟨m, hm, rfl⟩
    simpa using hdefined
  · intro h k hk
    simp only [mem_sortedSet, List.mem_filter, List.mem_map] at hk
    obtain ⟨⟨m, hm, rfl⟩, hno⟩ := hk
    obtain ⟨name, hname, heq⟩ := List.mem_map.1 (h m hm)
    have hany : defined.any (lit · == m.1) = true := List.any_eq_true.2 ⟨name, hname, by simp [heq]⟩
    simp [hany] at hno

theorem undefinedMember_iff {link : Client.Members} : undefinedMember link = none ↔
    ∀ m ∈ link, m.1 ∈ ["kind", "name", "uid", "via"].map lit := head_undefined

theorem undefinedName_iff {members : Client.Members} : undefinedName members = none ↔
    ∀ m ∈ members, m.1 ∈ ["status", "chain"].map lit := head_undefined

/-! ## One entry -/

/-- The record holds the four members of the entry, null where one is not given. -/
structure HoldsLink (link : Client.Members) (record : DelegatedIdentity) : Prop where
  kind : member link "kind" = .str record.kind
  name : member link "name" = .ofOption .str record.name
  uid : member link "uid" = .ofOption .int record.uid
  via : member link "via" = .str record.via

theorem within_ofOption {name : Option Str} :
    WithinName 256 (.ofOption .str name) ↔ ∀ s, name = some s → withinBytes 256 s = true := by
  cases name with
  | none => simp [WithinName, Json.ofOption]
  | some s => simp [WithinName, Json.ofOption]

theorem whole_ofOption {value : Json} (hwhole : WholeUid value) (hfloat : ¬ ∃ f, value = .float f) :
    ∃ uid, value = .ofOption .int uid := by
  cases value with
  | null => exact ⟨none, rfl⟩
  | int n => exact ⟨some n, rfl⟩
  | float f => exact (hfloat ⟨f, rfl⟩).elim
  | _ => exact hwhole.elim

theorem readLink_ok_iff {link : Client.Members} {record : DelegatedIdentity} :
    readLink repr (.obj link) = .ok record ↔
      CommonLink link ∧ ¬ FloatUid link ∧ HoldsLink link record := by
  cases hundefined : undefinedMember link with
  | some name =>
    simp only [readLink, hundefined, outOfBounds, reduceCtorEq, false_iff]
    rintro ⟨hcommon, -⟩
    rw [undefinedMember_iff.2 hcommon.names] at hundefined
    cases hundefined
  | none =>
    simp only [readLink, hundefined, bind_ok_iff, linkText_ok_iff, linkName_ok_iff, linkUid_ok_iff,
      bounded_ok_iff, boundedName_ok_iff, pure, Except.pure, Except.ok.injEq]
    constructor
    · rintro ⟨kind, ⟨hkind, hkne⟩, via, ⟨hvia, hvne⟩, name, hname, uid, ⟨huid, hwhole, hfloat⟩,
        _, ⟨rfl, hk⟩, _, ⟨rfl, hn⟩, _, ⟨rfl, hv⟩, rfl⟩
      refine ⟨⟨undefinedMember_iff.1 hundefined, ⟨_, hkind, hkne, hk⟩, ⟨_, hvia, hvne, hv⟩,
        ?_, hwhole⟩, hfloat, hkind, hname, huid, hvia⟩
      rw [hname]
      exact within_ofOption.2 hn
    · rintro ⟨hcommon, hfloat, hkind, hname, huid, hvia⟩
      obtain ⟨kind, hk, hkne, hkw⟩ := hcommon.kind
      obtain ⟨via, hv, hvne, hvw⟩ := hcommon.via
      have hn := hcommon.name
      rw [hname] at hn
      rw [hkind] at hk
      rw [hvia] at hv
      cases hk
      cases hv
      exact ⟨record.kind, ⟨hkind, hkne⟩, record.via, ⟨hvia, hvne⟩, record.name, hname, record.uid,
        ⟨huid, hcommon.uid, hfloat⟩, record.kind, ⟨rfl, hkw⟩, record.name,
        ⟨rfl, within_ofOption.1 hn⟩, record.via, ⟨rfl, hvw⟩, rfl⟩

/-- An entry is read exactly where it is within the bounds and its uid is no float. -/
theorem readLink_returns_iff {link : Client.Members} :
    Returns (readLink repr (.obj link)) ↔ CommonLink link ∧ ¬ FloatUid link := by
  constructor
  · rintro ⟨record, h⟩
    obtain ⟨hcommon, hfloat, -⟩ := readLink_ok_iff.1 h
    exact ⟨hcommon, hfloat⟩
  · rintro ⟨hcommon, hfloat⟩
    obtain ⟨kind, hkind, -⟩ := hcommon.kind
    obtain ⟨via, hvia, -⟩ := hcommon.via
    obtain ⟨name, hname⟩ : ∃ name, member link "name" = .ofOption .str name := by
      obtain h | ⟨s, h, -⟩ := hcommon.name
      · exact ⟨none, h⟩
      · exact ⟨some s, h⟩
    obtain ⟨uid, huid⟩ := whole_ofOption hcommon.uid hfloat
    exact ⟨⟨kind, name, uid, via⟩, readLink_ok_iff.2 ⟨hcommon, hfloat, hkind, hname, huid, hvia⟩⟩

/-- **A text without UTF-8**: the reader of an entry raises `UnicodeEncodeError` exactly where the
types are right and the first text that is not within its bound cannot be encoded. -/
theorem readLink_uncoded_iff {link : Client.Members} : Raises Uncoded (readLink repr (.obj link)) ↔
    ∃ kind via, TypedLink link kind via ∧ UncodedLink link kind via := by
  cases hundefined : undefinedMember link with
  | some name =>
    simp only [readLink, hundefined, outOfBounds, raises_error, Uncoded, false_iff]
    rintro ⟨kind, via, htyped, -⟩
    rw [undefinedMember_iff.2 htyped.names] at hundefined
    cases hundefined
  | none =>
    have hnames := undefinedMember_iff.1 hundefined
    simp only [readLink, hundefined, raises_bind, linkText_uncoded, linkName_uncoded,
      linkUid_uncoded, linkText_ok_iff, linkName_ok_iff, linkUid_ok_iff, bounded_uncoded,
      boundedName_uncoded, bounded_ok_iff, boundedName_ok_iff, raises_pure, false_or, and_false,
      exists_false, or_false]
    constructor
    · rintro ⟨kind, hkind, via, hvia, name, hname, uid, ⟨huid, hwhole, hfloat⟩, h⟩
      refine ⟨kind, via, ⟨hnames, hkind, hvia, ?_, hwhole, hfloat⟩, ?_⟩
      · cases name with
        | none => exact .inl hname
        | some s => exact .inr ⟨s, hname⟩
      obtain h | ⟨_, ⟨rfl, hk⟩, h⟩ := h
      · exact .inl h
      refine .inr ⟨hk, ?_⟩
      obtain ⟨s, rfl, hs⟩ | ⟨_, ⟨rfl, hn⟩, h⟩ := h
      · exact .inl ⟨s, hname, hs⟩
      · refine .inr ⟨?_, h⟩
        rw [hname]
        exact within_ofOption.2 hn
    · rintro ⟨kind, via, htyped, huncoded⟩
      obtain ⟨name, hname⟩ : ∃ name, member link "name" = .ofOption .str name := by
        obtain h | ⟨s, h⟩ := htyped.name
        · exact ⟨none, h⟩
        · exact ⟨some s, h⟩
      obtain ⟨hwhole, hfloat⟩ := htyped.uid
      obtain ⟨uid, huid⟩ := whole_ofOption hwhole hfloat
      refine ⟨kind, htyped.kind, via, htyped.via, name, hname, uid, ⟨huid, hwhole, hfloat⟩, ?_⟩
      obtain h | ⟨hk, h⟩ := huncoded
      · exact .inl h
      refine .inr ⟨kind, ⟨rfl, hk⟩, ?_⟩
      obtain ⟨s, hs, hnone⟩ | ⟨hn, h⟩ := h
      · refine .inl ⟨s, ?_, hnone⟩
        rw [hname] at hs
        cases name with
        | none => cases hs
        | some t =>
          cases hs
          rfl
      · rw [hname] at hn
        exact .inr ⟨name, ⟨rfl, within_ofOption.1 hn⟩, h⟩

/-! ## The reader of an answer is the same reader -/

section

variable (py : Client.ClientHost)

/-- What a reader that catches every `ValueError` keeps of the exception. -/
def forget : MemberFault → Client.ReadError
  | .outOfBounds message => ⟨.valueError, message⟩
  | .unicodeEncodeError text => ⟨.valueError, py.encodeError text⟩

theorem mapError_bind {α β : Type} {f : α → Except MemberFault β} {x : Except MemberFault α} :
    (x >>= f).mapError (forget py) = x.mapError (forget py) >>= fun a => (f a).mapError (forget py) := by
  cases x <;> rfl

theorem ok_bind {α β ε : Type} {a : α} {f : α → Except ε β} : (Except.ok a >>= f) = f a := rfl

theorem client_bounded {value : Str} {limit : ℕ} {name : String} :
    Client.bounded py value limit name = (bounded value limit name).mapError (forget py) := by
  rw [Client.bounded, bounded]
  cases utf8 value with
  | none => rfl
  | some raw =>
    by_cases h : raw.length > limit
    · simp only [h, if_true]
      rfl
    · simp only [h, if_false]
      rfl

theorem client_linkText {message : String} {value : Json} :
    Client.linkText message value = (linkText message value).mapError (forget py) := by
  cases value with
  | str s => cases s <;> rfl
  | _ => rfl

theorem client_linkName {value : Json} :
    Client.linkName value = (linkName value).mapError (forget py) := by
  cases value <;> rfl

theorem client_linkUid {value : Json} :
    Client.linkUid value = (linkUid value).mapError (forget py) := by
  cases value with
  | int n =>
    simp only [Client.linkUid, linkUid]
    by_cases h : n < 0
    · simp only [h, if_true]
      rfl
    · simp only [h, if_false]
      rfl
  | _ => rfl

/-- **One `_read_link`**: an entry of an answer is read as an entry of an ask is. -/
theorem client_readLink {value : Json} :
    Client.readLink py value = (readLink py.repr value).mapError (forget py) := by
  cases value with
  | obj link =>
    cases hundefined : undefinedMember link with
    | some name =>
      simp only [Client.readLink, Client.object, ok_bind, readLink, hundefined]
      rfl
    | none =>
      simp only [Client.readLink, Client.object, ok_bind, readLink, hundefined, mapError_bind,
        client_linkText py, client_linkName py, client_linkUid py, client_bounded py]
      refine bind_congr fun kind => bind_congr fun via => bind_congr fun name =>
        bind_congr fun uid => bind_congr fun kind => ?_
      cases name with
      | none => rfl
      | some name =>
        simp only [boundedName]
        cases bounded name 256 "name" <;> rfl
  | _ => rfl

end

/-! ## The whole member -/

/-- The links of a chain whose items are all objects. -/
theorem returns_mapM {f : Json → Except MemberFault DelegatedIdentity} {l : List Json} :
    Returns (l.mapM f) ↔ ∀ item ∈ l, Returns (f item) := by
  induction l with
  | nil => simp
  | cons item rest ih =>
    rw [List.mapM_cons, returns_bind, List.forall_mem_cons]
    constructor
    · rintro ⟨a, ha, h⟩
      rw [returns_bind] at h
      obtain ⟨rest', hrest, -⟩ := h
      exact ⟨⟨a, ha⟩, ih.1 ⟨rest', hrest⟩⟩
    · rintro ⟨⟨a, ha⟩, h⟩
      obtain ⟨rest', hrest⟩ := ih.2 h
      exact ⟨a, ha, returns_bind.2 ⟨rest', hrest, _, rfl⟩⟩

theorem readLink_not_obj {value : Json} (h : ∀ link, value ≠ .obj link) :
    readLink repr value = outOfBounds (lit "a delegation entry must be an object") := by
  cases value with
  | obj link => exact (h link rfl).elim
  | _ => rfl

/-- Items that are all objects are the objects of a list of members. -/
theorem links_of_objects {items : List Json} (h : ∀ item ∈ items, ∃ link, item = .obj link) :
    ∃ links : List Client.Members, items = links.map .obj := by
  induction items with
  | nil => exact ⟨[], rfl⟩
  | cons item rest ih =>
    rw [List.forall_mem_cons] at h
    obtain ⟨link, rfl⟩ := h.1
    obtain ⟨links, rfl⟩ := ih h.2
    exact ⟨link :: links, rfl⟩

/-- Items that are all read are objects within the bounds. -/
theorem items_of_returns {items : List Json} (h : ∀ item ∈ items, Returns (readLink repr item)) :
    ∃ links : List Client.Members, items = links.map .obj ∧
      ∀ link ∈ links, CommonLink link ∧ ¬ FloatUid link := by
  obtain ⟨links, rfl⟩ := links_of_objects fun item hitem => by
    by_contra hobj
    have hreturns := h item hitem
    rw [readLink_not_obj fun link heq => hobj ⟨link, heq⟩] at hreturns
    exact absurd hreturns (by simp [outOfBounds])
  exact ⟨links, rfl, fun link hlink =>
    readLink_returns_iff.1 (h (.obj link) (List.mem_map.2 ⟨link, hlink, rfl⟩))⟩

theorem fromRequestMember_chain {members : Client.Members} {chain : List Json}
    (hnames : ∀ m ∈ members, m.1 ∈ ["status", "chain"].map lit)
    (hchain : member members "chain" = .arr chain) (hcount : 1 ≤ chain.length ∧ chain.length ≤ 4) :
    fromRequestMember repr (.obj members) =
      (chain.mapM (readLink repr)).map fun links => some ⟨links⟩ := by
  rw [fromRequestMember, undefinedName_iff.2 hnames, hchain]
  exact if_pos hcount

/-- What is not read as a chain of one to four is out of bounds. -/
theorem fromRequestMember_bounds {value : Json} (hnull : value ≠ .null)
    (h : ¬ ∃ members chain, value = .obj members ∧
      (∀ m ∈ members, m.1 ∈ ["status", "chain"].map lit) ∧
      member members "chain" = .arr chain ∧ 1 ≤ chain.length ∧ chain.length ≤ 4) :
    ∃ message, fromRequestMember repr value = .error (.outOfBounds message) := by
  cases value with
  | null => exact (hnull rfl).elim
  | obj members =>
    rw [fromRequestMember]
    cases hundefined : undefinedName members with
    | some name => exact ⟨_, rfl⟩
    | none =>
      have hnames := undefinedName_iff.1 hundefined
      cases hchain : member members "chain" with
      | arr chain =>
        refine ⟨_, if_neg fun hcount => ?_⟩
        exact h ⟨members, chain, rfl, hnames, hchain, hcount⟩
      | _ => exact ⟨_, rfl⟩
  | _ => exact ⟨_, rfl⟩

theorem get_of_member {members : Client.Members} {key : String} {items : List Json}
    (h : member members key = .arr items) : Json.get members key = some (.arr items) := by
  rw [member] at h
  cases hget : Json.get members key with
  | none =>
    rw [hget] at h
    cases h
  | some value =>
    rw [hget] at h
    exact congrArg some h

/-- **What the reader reads**: a member within the bounds, no uid of it a float. -/
theorem fromRequestMember_returns_iff {value : Json} (hnull : value ≠ .null) :
    Returns (fromRequestMember repr value) ↔
      ∃ members links, Common value members links ∧ ∀ link ∈ links, ¬ FloatUid link := by
  constructor
  · intro hreturns
    by_contra hno
    have hbounds : ¬ ∃ members chain, value = .obj members ∧
        (∀ m ∈ members, m.1 ∈ ["status", "chain"].map lit) ∧
        member members "chain" = .arr chain ∧ 1 ≤ chain.length ∧ chain.length ≤ 4 := by
      rintro ⟨members, chain, rfl, hnames, hchain, hcount⟩
      rw [fromRequestMember_chain hnames hchain hcount] at hreturns
      obtain ⟨d, hd⟩ := hreturns
      have hmap : Returns (chain.mapM (readLink repr)) := by
        cases hlinks : chain.mapM (readLink repr) with
        | error e =>
          rw [hlinks] at hd
          cases hd
        | ok links => exact ⟨links, rfl⟩
      obtain ⟨links, rfl, hlinks⟩ := items_of_returns (returns_mapM.1 hmap)
      rw [List.length_map] at hcount
      exact hno ⟨members, links, ⟨rfl, ⟨hnames, get_of_member hchain, hcount⟩,
        fun link hlink => (hlinks link hlink).1⟩, fun link hlink => (hlinks link hlink).2⟩
    obtain ⟨message, herror⟩ := fromRequestMember_bounds hnull hbounds
    rw [herror] at hreturns
    exact absurd hreturns (by simp)
  · rintro ⟨members, links, ⟨rfl, hmember, hlinks⟩, hfloat⟩
    rw [fromRequestMember_chain hmember.names (Client.member_of_get hmember.chain)
      (by rw [List.length_map]; exact hmember.count)]
    have hall : ∀ item ∈ links.map Json.obj, Returns (readLink repr item) := by
      intro item hitem
      obtain ⟨link, hlink, rfl⟩ := List.mem_map.1 hitem
      exact readLink_returns_iff.2 ⟨hlinks link hlink, hfloat link hlink⟩
    obtain ⟨records, hrecords⟩ := returns_mapM.2 hall
    exact ⟨some ⟨records⟩, by rw [hrecords]; rfl⟩

/-- **The reader raises `UnicodeEncodeError`** exactly where it comes to a text without UTF-8. -/
theorem fromRequestMember_uncoded_iff (repr : Json → Str) {value : Json} (hnull : value ≠ .null) :
    Raises Uncoded (fromRequestMember repr value) ↔ MeetsUncoded value := by
  constructor
  · intro hraises
    by_cases hchain : ∃ members chain, value = .obj members ∧
        (∀ m ∈ members, m.1 ∈ ["status", "chain"].map lit) ∧
        member members "chain" = .arr chain ∧ 1 ≤ chain.length ∧ chain.length ≤ 4
    · obtain ⟨members, chain, rfl, hnames, hchain, hcount⟩ := hchain
      rw [fromRequestMember_chain hnames hchain hcount, raises_map, raises_mapM] at hraises
      obtain ⟨before, item, after, rfl, hbefore, hitem⟩ := hraises
      obtain ⟨earlier, rfl, hearlier⟩ := items_of_returns hbefore
      by_cases hobj : ∃ link, item = .obj link
      · obtain ⟨link, rfl⟩ := hobj
        obtain ⟨kind, via, htyped, huncoded⟩ := readLink_uncoded_iff.1 hitem
        refine ⟨members, earlier, link, after, kind, via, rfl, hnames, hchain, ?_, hearlier, htyped,
          huncoded⟩
        simp only [List.length_append, List.length_map, List.length_cons] at hcount
        omega
      · rw [readLink_not_obj fun link heq => hobj ⟨link, heq⟩] at hitem
        exact absurd hitem (by simp [outOfBounds, Uncoded])
    · obtain ⟨message, herror⟩ := fromRequestMember_bounds hnull hchain
      rw [herror] at hraises
      exact absurd hraises (by simp [Uncoded])
  · rintro ⟨members, before, link, after, kind, via, rfl, hnames, hchain, hcount, hbefore, htyped,
      huncoded⟩
    rw [fromRequestMember_chain hnames hchain, raises_map, raises_mapM]
    · refine ⟨_, _, _, rfl, ?_, readLink_uncoded_iff.2 ⟨kind, via, htyped, huncoded⟩⟩
      intro item hitem
      obtain ⟨earlier, hearlier, rfl⟩ := List.mem_map.1 hitem
      exact readLink_returns_iff.2 (hbefore earlier hearlier)
    · simp only [List.length_append, List.length_map, List.length_cons]
      omega

/-! ## The published schema -/

/-- A text that is not empty, bounded in characters and in bytes. -/
def textSchema (limit : ℕ) : Schema :=
  { type := some [.string], minLength := some 1, maxLength := some limit, maxBytes := some limit }

/-- Null, or a text bounded in characters and in bytes. -/
def nameSchema (limit : ℕ) : Schema :=
  { type := some [.string, .null], maxLength := some limit, maxBytes := some limit }

def uidSchema : Schema := { type := some [.integer, .null], minimum := some 0 }

def statusSchema : Schema := { type := some [.string], minLength := some 1 }

/-- The schema of one entry. -/
def linkSchema : Schema where
  type := some [.object]
  additionalProperties := false
  required := ["kind", "name", "uid", "via"].map lit
  properties := [(lit "kind", textSchema 64), (lit "name", nameSchema 256), (lit "uid", uidSchema),
    (lit "via", textSchema 64)]

def chainSchema : Schema :=
  { type := some [.array], minItems := some 1, maxItems := some 4, items := some linkSchema }

theorem delegation_eq : delegation =
    { type := some [.object], additionalProperties := false, required := [lit "chain"]
      properties := [(lit "chain", chainSchema), (lit "status", statusSchema)] } := rfl

theorem length_of_withinBytes {limit : ℕ} {s : Str} (h : withinBytes limit s = true) :
    s.length ≤ limit := by
  rw [withinBytes] at h
  cases hs : utf8 s with
  | none =>
    rw [hs] at h
    cases h
  | some raw =>
    rw [hs] at h
    exact le_trans (length_le_of_utf8 hs) (of_decide_eq_true h)

theorem one_le_length {s : Str} : 1 ≤ s.length ↔ s ≠ [] := by
  rw [← List.length_pos_iff_ne_nil, Nat.succ_le_iff]

theorem valid_text_iff {limit : ℕ} {value : Json} :
    valid published (textSchema limit) value = true ↔ WithinText limit value := by
  cases value with
  | str s =>
    simp only [valid, meets, textSchema, meetsString, published, hasType_str, decide_true,
      Option.all_some,
      Option.all_none, List.any_cons, List.any_nil, Bool.or_false, Bool.true_and, Bool.and_true,
      Bool.not_true, Bool.false_or, Bool.and_eq_true, decide_eq_true_eq, one_le_length, WithinText,
      Json.str.injEq, exists_eq_left']
    exact ⟨fun h => ⟨h.1.1, h.2⟩, fun h => ⟨⟨h.1, length_of_withinBytes h.2⟩, h.2⟩⟩
  | _ => simp [valid, meets, textSchema, WithinText]

theorem valid_name_iff {limit : ℕ} {value : Json} :
    valid published (nameSchema limit) value = true ↔ WithinName limit value := by
  cases value with
  | null => simp [valid, meets, nameSchema, WithinName]
  | str s =>
    simp only [valid, meets, nameSchema, meetsString, published, hasType_str, reduceCtorEq,
      decide_true, decide_false, Option.all_some,
      Option.all_none, List.any_cons, List.any_nil, Bool.or_false, Bool.true_and, Bool.and_true,
      Bool.not_true, Bool.false_or, Bool.and_eq_true, decide_eq_true_eq, WithinName,
      Json.str.injEq, exists_eq_left', false_or]
    exact ⟨fun h => h.2, fun h => ⟨length_of_withinBytes h, h⟩⟩
  | _ => simp [valid, meets, nameSchema, WithinName]

theorem valid_uid_iff {value : Json} :
    valid published uidSchema value = true ↔ WholeUid value := by
  cases value <;> simp [valid, meets, uidSchema, WholeUid]

theorem valid_status_iff {value : Json} :
    valid published statusSchema value = true ↔ ∃ s, value = .str s ∧ s ≠ [] := by
  cases value with
  | str s => simp [valid, meets, statusSchema, meetsString, ← one_le_length]
  | _ => simp [valid, meets, statusSchema]

/-- Every name is that of a property exactly where it is one of their names. -/
theorem names_known {members : Client.Members} {properties : List (Str × Schema)}
    (h : (properties.map (·.1)).Nodup) :
    (members.all fun m => (properties.lookup m.1).isSome) = true ↔
      ∀ m ∈ members, m.1 ∈ properties.map (·.1) := by
  rw [List.all_eq_true]
  refine forall₂_congr fun m _ => ?_
  constructor
  · intro hsome
    obtain ⟨s, hs⟩ := Option.isSome_iff_exists.1 hsome
    exact List.mem_map.2 ⟨(m.1, s), (lookup_iff_mem h).1 hs, rfl⟩
  · intro hmem
    obtain ⟨p, hp, hname⟩ := List.mem_map.1 hmem
    rw [(lookup_iff_mem h).2 (show (m.1, p.2) ∈ properties by rw [← hname]; exact hp)]
    rfl

theorem get_isSome_of_str {members : Client.Members} {key : String} {s : Str}
    (h : member members key = .str s) : Json.get members key = some (.str s) := by
  rw [member] at h
  cases hget : Json.get members key with
  | none =>
    rw [hget] at h
    cases h
  | some value =>
    rw [hget] at h
    exact congrArg some h

/-- What a property finds, where it may be left out. -/
theorem optional_iff {members : Client.Members} {key : String} {P : Json → Prop} (hnull : P .null) :
    (∀ value, Json.get members key = some value → P value) ↔ P (member members key) := by
  rw [member]
  cases Json.get members key with
  | none => simpa using hnull
  | some value => simp

/-- **What the schema accepts as an entry**: one within the bounds that gives all four members. -/
theorem valid_link_iff {link : Client.Members} (h : (link.map (·.1)).Nodup) :
    valid published linkSchema (.obj link) = true ↔ CommonLink link ∧ GivesBoth link := by
  have hproperties : (linkSchema.properties.map (·.1)).Nodup := by decide
  rw [valid, Bool.and_eq_true, validMembers_iff_lookup hproperties h]
  have hmeets : meets published linkSchema (.obj link) = true ↔
      ((Json.get link "kind").isSome = true ∧ (Json.get link "name").isSome = true ∧
        (Json.get link "uid").isSome = true ∧ (Json.get link "via").isSome = true) ∧
      ∀ m ∈ link, m.1 ∈ ["kind", "name", "uid", "via"].map lit := by
    rw [← show linkSchema.properties.map (·.1) = ["kind", "name", "uid", "via"].map lit from rfl,
      ← names_known hproperties]
    simp [meets, meetsNames, linkSchema, Json.get]
  have hparts : (∀ p ∈ linkSchema.properties, ∀ value, link.lookup p.1 = some value →
      valid published p.2 value = true) ↔
      (∀ value, Json.get link "kind" = some value → WithinText 64 value) ∧
      WithinName 256 (member link "name") ∧ WholeUid (member link "uid") ∧
      (∀ value, Json.get link "via" = some value → WithinText 64 value) := by
    rw [← optional_iff (P := WithinName 256) (.inl rfl), ← optional_iff (P := WholeUid) trivial]
    simp only [linkSchema, List.forall_mem_cons, List.not_mem_nil, false_implies, implies_true,
      and_true, valid_text_iff, valid_name_iff, valid_uid_iff, Json.get]
  rw [hmeets, hparts]
  constructor
  · rintro ⟨⟨⟨hkind, hname, huid, hvia⟩, hnames⟩, hk, hn, hu, hv⟩
    obtain ⟨kind, hkind⟩ := Option.isSome_iff_exists.1 hkind
    obtain ⟨via, hvia⟩ := Option.isSome_iff_exists.1 hvia
    refine ⟨⟨hnames, ?_, ?_, hn, hu⟩, hname, huid⟩
    · rw [Client.member_of_get hkind]
      exact hk kind hkind
    · rw [Client.member_of_get hvia]
      exact hv via hvia
  · rintro ⟨hcommon, hname, huid⟩
    obtain ⟨kind, hkind, hk⟩ := hcommon.kind
    obtain ⟨via, hvia, hv⟩ := hcommon.via
    have hgk := get_isSome_of_str hkind
    have hgv := get_isSome_of_str hvia
    refine ⟨⟨⟨by rw [hgk]; rfl, hname, huid, by rw [hgv]; rfl⟩, hcommon.names⟩, ?_, hcommon.name,
      hcommon.uid, ?_⟩
    · rintro value hvalue
      rw [hgk] at hvalue
      cases hvalue
      exact ⟨kind, rfl, hk⟩
    · rintro value hvalue
      rw [hgv] at hvalue
      cases hvalue
      exact ⟨via, rfl, hv⟩

/-- No object of the member names a member twice, as no mapping can. -/
def Named (value : Json) : Prop :=
  ∀ members, value = .obj members → (members.map (·.1)).Nodup ∧
    ∀ items, Json.get members "chain" = some (.arr items) →
      ∀ link, .obj link ∈ items → (link.map (·.1)).Nodup

theorem valid_link_obj {value : Json} (h : valid published linkSchema value = true) :
    ∃ link, value = .obj link := by
  cases value with
  | obj link => exact ⟨link, rfl⟩
  | _ => simp [valid, meets, linkSchema] at h

theorem valid_chain_iff {value : Json} : valid published chainSchema value = true ↔
    ∃ items, value = .arr items ∧ (1 ≤ items.length ∧ items.length ≤ 4) ∧
      ∀ item ∈ items, valid published linkSchema item = true := by
  cases value with
  | arr items =>
    simp [valid, meets, meetsItems, chainSchema, validItems_iff]
  | _ => simp [valid, meets, chainSchema]

/-- **What the schema accepts**: a member within the bounds whose status, where it is given, is a
text and whose entries give all four members. -/
theorem valid_delegation_iff {value : Json} (hnamed : Named value) :
    valid published delegation value = true ↔
      ∃ members links, Common value members links ∧ StatusText members ∧
        ∀ link ∈ links, GivesBoth link := by
  cases value with
  | obj members =>
    obtain ⟨hnodup, hlinks⟩ := hnamed members rfl
    have hproperties : (delegation.properties.map (·.1)).Nodup := by decide
    rw [valid, Bool.and_eq_true, validMembers_iff_lookup hproperties hnodup]
    have hmeets : meets published delegation (.obj members) = true ↔
        (Json.get members "chain").isSome = true ∧
        ∀ m ∈ members, m.1 ∈ ["status", "chain"].map lit := by
      have hnames : (∀ m ∈ members, m.1 ∈ ["status", "chain"].map lit) ↔
          ∀ m ∈ members, m.1 ∈ delegation.properties.map (·.1) := by
        refine forall₂_congr fun m _ => ?_
        simp [delegation, or_comm]
      rw [hnames, ← names_known hproperties]
      simp [meets, meetsNames, delegation, Json.get]
    have hparts : (∀ p ∈ delegation.properties, ∀ value, members.lookup p.1 = some value →
        valid published p.2 value = true) ↔
        (∀ value, Json.get members "chain" = some value →
          valid published chainSchema value = true) ∧ StatusText members := by
      simp only [delegation_eq, List.forall_mem_cons, List.not_mem_nil, false_implies,
        implies_true, and_true, valid_status_iff, StatusText, Json.get]
    rw [hmeets, hparts]
    constructor
    · rintro ⟨⟨hsome, hnames⟩, hchain, hstatus⟩
      obtain ⟨chain, hget⟩ := Option.isSome_iff_exists.1 hsome
      obtain ⟨items, rfl, hcount, hitems⟩ := valid_chain_iff.1 (hchain chain hget)
      obtain ⟨links, rfl⟩ := links_of_objects fun item hitem => valid_link_obj (hitems item hitem)
      refine ⟨members, links, ⟨rfl, ⟨hnames, hget, by rwa [List.length_map] at hcount⟩, ?_⟩,
        hstatus, ?_⟩
      · intro link hlink
        have hmem : Json.obj link ∈ links.map Json.obj := List.mem_map.2 ⟨link, hlink, rfl⟩
        exact ((valid_link_iff (hlinks _ hget link hmem)).1 (hitems _ hmem)).1
      · intro link hlink
        have hmem : Json.obj link ∈ links.map Json.obj := List.mem_map.2 ⟨link, hlink, rfl⟩
        exact ((valid_link_iff (hlinks _ hget link hmem)).1 (hitems _ hmem)).2
    · rintro ⟨_, links, ⟨heq, hmember, hcommon⟩, hstatus, hboth⟩
      cases heq
      refine ⟨⟨by rw [hmember.chain]; rfl, hmember.names⟩, ?_, hstatus⟩
      intro chain hget
      rw [hmember.chain] at hget
      cases hget
      refine valid_chain_iff.2 ⟨_, rfl, by rw [List.length_map]; exact hmember.count, ?_⟩
      intro item hitem
      obtain ⟨link, hlink, rfl⟩ := List.mem_map.1 hitem
      exact (valid_link_iff (hlinks _ hmember.chain link hitem)).2
        ⟨hcommon link hlink, hboth link hlink⟩
  | _ =>
    simp only [Common, reduceCtorEq, false_and, exists_false, iff_false]
    simp [valid, meets, delegation]

/-! ## The reader against the schema -/

theorem Common.unique {value : Json} {members members' : Client.Members} {links links' : List Client.Members}
    (h : Common value members links) (h' : Common value members' links') :
    members' = members ∧ links' = links := by
  obtain ⟨rfl, hmember, -⟩ := h
  obtain ⟨heq, hmember', -⟩ := h'
  cases heq
  refine ⟨rfl, ?_⟩
  have hchain := hmember.chain.symm.trans hmember'.chain
  have hinj : Function.Injective Json.obj := fun a b hab => Json.obj.inj hab
  exact ((List.map_injective_iff.2 hinj) (Json.arr.inj (Option.some.inj hchain))).symm

/-- The record holds the chain as it was declared: at each name its document has what the entry
has, null where the entry has nothing. -/
def HoldsChain (value : Json) (record : Delegation) : Prop :=
  ∃ members links, value = .obj members ∧ Json.get members "chain" = some (.arr (links.map .obj)) ∧
    List.Forall₂ (fun link held => ∀ key : Str,
      ((linkDocument held).lookup key).getD .null = (link.lookup key).getD .null) links record.chain

theorem linkDocument_lookup {link : Client.Members} {held : DelegatedIdentity}
    (hnames : ∀ m ∈ link, m.1 ∈ ["kind", "name", "uid", "via"].map lit) (h : HoldsLink link held)
    (key : Str) : ((linkDocument held).lookup key).getD .null = (link.lookup key).getD .null := by
  by_cases hkey : key ∈ ["kind", "name", "uid", "via"].map lit
  · simp only [List.map_cons, List.map_nil, List.mem_cons, List.not_mem_nil, or_false] at hkey
    rcases hkey with rfl | rfl | rfl | rfl
    · exact h.kind.symm
    · exact h.name.symm
    · exact h.uid.symm
    · exact h.via.symm
  · have hlink : link.lookup key = none := by
      rw [List.lookup_eq_none_iff]
      intro m hm
      refine bne_iff_ne.2 ?_
      rintro rfl
      exact hkey (hnames m hm)
    have hheld : (linkDocument held).lookup key = none := by
      rw [List.lookup_eq_none_iff]
      intro m hm
      refine bne_iff_ne.2 ?_
      rintro rfl
      refine hkey ?_
      simp only [linkDocument, List.mem_cons, List.not_mem_nil, or_false] at hm
      rcases hm with rfl | rfl | rfl | rfl <;> simp
    rw [hlink, hheld]

theorem forall₂_of_mapM {links : List Client.Members} {records : List DelegatedIdentity}
    (h : (links.map Json.obj).mapM (readLink repr) = .ok records) :
    List.Forall₂ (fun link held => readLink repr (.obj link) = .ok held) links records := by
  induction links generalizing records with
  | nil =>
    cases h
    exact .nil
  | cons link rest ih =>
    rw [List.map_cons, List.mapM_cons, bind_ok_iff] at h
    obtain ⟨held, hheld, h⟩ := h
    obtain ⟨others, hothers, h⟩ := bind_ok_iff.1 h
    cases h
    exact .cons hheld (ih hothers)

/-- **What was declared is held**: the record of a member that is read has its chain. -/
theorem holdsChain_of_read {value : Json} {record : Option Delegation} (hnull : value ≠ .null)
    (h : fromRequestMember repr value = .ok record) :
    ∃ held, record = some held ∧ HoldsChain value held := by
  obtain ⟨members, links, ⟨rfl, hmember, hcommon⟩, -⟩ :=
    (fromRequestMember_returns_iff hnull).1 ⟨record, h⟩
  rw [fromRequestMember_chain hmember.names (Client.member_of_get hmember.chain)
    (by rw [List.length_map]; exact hmember.count)] at h
  cases hlinks : (links.map Json.obj).mapM (readLink repr) with
  | error e =>
    rw [hlinks] at h
    cases h
  | ok records =>
    rw [hlinks] at h
    cases h
    refine ⟨⟨records⟩, rfl, members, links, rfl, hmember.chain, ?_⟩
    refine (forall₂_of_mapM hlinks).imp fun link held hheld => ?_
    obtain ⟨hlink, -, hholds⟩ := readLink_ok_iff.1 hheld
    exact linkDocument_lookup hlink.names hholds

/-- The reader decides the published schema on a value: it returns or raises the one exception,
it returns exactly where the schema accepts, the later check refuses nothing it read, and the
record holds the chain that was declared. -/
structure Decided (repr : Json → Str) (value : Json) : Prop where
  total : ∀ fault, fromRequestMember repr value = .error fault →
    ∃ message, fault = .outOfBounds message
  exact : Returns (fromRequestMember repr value) ↔ valid published delegation value = true
  later : ∀ levels at_ complaint, Returns (fromRequestMember repr value) →
    refuse levels delegation value at_ ≠ .ok (some complaint)
  holds : ∀ record, fromRequestMember repr value = .ok record →
    ∃ held, record = some held ∧ HoldsChain value held

/-- The record's status is the one that was declared, where one was. -/
def HoldsStatus (repr : Json → Str) (value : Json) : Prop :=
  ∀ members held, value = .obj members → fromRequestMember repr value = .ok (some held) →
    ∀ status, Json.get members "status" = some status →
      Json.get (delegationDocument held) "status" = some status

/-- Of the members that are read, the status is the text the record has. -/
def DeclaresStatus (value : Json) : Prop :=
  ∀ members links, Common value members links → (∀ link ∈ links, ¬ FloatUid link) →
    ∀ status, Json.get members "status" = some status → status = .str (lit "declared")

theorem total_iff {value : Json} (hnull : value ≠ .null) :
    (∀ fault, fromRequestMember repr value = .error fault → ∃ message, fault = .outOfBounds message) ↔
      ¬ MeetsUncoded value := by
  rw [← fromRequestMember_uncoded_iff repr hnull]
  constructor
  · rintro h ⟨fault, hfault, huncoded⟩
    obtain ⟨message, rfl⟩ := h fault hfault
    exact huncoded
  · intro h fault hfault
    cases fault with
    | outOfBounds message => exact ⟨message, rfl⟩
    | unicodeEncodeError text => exact (h ⟨_, hfault, trivial⟩).elim

theorem exact_iff (repr : Json → Str) {value : Json} (hnull : value ≠ .null) (hnamed : Named value) :
    (Returns (fromRequestMember repr value) ↔ valid published delegation value = true) ↔
      ∀ members links, Common value members links →
        ((∃ link ∈ links, FloatUid link) ↔
          ¬ (StatusText members ∧ ∀ link ∈ links, GivesBoth link)) := by
  rw [fromRequestMember_returns_iff hnull, valid_delegation_iff hnamed]
  constructor
  · intro h members links hcommon
    have hread : (∃ members links, Common value members links ∧ ∀ link ∈ links, ¬ FloatUid link) ↔
        ∀ link ∈ links, ¬ FloatUid link := by
      constructor
      · rintro ⟨members', links', hcommon', hfloat⟩
        obtain ⟨rfl, rfl⟩ := hcommon.unique hcommon'
        exact hfloat
      · exact fun hfloat => ⟨members, links, hcommon, hfloat⟩
    have hvalid : (∃ members links, Common value members links ∧ StatusText members ∧
        ∀ link ∈ links, GivesBoth link) ↔ StatusText members ∧ ∀ link ∈ links, GivesBoth link := by
      constructor
      · rintro ⟨members', links', hcommon', hgives⟩
        obtain ⟨rfl, rfl⟩ := hcommon.unique hcommon'
        exact hgives
      · exact fun hgives => ⟨members, links, hcommon, hgives⟩
    rw [hread, hvalid] at h
    rw [← h]
    simp only [not_forall, not_not, exists_prop]
  · intro h
    constructor
    · rintro ⟨members, links, hcommon, hfloat⟩
      refine ⟨members, links, hcommon, ?_⟩
      by_contra hno
      obtain ⟨link, hlink, hfl⟩ := (h members links hcommon).2 hno
      exact hfloat link hlink hfl
    · rintro ⟨members, links, hcommon, hgives⟩
      refine ⟨members, links, hcommon, fun link hlink hfl => ?_⟩
      exact (h members links hcommon).1 ⟨link, hlink, hfl⟩ hgives

theorem decided_iff {value : Json} (hnull : value ≠ .null) (hnamed : Named value) :
    Decided repr value ↔ Clear value := by
  constructor
  · intro h
    exact ⟨(exact_iff repr hnull hnamed).1 h.exact, (total_iff hnull).1 h.total⟩
  · rintro ⟨hagree, hcoded⟩
    have hexact := (exact_iff repr hnull hnamed).2 hagree
    refine ⟨(total_iff hnull).2 hcoded, hexact, ?_, fun record => holdsChain_of_read hnull⟩
    intro levels at_ complaint hreturns hrefused
    have hsearched := (Plane.valid_published_iff.1 (hexact.1 hreturns)).1
    have hjudged := @Plane.refuse_judged levels value delegation at_
    rw [hrefused] at hjudged
    exact absurd hsearched (by simp [hjudged.2])

theorem holdsStatus_iff {value : Json} (hnull : value ≠ .null) :
    HoldsStatus repr value ↔ DeclaresStatus value := by
  constructor
  · rintro h members links hcommon hfloat status hstatus
    obtain ⟨record, hrecord⟩ :=
      (fromRequestMember_returns_iff hnull).2 ⟨members, links, hcommon, hfloat⟩
    obtain ⟨held, rfl, -⟩ := holdsChain_of_read hnull hrecord
    exact (Option.some.inj (h members held hcommon.1 hrecord status hstatus)).symm
  · rintro h members held rfl hread status hstatus
    obtain ⟨members', links, hcommon, hfloat⟩ :=
      (fromRequestMember_returns_iff hnull).1 ⟨some held, hread⟩
    cases hcommon.1
    rw [h members links hcommon hfloat status hstatus]
    rfl

/-- A member with this status and one entry. -/
def sampleMember (status : Json) (link : Client.Members) : Json :=
  .obj [(lit "status", status), (lit "chain", .arr [.obj link])]

def sampleLink (kind : Str) (uid : Json) : Client.Members :=
  [(lit "kind", .str kind), (lit "name", .null), (lit "uid", uid),
    (lit "via", .str (lit "scheduler"))]

end SayFirst.Contract
