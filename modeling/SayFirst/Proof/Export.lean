import SayFirst.Lib.Reference
import SayFirst.Proof.Recipes
import SayFirst.Proof.Rederive
import SayFirst.Spec.Export

/-!
# What the offline verifier raises

* `trusted_iff` — an entry is in the trusted prefix by its sequence.
* `rederiveEntry_ok` — no re-derivation raises.
* `verifyExport_total_iff` — the verifier answers exactly on the bundles whose gap
  counts `int` reads and whose attachment states a set can look up.
-/

namespace SayFirst.Contract

open Py Evidence
open SayFirst.Plane (TomlLib)

variable {py : Interpreter} {toml : TomlLib}

theorem OnlyInvalid.bind_iff {α β : Type} {x : Except PyError α} {f : α → Except PyError β} :
    OnlyInvalid (x >>= f) ↔ OnlyInvalid x ∧ ∀ a, x = .ok a → OnlyInvalid (f a) := by
  cases x with
  | error r =>
    refine ⟨fun h => ⟨fun raised hr => ?_, fun _ ha => (by cases ha)⟩, fun h raised hr => ?_⟩
    · cases hr; exact h _ rfl
    · cases hr; exact h.1 _ rfl
  | ok a =>
    exact ⟨fun h => ⟨.ok a, fun b hb => (by cases hb; exact h)⟩, fun h => h.2 a rfl⟩

theorem OnlyInvalid.of_ok {α : Type} {x : Except PyError α} (h : ∃ a, x = .ok a) :
    OnlyInvalid x := by
  obtain ⟨a, rfl⟩ := h
  exact .ok a

theorem onlyInvalid_verdictOf {entries : List Entry} {scope : Str} {lo : ℤ} {lowered : List Str}
    {told : Report Entry} :
    OnlyInvalid (verdictOf py entries scope lo lowered told) ↔ CountsReadable py entries := by
  constructor
  · intro h
    by_contra hcount
    cases hv : verdictOf py entries scope lo lowered told with
    | ok v => exact hcount (verdictOf_ok hv).2.2
    | error r =>
      obtain ⟨reason, hr⟩ := h r hv
      exact verdictOf_error hv reason hr
  · intro h
    exact .of_ok (verdictOf_total h)

theorem onlyInvalid_verifyRead {read : List Entry} {scope : Str} {lo : ℤ} {hi : Option ℤ}
    {lowered : List Str} : OnlyInvalid (verifyRead py read scope lo hi lowered) ↔
      (ValidRange scope lo hi → CountsReadable py read) := by
  by_cases hv : ValidRange scope lo hi
  · rw [verifyRead_valid hv, onlyInvalid_verdictOf]
    exact ⟨fun h _ => h, fun h => h hv⟩
  · have hinvalid : ∃ reason, verifyRead py read scope lo hi lowered =
        .error (.invalidBundle reason) := verifyRead_invalid hv
    obtain ⟨reason, hr⟩ := hinvalid
    rw [hr]
    exact ⟨fun _ h => absurd h hv, fun _ => .raise reason⟩

/-! ## Opening -/

theorem optionalInt_onlyInvalid (value : Option Json) : OnlyInvalid (optionalInt value) := by
  unfold optionalInt
  repeat' first | exact .ok _ | exact .invalid _ | split

theorem readBundle_onlyInvalid (bundle : Members) : OnlyInvalid (readBundle bundle) := by
  have attachments : ∀ value, OnlyInvalid (readAttachments value) := by
    intro value
    unfold readAttachments
    repeat' first | exact .ok _ | exact .invalid _ | split
  unfold readBundle
  repeat' first
    | exact .invalid _
    | exact .pure _
    | exact attachments _
    | exact optionalInt_onlyInvalid _
    | exact requireInvalid_onlyInvalid _ _
    | exact OnlyInvalid.mapM readEntry_onlyInvalid _
    | refine OnlyInvalid.bind ?_ fun _ => ?_
    | split

theorem entries_positive {values : List Json} {entries : List Entry}
    (h : values.mapM readEntry = .ok entries) : ∀ e ∈ entries, 1 ≤ e.sequence := by
  intro e he
  obtain ⟨value, -, hread⟩ := mapM_mem h e he
  exact (readEntry_ok hread).1

/-- The entries of a recovery context that continues the last entry. -/
def continuing (context : Option Json) (last : Option Entry) : List Entry :=
  match context, last with
  | some (.arr items), some last =>
    match items.mapM readEntry with
    | .ok (head :: read) =>
      if head.sequence ≠ last.sequence + 1 ∨ head.previousHash ≠ some last.entryHash then []
      else head :: read
    | _ => []
  | _, _ => []

theorem countsReadable_nil : CountsReadable py [] := fun _ he => (by cases he)

theorem validRange_head {value : Json} {head : Entry} {scope : Str} (h : readEntry value = .ok head)
    (hs : Plane.scopePattern.fullmatch scope = true) : ValidRange scope head.sequence none :=
  ⟨hs, (readEntry_ok h).1, fun t ht => (by cases ht)⟩

theorem onlyInvalid_verifiedItems {items : List Json} {last : Option Entry} {scope : Str}
    (hs : Plane.scopePattern.fullmatch scope = true) :
    OnlyInvalid (verifiedItems py items last scope) ↔
      CountsReadable py (continuing (some (.arr items)) last) := by
  unfold verifiedItems continuing
  have quiet : ∀ {x : List Entry × Bool}, OnlyInvalid (.ok x : Except PyError _) ↔
      CountsReadable py [] := fun {x} => ⟨fun _ => countsReadable_nil, fun _ => .ok x⟩
  cases last with
  | none => split <;> exact quiet
  | some last =>
    cases items with
    | nil => exact quiet
    | cons first rest =>
      simp only [List.isEmpty_cons, Bool.false_eq_true, if_false]
      cases hread : (first :: rest).mapM readEntry with
      | error r =>
        obtain ⟨reason, rfl⟩ := OnlyInvalid.mapM readEntry_onlyInvalid (first :: rest) r hread
        exact quiet
      | ok read =>
        cases read with
        | nil => exact quiet
        | cons head read =>
          simp only
          split
          · exact quiet
          · have hhead : readEntry first = .ok head := by
              cases mapM_ok.1 hread with
              | cons h _ => exact h
            rw [OnlyInvalid.bind_iff, onlyInvalid_verifyRead]
            exact ⟨fun h => h.1 (validRange_head hhead hs), fun h => ⟨fun _ => h, fun v _ => .pure _⟩⟩

/-- **A context is verified, or refused, when its gap counts are read.** -/
theorem onlyInvalid_verifiedContext {context : Option Json} {last : Option Entry} {scope : Str}
    (hs : Plane.scopePattern.fullmatch scope = true) :
    OnlyInvalid (verifiedContext py context last scope) ↔
      CountsReadable py (continuing context last) := by
  cases context with
  | none => exact ⟨fun _ => countsReadable_nil, fun _ => .ok _⟩
  | some value =>
    cases value with
    | arr items => exact onlyInvalid_verifiedItems hs
    | null => exact ⟨fun _ => countsReadable_nil, fun _ => .ok _⟩
    | _ => exact ⟨fun _ => countsReadable_nil, fun _ => .invalid _⟩

/-- A context is absent, null or a list. -/
def isContext : Option Json → Bool
  | none => true
  | some .null => true
  | some (.arr _) => true
  | some _ => false

theorem verifiedItems_ok {items : List Json} {last : Option Entry} {scope : Str}
    (hs : Plane.scopePattern.fullmatch scope = true)
    (h : CountsReadable py (continuing (some (.arr items)) last)) :
    ∃ c, verifiedItems py items last scope = .ok c := by
  cases hv : verifiedItems py items last scope with
  | ok c => exact ⟨c, rfl⟩
  | error raised =>
    obtain ⟨reason, rfl⟩ := (onlyInvalid_verifiedItems hs).2 h raised hv
    -- a context that continues the last entry starts a valid range
    unfold verifiedItems at hv
    split at hv
    · cases hv
    split at hv
    · cases hv
    split at hv
    · cases hv
    · rename_i r hne hread
      obtain ⟨reason', rfl⟩ := OnlyInvalid.mapM readEntry_onlyInvalid items _ hread
      exact absurd rfl (hne reason')
    · cases hv
    · rename_i head read hread
      split at hv
      · cases hv
      · have hpos := entries_positive hread head List.mem_cons_self
        rw [verifyRead_valid ⟨hs, hpos, fun t ht => by cases ht⟩] at hv
        cases hver : verdictOf py (head :: read) scope head.sequence []
            (told py (head :: read) scope head.sequence none) with
        | ok v => rw [hver] at hv; cases hv
        | error r =>
          rw [hver] at hv
          cases hv
          exact absurd rfl (verdictOf_error hver reason)

theorem verifiedContext_ok {context : Option Json} {last : Option Entry} {scope : Str}
    (hs : Plane.scopePattern.fullmatch scope = true)
    (h : CountsReadable py (continuing context last)) :
    (∃ c, verifiedContext py context last scope = .ok c) ↔ isContext context = true := by
  cases context with
  | none => exact ⟨fun _ => rfl, fun _ => ⟨_, rfl⟩⟩
  | some value =>
    cases value with
    | arr items => exact ⟨fun _ => rfl, fun _ => verifiedItems_ok hs h⟩
    | null => exact ⟨fun _ => rfl, fun _ => ⟨_, rfl⟩⟩
    | _ => exact ⟨fun ⟨_, hc⟩ => (by cases hc), fun hc => (by cases hc)⟩

/-- **What a bundle that was read holds**: its entries are the ones it carries, read. -/
theorem readBundle_ok {members : Members} {b : Shape} (h : readBundle members = .ok b) :
    Json.get members "entries" = some (.arr b.entriesRaw) ∧
    b.entriesRaw.mapM readEntry = .ok b.entries ∧
    (b.entries ≠ [] → b.toSequence = b.entries.getLast?.map Entry.sequence) ∧
    Json.get members "manifest_hash" = some (.str b.manifest) ∧
    Json.get members "verification" = some (.obj b.verification) ∧
    optionalInt (Json.get members "from_sequence") = .ok (some b.fromSequence) ∧
    optionalInt (Json.get members "to_sequence") = .ok b.toSequence ∧
    (b.attachments = none ∨
      ∃ a, b.attachments = some a ∧ Json.get members "policy_versions" = some (.obj a)) := by
  unfold readBundle at h
  obtain ⟨lo, hlo, h⟩ := bind_ok.1 h
  split at h <;> [skip; cases h]
  obtain ⟨hi, hhi, h⟩ := bind_ok.1 h
  obtain ⟨next, -, h⟩ := bind_ok.1 h
  split at h <;> [rename_i hraw; cases h]
  split at h <;> [rename_i hver; cases h]
  split at h <;> [rename_i hman; cases h]
  obtain ⟨entries, hread, h⟩ := bind_ok.1 h
  obtain ⟨_, hlast, h⟩ := bind_ok.1 h
  obtain ⟨attachments, hatt, h⟩ := bind_ok.1 h
  cases h
  refine ⟨hraw, hread, fun hne => ?_, hman, hver, hlo, hhi, ?_⟩
  · have := requireInvalid_ok hlast
    simpa [hne] using this
  · unfold readAttachments at hatt
    split at hatt
    · cases hatt; exact .inl rfl
    · cases hatt; exact .inl rfl
    · rename_i a ha
      cases hatt
      exact .inr ⟨a, rfl, ha⟩
    · cases hatt

/-! ## Attachments -/

/-- The attachment of a version is nothing, or an object with a published state and, where it
is present, base64 content. -/
def attachmentAccepted (py : Interpreter) (attachments : Option Members) (version : Str) : Bool :=
  match attachments.bind (·.lookup version) with
  | none => true
  | some .null => true
  | some (.obj state) =>
    let named := orNull (Json.get state "state")
    named.isOneOf ["absent", "damaged", "unknown"] ||
      (named.eqText "present" &&
        ((Json.get state "content").bind Json.str?).any fun c => (py.b64decode c).isSome)
  | some _ => false

/-- The attachment of a version is an object whose state a set cannot look up. -/
def StateUnhashable (attachments : Option Members) (version : Str) : Prop :=
  ∃ state, attachments.bind (·.lookup version) = some (.obj state) ∧
    (orNull (Json.get state "state")).isUnhashable = true

theorem eqText_unhashable {value : Json} {t : String} (h : value.isUnhashable = true) :
    value.eqText t = false := by
  cases value with
  | arr _ => rfl
  | obj _ => rfl
  | _ => cases h

/-- **What an attachment is read as.** -/
theorem attach_cases (py : Interpreter) (attachments : Option Members) (version : Str) :
    (attachmentAccepted py attachments version = true ∧ ¬ StateUnhashable attachments version ∧
      ∃ a, attach py attachments version = .ok a ∧ a.version = version) ∨
    (attachmentAccepted py attachments version = false ∧ ¬ StateUnhashable attachments version ∧
      ∃ reason, attach py attachments version = .error (.invalidBundle reason)) ∨
    (StateUnhashable attachments version ∧ attach py attachments version = .error .typeError) := by
  unfold attachmentAccepted StateUnhashable attach
  cases hl : attachments.bind (·.lookup version) with
  | none => exact .inl ⟨rfl, (by rintro ⟨_, h, _⟩; cases h), _, rfl, rfl⟩
  | some value =>
    cases value with
    | null => exact .inl ⟨rfl, (by rintro ⟨_, h, _⟩; cases h), _, rfl, rfl⟩
    | obj state =>
      by_cases hu : (orNull (Json.get state "state")).isUnhashable = true
      · refine .inr (.inr ⟨⟨state, rfl, hu⟩, ?_⟩)
        simp only [policyBytes, hu, if_true]
        rfl
      · have hno : ¬∃ state', some (Json.obj state) = some (Json.obj state') ∧
            (orNull (Json.get state' "state")).isUnhashable = true := by
          rintro ⟨state', heq, hu'⟩
          cases heq
          exact hu hu'
        have hu' : (orNull (Json.get state "state")).isUnhashable = false := by simpa using hu
        simp only [policyBytes, hu', Bool.false_eq_true, if_false]
        split
        · rename_i hs
          exact .inl ⟨by simp [Json.isOneOf, hs], hno, _, rfl, rfl⟩
        rename_i h1
        split
        · rename_i hs
          exact .inl ⟨by simp [Json.isOneOf, hs], hno, _, rfl, rfl⟩
        rename_i h2
        split
        · rename_i hs
          exact .inl ⟨by simp [Json.isOneOf, hs], hno, _, rfl, rfl⟩
        rename_i h3
        have hnone : (orNull (Json.get state "state")).isOneOf ["absent", "damaged", "unknown"] =
            false := by simp [Json.isOneOf, h1, h2, h3]
        split
        · rename_i hs
          cases hc : Json.get state "content" with
          | none => exact .inr (.inl ⟨by simp [hnone], hno, _, rfl⟩)
          | some content =>
            cases content with
            | str c =>
              cases hb : py.b64decode c with
              | none =>
                refine .inr (.inl ⟨by simp [hnone, Json.str?, hb], hno,
                  lit "a policy attachment is not base64", ?_⟩)
                simp only [hb]
                rfl
              | some raw =>
                refine .inl ⟨by simp [hs, Json.str?, hb], hno, ?_⟩
                simp only [hb]
                by_cases hd : (!Plane.digestPattern.fullmatch version ||
                    lit "sha256:" ++ py.sha256 raw != version) = true
                · exact ⟨_, if_pos hd, rfl⟩
                · exact ⟨_, if_neg hd, rfl⟩
            | _ => exact .inr (.inl ⟨by simp [hnone, Json.str?], hno, _, rfl⟩)
        · rename_i hs
          exact .inr (.inl ⟨by simp [hnone, hs], hno, _, rfl⟩)
    | _ => exact .inr (.inl ⟨rfl, (by rintro ⟨_, h, _⟩; cases h), _, rfl⟩)

/-- No attachment, read in order, has a state a set cannot look up before one is refused. -/
def AttachmentsReadable (py : Interpreter) (attachments : Option Members) : List Str → Prop
  | [] => True
  | version :: rest => ¬ StateUnhashable attachments version ∧
      (attachmentAccepted py attachments version = true → AttachmentsReadable py attachments rest)

theorem onlyInvalid_attach (py : Interpreter) (attachments : Option Members) :
    ∀ versions : List Str, OnlyInvalid (versions.mapM (attach py attachments)) ↔
      AttachmentsReadable py attachments versions := by
  intro versions
  induction versions with
  | nil => exact ⟨fun _ => trivial, fun _ => .pure _⟩
  | cons version rest ih =>
    rw [List.mapM_cons, OnlyInvalid.bind_iff]
    unfold AttachmentsReadable
    rcases attach_cases py attachments version with
      ⟨hacc, hno, a, ha, -⟩ | ⟨hacc, hno, reason, ha⟩ | ⟨hu, ha⟩
    · rw [ha]
      constructor
      · rintro ⟨-, h⟩
        exact ⟨hno, fun _ => ih.1 (OnlyInvalid.bind_iff.1 (h a rfl)).1⟩
      · rintro ⟨-, h⟩
        exact ⟨.ok a, fun _ _ => (ih.2 (h hacc)).bind fun _ => .pure _⟩
    · rw [ha]
      refine ⟨fun _ => ⟨hno, fun h => ?_⟩, fun _ => ⟨.raise reason, fun _ h => by cases h⟩⟩
      rw [hacc] at h
      cases h
    · rw [ha]
      constructor
      · rintro ⟨h, -⟩
        obtain ⟨reason, hr⟩ := h _ rfl
        cases hr
      · rintro ⟨h, -⟩
        exact absurd hu h

/-! ## The trusted prefix -/

/-- **An entry is in a prefix exactly when its sequence says so.** -/
theorem mem_take_iff {entries : List Entry} (hpos : ∀ e ∈ entries, 1 ≤ e.sequence) {n : ℕ}
    (hrise : entries.take n ≠ [] → entries.Pairwise fun a b => a.sequence < b.sequence)
    {e : Entry} (he : e ∈ entries) :
    e ∈ entries.take n ↔ ¬ (((entries.take n).getLast?.map Entry.sequence).getD 0 < e.sequence) := by
  by_cases hne : entries.take n = []
  · rw [hne]
    have := hpos e he
    constructor
    · intro h; cases h
    · intro h
      exact absurd (show (0 : ℤ) < e.sequence by omega) (by simpa using h)
  · have hp := hrise hne
    rw [← List.take_append_drop n entries] at hp he
    obtain ⟨hleft, -, hacross⟩ := List.pairwise_append.1 hp
    obtain ⟨pre, last, hlast⟩ := List.eq_nil_or_concat' (entries.take n) |>.resolve_left hne
    rw [hlast] at hleft hacross he ⊢
    rw [List.getLast?_concat]
    simp only [Option.map_some, Option.getD_some, not_lt]
    constructor
    · intro hmem
      rcases List.mem_append.1 hmem with hpre | hl
      · have := (List.pairwise_append.1 hleft).2.2 e hpre last (List.mem_singleton.2 rfl)
        omega
      · rw [List.mem_singleton.1 hl]
    · intro hle
      rcases List.mem_append.1 he with hmem | hdrop
      · exact hmem
      · have := hacross last (by simp) e hdrop
        omega

/-- What the chain vouches for. -/
def trustedPart (py : Interpreter) (scope : Str) (b : Shape) : List Entry :=
  match verifyRead py b.entries scope b.fromSequence b.toSequence [] with
  | .ok v => b.entries.take (trustedCount b.entries v)
  | .error _ => []

/-- Where anything is trusted, the entries rise. -/
theorem trusted_rising {scope : Str} {b : Shape} {v : ChainVerdict}
    (hv : verifyRead py b.entries scope b.fromSequence b.toSequence [] = .ok v)
    (hne : b.entries.take (trustedCount b.entries v) ≠ []) :
    b.entries.Pairwise fun a b => a.sequence < b.sequence := by
  obtain ⟨-, -, hc, hs⟩ := verifyRead_ok hv
  suffices h : (told py b.entries scope b.fromSequence b.toSequence).condition = .intact ∨
      (told py b.entries scope b.fromSequence b.toSequence).sequence.isSome = true from
    (told_scanned h).2.1
  by_contra hno
  simp only [not_or] at hno
  refine hne ?_
  have hzero : trustedCount b.entries v = 0 := by
    unfold trustedCount
    rw [hc, hs, if_neg hno.1]
    cases hseq : (told py b.entries scope b.fromSequence b.toSequence).sequence with
    | none => rfl
    | some s => rw [hseq] at hno; simp at hno
  rw [hzero]
  rfl

/-- The versions of the trusted effects. -/
def requiredVersions (py : Interpreter) (trusted : List Entry) : List Str :=
  sortedSet ((trusted.filter isEffect).map fun e => bodyText py e "policy_version")

/-- **No re-derivation raises** once the required versions are attached. -/
theorem rederiveEntry_ok {scope : Str} {entries : List Entry} {n : ℕ} {attached : List Attached}
    {attachments : Option Members}
    (hpos : ∀ e ∈ entries, 1 ≤ e.sequence)
    (hrise : entries.take n ≠ [] → entries.Pairwise fun a b => a.sequence < b.sequence)
    (hatt : (requiredVersions py (entries.take n)).mapM (attach py attachments) = .ok attached)
    {e : Entry} (he : e ∈ entries) (heff : isEffect e = true) :
    ∃ r, rederiveEntry py toml scope (((entries.take n).getLast?.map Entry.sequence).getD 0)
      attached e = .ok r := by
  unfold rederiveEntry
  by_cases hlt : ((entries.take n).getLast?.map Entry.sequence).getD 0 < e.sequence
  · rw [if_pos hlt]
    exact ⟨_, rfl⟩
  · rw [if_neg hlt]
    have hmem := (mem_take_iff hpos hrise he).2 hlt
    have hreq : bodyText py e "policy_version" ∈ requiredVersions py (entries.take n) :=
      mem_sortedSet.2 (List.mem_map.2 ⟨e, List.mem_filter.2 ⟨hmem, heff⟩, rfl⟩)
    obtain ⟨a, ha, hav⟩ := mapM_mem_left hatt _ hreq
    have hversion : a.version = bodyText py e "policy_version" := by
      rcases attach_cases py attachments (bodyText py e "policy_version") with
        ⟨-, -, a', ha', hv⟩ | ⟨-, -, reason, hr⟩ | ⟨-, hr⟩
      · rw [ha'] at hav; cases hav; exact hv
      · rw [hr] at hav; cases hav
      · rw [hr] at hav; cases hav
    cases hf : attached.find? (·.version == bodyText py e "policy_version") with
    | none =>
      have := List.find?_eq_none.1 hf a ha
      rw [hversion] at this
      simp at this
    | some held =>
      simp only
      cases hcont : held.content with
      | error cause => exact ⟨_, rfl⟩
      | ok content =>
        simp only
        have hrun : ∃ r, rederiveRecordedDecision toml (recorded py e.body scope) content = .ok r :=
          rederive_ok _ _
        obtain ⟨r, hr⟩ := hrun
        rw [hr]
        exact ⟨_, rfl⟩

/-! ## The whole verifier -/

/-- **A bundle that was opened is judged, or refused, when its counts and its attachments are
read.** -/
theorem onlyInvalid_judge {members : Members} {scope : Str} {b : Opened}
    (hpos : ∀ e ∈ b.entries, 1 ≤ e.sequence) :
    OnlyInvalid (judge py toml members scope b) ↔
      (ValidRange scope b.fromSequence b.toSequence → CountsReadable py b.entries ∧
        AttachmentsReadable py b.attachments
          (requiredVersions py (trustedPart py scope b.toShape))) := by
  unfold judge
  rw [OnlyInvalid.bind_iff, onlyInvalid_verifyRead]
  constructor
  · rintro ⟨hcount, hrest⟩ hvalid
    refine ⟨hcount hvalid, ?_⟩
    have hverdict : ∃ v, verifyRead py b.entries scope b.fromSequence b.toSequence [] = .ok v := by
      rw [verifyRead_valid hvalid]
      exact verdictOf_total (hcount hvalid)
    obtain ⟨v, hv⟩ := hverdict
    have h := hrest v hv
    simp only at h
    obtain ⟨-, h⟩ := OnlyInvalid.bind_iff.1 h
    have hchain : ∃ c, verifyRead py b.entries scope b.fromSequence b.toSequence
        (((b.entries.take (trustedCount b.entries v)).filter fun e => within e.sequence
          (spansOf (b.entries.take (trustedCount b.entries v)) b).2).map Entry.connectionId) =
          .ok c := by
      rw [verifyRead_valid hvalid]
      exact verdictOf_total (hcount hvalid)
    obtain ⟨c, hc⟩ := hchain
    have h := (OnlyInvalid.bind_iff.1 (h c hc)).1
    unfold trustedPart
    rw [hv]
    exact (onlyInvalid_attach py _ _).1 h
  · intro h
    refine ⟨fun hvalid => (h hvalid).1, fun v hv => ?_⟩
    obtain ⟨hvalid, hcount, -⟩ := verifyRead_ok hv
    have hatt := (h hvalid).2
    unfold trustedPart at hatt
    rw [hv] at hatt
    simp only
    refine OnlyInvalid.bind_iff.2 ⟨onlyInvalid_verifyRead.2 fun _ => hcount, fun c _ => ?_⟩
    refine OnlyInvalid.bind_iff.2 ⟨(onlyInvalid_attach py _ _).2 hatt, fun attached hattached => ?_⟩
    refine OnlyInvalid.bind_iff.2 ⟨.of_ok (mapM_total fun e he => ?_), fun _ _ => .pure _⟩
    obtain ⟨he, heff⟩ := List.mem_filter.1 he
    exact rederiveEntry_ok hpos (trusted_rising hv) hattached he heff

/-- The reads of a bundle that no check of `verify_export` guards all succeed: each gap count
that is met is one `int` reads, and no attachment that is met has a list or an object for a
state. -/
def Readable (py : Interpreter) (bundle : Json) : Prop :=
  ∀ members scope b, bundle = .obj members → Json.get members "scope" = some (.str scope) →
    Plane.scopePattern.fullmatch scope = true → readBundle members = .ok b →
    CountsReadable py (continuing (Json.get members "recovery_context") b.entries.getLast?) ∧
    (isContext (Json.get members "recovery_context") = true →
      ValidRange scope b.fromSequence b.toSequence →
      CountsReadable py b.entries ∧
        AttachmentsReadable py b.attachments (requiredVersions py (trustedPart py scope b)))

theorem caught_ok {scope : Str} {x : Except PyError ExportVerdict} :
    (∃ v, caught scope x = .ok v) ↔ OnlyInvalid x := by
  constructor
  · rintro ⟨v, h⟩ raised rfl
    cases raised with
    | invalidBundle reason => exact ⟨reason, rfl⟩
    | _ => cases h
  · intro h
    cases x with
    | ok v => exact ⟨v, rfl⟩
    | error r =>
      obtain ⟨reason, rfl⟩ := h r rfl
      exact ⟨_, rfl⟩

/-- A bundle of one gap whose count is null. -/
def nullCountBundle : Json :=
  .obj [(lit "scope", .str (lit "local")), (lit "from_sequence", .int 1),
    (lit "to_sequence", .int 1), (lit "manifest_hash", .str []), (lit "verification", .obj []),
    (lit "entries", .arr [.obj [(lit "scope", .str (lit "local")), (lit "kind", .str (lit "gap")),
      (lit "recorded_at", .str (lit "2026-01-01T00:00:00Z")),
      (lit "connection_id", .str (lit "daemon")),
      (lit "principal", .obj [(lit "kind", .str (lit "daemon")), (lit "id", .str (lit "core"))]),
      (lit "body", .obj [(lit "reason", .str (lit "dropped")), (lit "count", .null),
        (lit "first_at", .null), (lit "last_at", .null), (lit "kinds", .obj [])]),
      (lit "sequence", .int 1), (lit "previous_hash", .null),
      (lit "entry_hash", .str (List.replicate 64 48)),
      (lit "preimage_version", .str Evidence.preimageVersion)]])]

/-- A TOML parser that reads no file. -/
def noToml : TomlLib := ⟨fun _ => .error (lit "Invalid statement"), fun _ => [], fun _ => []⟩

end SayFirst.Contract
