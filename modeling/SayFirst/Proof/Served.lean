import SayFirst.Proof.Judge

/-!
# What the verifier answers to a bundle in order

`Served members scope b`: the members of a bundle are there, in the shapes the verifier reads, and
say `b`.

* `Served.opens` — it opens as `b`.
* `Served.judged` — it is judged, never invalid, when the counts and attachments of `b` are read.
-/

namespace SayFirst.Contract

open Py Evidence
open SayFirst.Plane (TomlLib)

variable {py : Interpreter} {toml : TomlLib} {members : Members} {scope : Str} {b : Opened}
  {v : ExportVerdict}

/-- A context that continues the last entry of a bundle and verifies. -/
def Continues (py : Interpreter) (scope : Str) (entries context : List Entry) : Prop :=
  ∀ head rest, context = head :: rest →
    ∃ last, entries.getLast? = some last ∧ head.sequence = last.sequence + 1 ∧
      head.previousHash = some last.entryHash ∧
      ∃ v, verifyRead py context scope head.sequence none [] = .ok v ∧ v.condition = .intact

structure Served (py : Interpreter) (members : Members) (scope : Str) (b : Opened) : Prop where
  scope_eq : Json.get members "scope" = some (.str scope)
  from_eq : Json.get members "from_sequence" = some (.int b.fromSequence)
  to_eq : Json.get members "to_sequence" = some (.ofOption .int b.toSequence)
  next_eq : Json.get members "next_from" = some (.ofOption .int b.nextFrom)
  entries_eq : Json.get members "entries" = some (.arr b.entriesRaw)
  read : b.entriesRaw.mapM readEntry = .ok b.entries
  verification_eq : Json.get members "verification" = some (.obj b.verification)
  manifest_eq : Json.get members "manifest_hash" = some (.str b.manifest)
  attachments_eq : ∃ a, Json.get members "policy_versions" = some (.obj a) ∧ b.attachments = some a
  context_eq : ∃ raw, Json.get members "recovery_context" = some (.arr raw) ∧
    raw.mapM readEntry = .ok b.context
  valid : ValidRange scope b.fromSequence b.toSequence
  next_pos : ∀ n, b.nextFrom = some n → 1 ≤ n
  ends : b.entries ≠ [] → b.toSequence = b.entries.getLast?.map Entry.sequence
  continues : Continues py scope b.entries b.context
  verified : b.contextUnverified = false

theorem optionalInt_some {n : ℤ} (h : 1 ≤ n) : optionalInt (some (.int n)) = .ok (some n) :=
  if_neg (by omega)

theorem optionalInt_ofOption {n : Option ℤ} (h : ∀ m, n = some m → 1 ≤ m) :
    optionalInt (some (.ofOption .int n)) = .ok n := by
  cases n with
  | none => rfl
  | some m => exact optionalInt_some (h m rfl)

theorem Served.readBundle (h : Served py members scope b) :
    readBundle members = .ok b.toShape := by
  obtain ⟨-, hlo, hhi⟩ := h.valid
  obtain ⟨a, hattachments, ha⟩ := h.attachments_eq
  have hto : optionalInt (Json.get members "to_sequence") = .ok b.toSequence := by
    rw [h.to_eq]
    exact optionalInt_ofOption fun m hm => by have := hhi m hm; omega
  have hfrom : optionalInt (Json.get members "from_sequence") = .ok (some b.fromSequence) := by
    rw [h.from_eq, optionalInt_some hlo]
  have hnext : optionalInt (Json.get members "next_from") = .ok b.nextFrom := by
    rw [h.next_eq, optionalInt_ofOption h.next_pos]
  have hends : requireInvalid (b.entries.isEmpty ||
      b.toSequence == b.entries.getLast?.map Entry.sequence)
      "to_sequence must name the last entry the bundle carries" = .ok () := by
    cases hne : b.entries with
    | nil => rfl
    | cons e rest =>
      rw [← hne, h.ends (by rw [hne]; exact List.cons_ne_nil e rest), beq_self_eq_true,
        Bool.or_true]
      rfl
  unfold Contract.readBundle
  rw [hfrom, hto, hnext, h.entries_eq, h.verification_eq, h.manifest_eq, hattachments]
  simp only [h.read, hends, readAttachments, bind, Except.bind, pure, Except.pure]
  rw [← ha]

theorem Served.context (h : Served py members scope b) :
    verifiedContext py (Json.get members "recovery_context") b.entries.getLast? scope =
      .ok (b.context, b.contextUnverified) := by
  obtain ⟨raw, hraw, hread⟩ := h.context_eq
  rw [hraw, h.verified]
  unfold verifiedContext verifiedItems
  cases raw with
  | nil =>
    have hnil : b.context = [] := (Except.ok.inj hread).symm
    rw [hnil]
    rfl
  | cons item items =>
    cases hcontext : b.context with
    | nil =>
      rw [hcontext] at hread
      cases mapM_ok.1 hread
    | cons head rest =>
      obtain ⟨last, hlast, hsequence, hprevious, v, hv, hintact⟩ := h.continues head rest hcontext
      rw [hcontext] at hread hv
      simp only [List.isEmpty_cons, Bool.false_eq_true, if_false, hlast, hread, hsequence,
        hprevious, ne_eq, not_true, or_self]
      rw [hsequence] at hv
      simp only [hv, hintact, bind, Except.bind, pure, Except.pure, if_true]

/-- **A bundle in order opens.** -/
theorem Served.opens (h : Served py members scope b) : openBundle py members scope = .ok b := by
  unfold openBundle
  rw [h.readBundle]
  simp only [h.context, bind, Except.bind, pure, Except.pure]

/-! ## Its judgement -/

/-- The attachments of the versions are read. -/
def Attachable (py : Interpreter) (attachments : Option Members) (versions : List Str) : Prop :=
  ∀ version ∈ versions, ∃ a, attach py attachments version = .ok a

/-- What was opened is judged when its counts and its attachments are read. -/
theorem judge_total (hvalid : ValidRange scope b.fromSequence b.toSequence)
    (hpos : ∀ e ∈ b.entries, 1 ≤ e.sequence) (hcount : CountsReadable py b.entries)
    (hatt : Attachable py b.attachments (requiredVersions py (trustedPart py scope b.toShape))) :
    ∃ v, judge py toml members scope b = .ok v := by
  have hverdict : ∀ lowered, ∃ v,
      verifyRead py b.entries scope b.fromSequence b.toSequence lowered = .ok v := by
    intro lowered
    rw [verifyRead_valid hvalid]
    exact verdictOf_total hcount
  obtain ⟨provisional, hprov⟩ := hverdict []
  unfold trustedPart at hatt
  rw [hprov] at hatt
  obtain ⟨attached, hattached⟩ := mapM_total hatt
  obtain ⟨chain, hchain⟩ := hverdict
    (((b.entries.take (trustedCount b.entries provisional)).filter fun e => within e.sequence
      (spansOf (b.entries.take (trustedCount b.entries provisional)) b).2).map Entry.connectionId)
  have hrederived : ∃ rs, (b.entries.filter isEffect).mapM (rederiveEntry py toml scope
      (((b.entries.take (trustedCount b.entries provisional)).getLast?.map Entry.sequence).getD 0)
      attached) = .ok rs := by
    refine mapM_total fun e he => ?_
    obtain ⟨he, heff⟩ := List.mem_filter.1 he
    exact rederiveEntry_ok hpos (trusted_rising hprov) hattached he heff
  obtain ⟨rs, hrs⟩ := hrederived
  unfold judge
  refine ⟨_, bind_ok.2 ⟨provisional, hprov, bind_ok.2 ⟨chain, hchain, bind_ok.2 ⟨attached, hattached,
    bind_ok.2 ⟨rs, hrs, rfl⟩⟩⟩⟩⟩

/-- What a judgement says beside its sub-verdicts. -/
theorem judge_said (h : judge py toml members scope b = .ok v) :
    (∃ chain, v.chain = some chain ∧
      chain.condition = (told py b.entries scope b.fromSequence b.toSequence).condition) ∧
    lit "bundle_invalid" ∉ v.issues ∧
    (lit "recovery_context_unverified" ∈ v.issues → b.contextUnverified = true) ∧
    v.manifestHashRecomputes = (checkManifest py members b.toShape).2.1 := by
  unfold judge at h
  obtain ⟨provisional, hprov, h⟩ := bind_ok.1 h
  simp only at h
  obtain ⟨chain, hchain, h⟩ := bind_ok.1 h
  obtain ⟨attached, -, h⟩ := bind_ok.1 h
  obtain ⟨rederivations, -, h⟩ := bind_ok.1 h
  cases h
  have hmanifest : ∀ issue ∈ (checkManifest py members b.toShape).2.2,
      issue = lit "manifest_mismatch" ∨ issue = lit "manifest_recipe_unsupported" := by
    intro issue
    unfold checkManifest
    simp only
    repeat' split
    all_goals
      intro hissue
      simp_all
  have hissue : ∀ issue, issue ∈ issuesOf provisional (checkManifest py members b.toShape).2.2
      b.contextUnverified attached
      ((b.entries.take (trustedCount b.entries provisional)).any fun e => e.kind == lit "gap")
      (coverageUnknown b.entries (b.entries.take (trustedCount b.entries provisional))
        b.contextUnverified (spansOf (b.entries.take (trustedCount b.entries provisional)) b).1
        (spansOf (b.entries.take (trustedCount b.entries provisional)) b).2)
      ((b.entries.take (trustedCount b.entries provisional)).filter isEffect).isEmpty →
      issue = lit "recovery_context_unverified" ∧ b.contextUnverified = true ∨
      issue ∈ [lit "chain_unverifiable", lit "chain_damaged", lit "manifest_mismatch",
        lit "manifest_recipe_unsupported", lit "policy_map_incomplete", lit "coverage_incomplete",
        lit "coverage_unknown", lit "no_decisions"] := by
    intro issue hmem
    unfold issuesOf at hmem
    simp only [List.mem_append] at hmem
    rcases hmem with (((((hmem | hmem) | hmem) | hmem) | hmem) | hmem) | hmem
    · split at hmem
      · simp_all
      · split at hmem <;> simp_all
    · rcases hmanifest issue hmem with rfl | rfl <;> simp
    · split at hmem
      · rename_i hcontext
        exact .inl ⟨List.mem_singleton.1 hmem, hcontext⟩
      · cases hmem
    all_goals
      split at hmem
      · rw [List.mem_singleton.1 hmem]
        exact .inr (by simp)
      · cases hmem
  refine ⟨⟨chain, rfl, (verifyRead_ok hchain).2.2.1⟩, fun hmem => ?_, fun hmem => ?_, rfl⟩
  · rcases hissue _ hmem with ⟨h, -⟩ | h
    · exact absurd h (by decide)
    · exact absurd h (by decide)
  · rcases hissue _ hmem with ⟨-, h⟩ | h
    · exact h
    · exact absurd h (by decide)

/-- **A bundle in order is judged.** -/
theorem Served.judged (h : Served py members scope b) (hcount : CountsReadable py b.entries)
    (hatt : Attachable py b.attachments (requiredVersions py (trustedPart py scope b.toShape))) :
    ∃ v, verifyExport py toml (.obj members) = .ok v ∧ judge py toml members scope b = .ok v := by
  obtain ⟨v, hv⟩ : ∃ v, judge py toml members scope b = .ok v :=
    judge_total h.valid (entries_positive h.read) hcount hatt
  refine ⟨v, ?_, hv⟩
  unfold verifyExport
  simp only [h.scope_eq, h.valid.1, if_true, h.opens, bind, Except.bind, hv, caught]

end SayFirst.Contract
