import SayFirst.Proof.Export

/-!
# What an export verdict was folded from

* `verifyExport_ok` — a verdict is the invalid one, or the judgement of an opened bundle.
* `judge_ok` — the sub-verdicts a judgement was folded from.
* `rederived_trusted` — what was re-derived is in the trusted part, with its policy.
* `trustedPart_intact`, `trustedPart_named` — what the trusted part is.
-/

namespace SayFirst.Contract

open Py Evidence
open SayFirst.Plane (TomlLib)

variable {py : Interpreter} {toml : TomlLib} {members : Members} {scope : Str} {b : Opened}
  {v : ExportVerdict}

/-- A verdict is the invalid one, or the judgement of an opened bundle. -/
theorem verifyExport_ok {bundle : Json} (h : verifyExport py toml bundle = .ok v) :
    (∃ named reason, v = invalidVerdict named reason) ∨
    ∃ members scope b, bundle = .obj members ∧ Json.get members "scope" = some (.str scope) ∧
      Plane.scopePattern.fullmatch scope = true ∧ openBundle py members scope = .ok b ∧
      judge py toml members scope b = .ok v := by
  unfold verifyExport at h
  split at h
  · rename_i members
    split at h
    · rename_i scope hscope
      split at h
      · rename_i hs
        cases hrun : openBundle py members scope >>= judge py toml members scope with
        | ok v' =>
          rw [hrun] at h
          cases h
          obtain ⟨b, hopen, hjudge⟩ := bind_ok.1 hrun
          exact .inr ⟨members, scope, b, rfl, hscope, hs, hopen, hjudge⟩
        | error raised =>
          rw [hrun] at h
          cases raised with
          | invalidBundle reason => cases h; exact .inl ⟨_, reason, rfl⟩
          | _ => cases h
      · cases h; exact .inl ⟨_, _, rfl⟩
    · cases h; exact .inl ⟨_, _, rfl⟩
  · cases h; exact .inl ⟨_, _, rfl⟩

theorem openBundle_ok (h : openBundle py members scope = .ok b) :
    readBundle members = .ok b.toShape ∧
      verifiedContext py (Json.get members "recovery_context") b.entries.getLast? scope =
        .ok (b.context, b.contextUnverified) := by
  unfold openBundle at h
  obtain ⟨shape, hshape, h⟩ := bind_ok.1 h
  obtain ⟨⟨context, unverified⟩, hcontext, h⟩ := bind_ok.1 h
  cases h
  exact ⟨hshape, hcontext⟩

/-- The last sequence of the trusted part. -/
def lastTrusted (trusted : List Entry) : ℤ := (trusted.getLast?.map Entry.sequence).getD 0

/-- What a judgement says of the coverage. -/
def coverageOf (trusted : List Entry) (b : Opened) : String :=
  if trusted.any fun e => e.kind == lit "gap" then "incomplete"
  else if coverageUnknown b.entries trusted b.contextUnverified (spansOf trusted b).1
    (spansOf trusted b).2 then "unknown"
  else "complete"

/-- **What a judgement was folded from.** -/
theorem judge_ok (h : judge py toml members scope b = .ok v) :
    ∃ provisional attached,
      verifyRead py b.entries scope b.fromSequence b.toSequence [] = .ok provisional ∧
      trustedPart py scope b.toShape = b.entries.take (trustedCount b.entries provisional) ∧
      (requiredVersions py (trustedPart py scope b.toShape)).mapM (attach py b.attachments) =
        .ok attached ∧
      (b.entries.filter isEffect).mapM
        (rederiveEntry py toml scope (lastTrusted (trustedPart py scope b.toShape)) attached) =
        .ok v.rederivations ∧
      v.manifestVersion = (checkManifest py members b.toShape).1 ∧
      v.manifestHashRecomputes = (checkManifest py members b.toShape).2.1 ∧
      v.coverage = coverageOf (trustedPart py scope b.toShape) b ∧
      v.overall = overallOf v.rederivations
        (issuesOf provisional (checkManifest py members b.toShape).2.2 b.contextUnverified attached
          ((trustedPart py scope b.toShape).any fun e => e.kind == lit "gap")
          (coverageUnknown b.entries (trustedPart py scope b.toShape) b.contextUnverified
            (spansOf (trustedPart py scope b.toShape) b).1
            (spansOf (trustedPart py scope b.toShape) b).2)
          ((trustedPart py scope b.toShape).filter isEffect).isEmpty) v.coverage := by
  unfold judge at h
  obtain ⟨provisional, hprov, h⟩ := bind_ok.1 h
  have htrusted : trustedPart py scope b.toShape =
      b.entries.take (trustedCount b.entries provisional) := by
    unfold trustedPart
    rw [hprov]
  simp only at h
  obtain ⟨chain, -, h⟩ := bind_ok.1 h
  obtain ⟨attached, hatt, h⟩ := bind_ok.1 h
  obtain ⟨rederivations, hred, h⟩ := bind_ok.1 h
  cases h
  refine ⟨provisional, attached, hprov, htrusted, ?_, ?_, rfl, rfl, ?_, ?_⟩
  · rw [htrusted]
    exact hatt
  · rw [htrusted]
    exact hred
  · rw [htrusted]
    rfl
  · rw [htrusted]

/-! ## Re-derivations -/

/-- What one effect is answered: nothing behind the trusted part or without its policy, else
what its record re-derives to. -/
theorem rederiveEntry_cases {last : ℤ} {attached : List Attached} {e : Entry}
    {r : EntryRederivation} (h : rederiveEntry py toml scope last attached e = .ok r) :
    r.sequence = e.sequence ∧ r.decisionId = bodyText py e "decision_id" ∧
      ((last < e.sequence ∧ r.verdict = .unverifiable) ∨
        (¬ last < e.sequence ∧ ∃ held,
          attached.find? (·.version == bodyText py e "policy_version") = some held ∧
          ((∃ cause, held.content = .error cause ∧ r.verdict = .unverifiable) ∨
            ∃ content result, held.content = .ok content ∧
              rederiveRecordedDecision toml (recorded py e.body scope) content = .ok result ∧
              r.verdict = result.verdict))) := by
  unfold rederiveEntry at h
  simp only at h
  split at h
  · rename_i hlast
    cases h
    exact ⟨rfl, rfl, .inl ⟨hlast, rfl⟩⟩
  · rename_i hlast
    split at h
    · cases h
    · rename_i held hfind
      split at h
      · rename_i cause hcause
        cases h
        exact ⟨rfl, rfl, .inr ⟨hlast, held, hfind, .inl ⟨cause, hcause, rfl⟩⟩⟩
      · rename_i content hcontent
        split at h
        · cases h
        · rename_i result hresult
          cases h
          exact ⟨rfl, rfl,
            .inr ⟨hlast, held, hfind, .inr ⟨content, result, hcontent, hresult, rfl⟩⟩⟩

/-! ## The trusted part -/

section Trusted

variable {c : Shape}

/-- Entries of one scope in order are scanned. -/
theorem told_rising {read : List Entry} {lo : ℤ} {hi : Option ℤ}
    (hscope : ∀ e ∈ read, e.scope = scope) (hrise : Chain.Rising (entryView py) read) :
    told py read scope lo hi =
      report (entryView py) Entry.preimageVersion read (Chain.scan (entryView py) lo hi read) := by
  have hall : (read.any fun e => e.scope != scope) = false := by simpa using hscope
  have hord : outOfOrder Entry.sequence read = false := outOfOrder_false.2 hrise
  unfold told
  rw [if_neg (by simp [hall, hord])]

theorem take_countP {entries : List Entry} (hrise : Chain.Rising (entryView py) entries) (s : ℤ) :
    entries.take (entries.countP fun e => e.sequence < s) =
      entries.filter fun e => e.sequence < s := by
  induction entries with
  | nil => rfl
  | cons a rest ih =>
    obtain ⟨hafter, hrise'⟩ := List.pairwise_cons.1 hrise
    by_cases ha : a.sequence < s
    · rw [List.countP_cons_of_pos (by simpa using ha), List.take_succ_cons, ih hrise',
        List.filter_cons_of_pos (by simpa using ha)]
    · -- nothing behind `a` comes before `s`
      have hnone : ∀ e ∈ a :: rest, ¬ e.sequence < s := by
        intro e he
        rcases List.mem_cons.1 he with rfl | he
        · exact ha
        · have : a.sequence < e.sequence := hafter e he
          omega
      rw [List.countP_eq_zero.2 (by simpa using hnone), List.take_zero,
        List.filter_eq_nil_iff.2 (by simpa using hnone)]

theorem report_not_intact {α : Type} {w : Chain.View α} {version : α → Str} {entries : List α}
    {f : Chain.Finding α} {s : ℤ} (h : f.names w = some s) :
    (report w version entries f).condition ≠ .intact := by
  intro hc
  rw [report_intact hc] at h
  cases h

/-- **What the trusted part is**, of entries of one scope in order: all of them when the scan
finds them intact, else those before the sequence it names. -/
theorem trustedPart_rising (hvalid : ValidRange scope c.fromSequence c.toSequence)
    (hcount : CountsReadable py c.entries) (hscope : ∀ e ∈ c.entries, e.scope = scope)
    (hrise : Chain.Rising (entryView py) c.entries) :
    let found := Chain.scan (entryView py) c.fromSequence c.toSequence c.entries
    (found = .intact → trustedPart py scope c = c.entries) ∧
    (∀ s, found.names (entryView py) = some s →
      trustedPart py scope c = c.entries.filter fun e => e.sequence < s) ∧
    (found = .nothing → trustedPart py scope c = []) := by
  intro found
  have hverdict : ∃ v, verifyRead py c.entries scope c.fromSequence c.toSequence [] = .ok v := by
    rw [verifyRead_valid hvalid]
    exact verdictOf_total hcount
  obtain ⟨v, hv⟩ := hverdict
  obtain ⟨-, -, hc, hs⟩ := verifyRead_ok hv
  rw [told_rising hscope hrise] at hc hs
  rw [report_sequence] at hs
  unfold trustedPart trustedCount
  rw [hv]
  refine ⟨fun hf => ?_, fun s hf => ?_, fun hf => ?_⟩
  · simp only [hc]
    rw [show Chain.scan (entryView py) c.fromSequence c.toSequence c.entries = .intact from hf]
    simp [report]
  · have hne : v.condition ≠ .intact := hc ▸ report_not_intact hf
    rw [show Chain.Finding.names (entryView py) found = some s from hf] at hs
    simp only [if_neg hne, hs]
    exact take_countP hrise s
  · rw [show Chain.scan (entryView py) c.fromSequence c.toSequence c.entries = .nothing from hf]
      at hc hs
    simp [hc, hs, report, Chain.Finding.names]

/-- Where anything is trusted, the entries are of one scope and in order. -/
theorem trustedPart_ne (hne : trustedPart py scope c ≠ []) :
    ValidRange scope c.fromSequence c.toSequence ∧ CountsReadable py c.entries ∧
      (∀ e ∈ c.entries, e.scope = scope) ∧ Chain.Rising (entryView py) c.entries := by
  unfold trustedPart at hne
  split at hne
  · rename_i v hv
    obtain ⟨hvalid, hcount, hc, hs⟩ := verifyRead_ok hv
    refine ⟨hvalid, hcount, ?_⟩
    have hscan : (told py c.entries scope c.fromSequence c.toSequence).condition = .intact ∨
        (told py c.entries scope c.fromSequence c.toSequence).sequence.isSome = true := by
      by_contra hno
      simp only [not_or] at hno
      refine hne ?_
      unfold trustedCount
      rw [hc, hs, if_neg hno.1]
      cases hseq : (told py c.entries scope c.fromSequence c.toSequence).sequence with
      | none => rfl
      | some s => rw [hseq] at hno; simp at hno
    obtain ⟨hscope, hrise, -⟩ := told_scanned hscan
    exact ⟨hscope, hrise⟩
  · exact absurd rfl hne

/-- **What re-derived is a trusted effect**, from the policy attached for it. -/
theorem rederived_trusted (hopen : openBundle py members scope = .ok b)
    (h : judge py toml members scope b = .ok v) {r : EntryRederivation}
    (hr : r ∈ v.rederivations) (hv : r.verdict ≠ .unverifiable) :
    ∃ e ∈ trustedPart py scope b.toShape, isEffect e = true ∧ r.sequence = e.sequence := by
  obtain ⟨provisional, attached, hprov, htrusted, -, hred, -⟩ := judge_ok h
  obtain ⟨e, he, her⟩ := mapM_mem hred r hr
  obtain ⟨he, heff⟩ := List.mem_filter.1 he
  obtain ⟨hseq, -, ⟨-, hu⟩ | ⟨hlast, -⟩⟩ := rederiveEntry_cases her
  · exact absurd hu hv
  refine ⟨e, ?_, heff, hseq⟩
  have hpos := entries_positive (readBundle_ok (openBundle_ok hopen).1).2.1
  rw [htrusted] at hlast ⊢
  exact (mem_take_iff hpos (trusted_rising hprov) he).2 hlast

end Trusted

/-! ## A sample

One allowed read and the marker of a clean stop behind it.
-/

namespace Sample

def text (s : String) : Json := .str (lit s)

def policyText : Bytes := ascii <|
  lit "format = 1\n\n[revision]\nreason = \"first\"\n\n[[rule]]\nid = \"reads\"\n" ++
  lit "capability = \"files.read\"\nprincipals = [\"user:ana\"]\noutcome = \"allow\"\n" ++
  lit "reason = \"reading is fine\"\n"

/-- `policyText` in base64. -/
def policyContent : Str :=
  lit "Zm9ybWF0ID0gMQoKW3JldmlzaW9uXQpyZWFzb24gPSAiZmlyc3QiCgpbW3J1bGVdXQppZCA9ICJyZWFkcyIKY2Fw" ++
  lit "YWJpbGl0eSA9ICJmaWxlcy5yZWFkIgpwcmluY2lwYWxzID0gWyJ1c2VyOmFuYSJdCm91dGNvbWUgPSAiYWxsb3ci" ++
  lit "CnJlYXNvbiA9ICJyZWFkaW5nIGlzIGZpbmUiCg=="

/-- A TOML parser that reads this one file. -/
def tomllib : TomlLib where
  loads raw :=
    if raw = policyText then
      .ok [(lit "format", .int 1), (lit "revision", .table [(lit "reason", .str (lit "first"))]),
        (lit "rule", .arr [.table [(lit "id", .str (lit "reads")),
          (lit "capability", .str (lit "files.read")),
          (lit "principals", .arr [.str (lit "user:ana")]), (lit "outcome", .str (lit "allow")),
          (lit "reason", .str (lit "reading is fine"))]])]
    else .error (lit "Invalid statement")
  format _ := []
  repr _ := []

def policyVersion : String :=
  "sha256:028f709fd99f3a74bc88d492dd7d7cf90b18fae9e7ff921341b3724b4d314c45"

/-- The entry of the decision, declaring the recipe `version`. -/
def effect (version : Str) : Json :=
  .obj [(lit "scope", text "local"), (lit "kind", text "effect"),
    (lit "recorded_at", text "2026-01-05T10:00:00Z"), (lit "connection_id", text "c1"),
    (lit "principal",
      .obj [(lit "kind", text "user"), (lit "id", text "ana"), (lit "via", .arr [])]),
    (lit "body", .obj [(lit "capability", text "files.read"), (lit "decision_id", text "d1"),
      (lit "outcome", text "allow"), (lit "decided_at", text "2026-01-05T10:00:00Z"),
      (lit "policy_version", text policyVersion), (lit "recording_epoch", text "e1"),
      (lit "reason", text "policy_allows"), (lit "rule_id", text "reads"),
      (lit "arguments_digest", .null), (lit "correlation", .null),
      (lit "correlation_source", text "absent"),
      (lit "principal_references", .arr [text "user:ana"]),
      (lit "evaluation_recipe", text "sayfirst/policy-evaluation/v1"),
      (lit "decision_position", .obj [(lit "store_id", text "s1"), (lit "position", .int 1)])]),
    (lit "sequence", .int 1), (lit "previous_hash", .null),
    (lit "entry_hash", text "58ccc794014f6aa3880182f316478f6919be63383e3e22cdae617f3cce216d2b"),
    (lit "preimage_version", .str version)]

/-- The marker of the clean stop, at `sequence`. -/
def stop (sequence : ℤ) : Json :=
  .obj [(lit "scope", text "local"), (lit "kind", text "recovery"),
    (lit "recorded_at", text "2026-01-05T11:00:00Z"), (lit "connection_id", text "daemon"),
    (lit "principal",
      .obj [(lit "kind", text "service"), (lit "id", text "daemon"), (lit "via", .arr [])]),
    (lit "body", .obj [(lit "event", text "clean_stop"), (lit "recording_epoch", text "e1"),
      (lit "epoch_id", text "e1"), (lit "from_sequence", .int 1),
      (lit "through_sequence", .int 1)]),
    (lit "sequence", .int sequence),
    (lit "previous_hash", text "58ccc794014f6aa3880182f316478f6919be63383e3e22cdae617f3cce216d2b"),
    (lit "entry_hash", text "b18b4f7be3ab686118571e9f3864a229cd7a51682a5b4cc6a3d515f2a2a005d8"),
    (lit "preimage_version", .str Evidence.preimageVersion)]

/-- The export of both, the decision under `version` and the marker at `sequence`. -/
def bundle (version : Str) (sequence : ℤ) : Members :=
  [(lit "scope", text "local"), (lit "from_sequence", .int 1), (lit "to_sequence", .int sequence),
    (lit "next_from", .null), (lit "contract_version", text "1"),
    (lit "verification", .obj [(lit "condition", text "intact"), (lit "up_to", .int 2)]),
    (lit "entries", .arr [effect version, stop sequence]),
    (lit "policy_versions", .obj [(lit policyVersion, .obj [(lit "state", text "present"),
      (lit "content", .str policyContent)])]),
    (lit "manifest_version", .str manifestV3),
    (lit "manifest_hash", text "8ec2380d1e91e800e9a27acfaa94b41948fef011024d1419424cc9c3eeb8d9e8")]

end Sample

end SayFirst.Contract
