import SayFirst.Lib.Reference
import SayFirst.Proof.Judge
import SayFirst.Spec.Evidence

/-!
# The first fault of a chain

Both verifiers stop at the first thing a pass finds, and the passes run one after the
other, so the sequence a verdict names is the least faulty one only where the faults
come in the order of the passes.

* `first_fault` — when everything below the named sequence is sound and linked, in
  both verifiers and in the part of an export that is trusted.
* `first_fault_missed` — a chain whose verdict names a sequence behind its first fault.
-/

namespace SayFirst

open Py

namespace Contract

variable {py : Interpreter} {read : List Entry} {scope : Str} {lo : ℤ} {hi : Option ℤ}
  {lowered : List Str} {v : Evidence.ChainVerdict}

/-- The contract's verdict names what its scan found. -/
theorem verifyChain_first_fault {docs : List Json} (hread : docs.mapM readEntry = .ok read)
    (hscope : ∀ e ∈ read, e.scope = scope)
    (h : verifyChain py docs scope lo hi lowered = .ok v) :
    Chain.FirstFault (entryView py) lo hi read v.sequence ↔
      (Chain.Rising (entryView py) read → Chain.InOrder (entryView py) lo hi read) := by
  have hrun : verifyRead py read scope lo hi lowered = .ok v := by
    unfold verifyChain at h
    split at h
    · cases h
    split at h
    · cases h
    rw [hread] at h
    exact h
  obtain ⟨-, -, -, hseq⟩ := verifyRead_ok hrun
  by_cases hrise : Chain.Rising (entryView py) read
  · rw [hseq, told_rising hscope hrise, report_sequence, Chain.scan_first_fault hrise]
    exact ⟨fun h _ => h, fun h => h hrise⟩
  · refine ⟨fun _ h => absurd h hrise, fun _ s hs => ?_⟩
    rw [hseq] at hs
    exact absurd (told_scanned (.inr (by rw [hs]; rfl))).2.1 hrise

/-- The faults of the entries a bundle carries come in the order of the passes, and none lies
before the range. -/
def FaultsInOrder (py : Interpreter) (c : Shape) : Prop :=
  Chain.InOrder (entryView py) c.fromSequence c.toSequence c.entries ∧
    Chain.SoundBelow (entryView py) 1 c.toSequence c.entries c.fromSequence ∧
    Chain.LinkedBelow (entryView py) 1 c.toSequence c.entries c.fromSequence

/-- Every entry is sound and linked to the one before it. -/
def Whole (py : Interpreter) (entries : List Entry) : Prop :=
  (∀ e ∈ entries, Chain.Sound (entryView py) e) ∧ entries.IsChain (Chain.Linked (entryView py))

/-- What stands before `s` is whole when it is sound and linked below `s`. -/
theorem whole_below {c : Shape} (hrise : Chain.Rising (entryView py) c.entries)
    (hin : ∀ e ∈ c.entries, Chain.InRange (entryView py) 1 c.toSequence e) (s : ℤ) :
    Whole py (c.entries.filter fun e => e.sequence < s) ↔
      Chain.SoundBelow (entryView py) 1 c.toSequence c.entries s ∧
      Chain.LinkedBelow (entryView py) 1 c.toSequence c.entries s := by
  unfold Whole Chain.LinkedBelow
  have hlinked := Chain.isChain_below (R := Chain.Linked (entryView py)) hrise s
  refine and_congr ?_ (hlinked.trans ?_)
  · constructor
    · intro h e he _ hlt
      exact h e (List.mem_filter.2 ⟨he, decide_eq_true hlt⟩)
    · intro h e he
      obtain ⟨he, hlt⟩ := List.mem_filter.1 he
      exact h e he (hin e he) (of_decide_eq_true hlt)
  · refine List.IsChain.iff_of_mem_imp fun a b _ hb => ?_
    exact ⟨fun h _ hlt => h hlt, fun h hlt => h (hin b hb) hlt⟩

/-- The entries of a bundle lie between the first sequence and the last it names. -/
theorem entries_inRange {members : Members} {c : Shape} (hread : readBundle members = .ok c)
    (hrise : Chain.Rising (entryView py) c.entries) :
    ∀ e ∈ c.entries, Chain.InRange (entryView py) 1 c.toSequence e := by
  obtain ⟨-, hentries, hlast, -⟩ := readBundle_ok hread
  intro e he
  refine ⟨entries_positive hentries e he, fun t ht => ?_⟩
  obtain ⟨first, rest, hcons⟩ := List.exists_cons_of_ne_nil (List.ne_nil_of_mem he)
  rw [hlast (List.ne_nil_of_mem he), hcons, List.getLast?_eq_some_getLast (List.cons_ne_nil _ _)]
    at ht
  cases ht
  rw [hcons] at he hrise
  exact Chain.rising_le_last hrise e he

/-- Sound and linked below a sequence in a range, then in any smaller one. -/
theorem below_mono {c : Shape} {lo lo' s s' : ℤ} (hlo : lo' ≤ lo) (hs : s ≤ s')
    (h : Chain.SoundBelow (entryView py) lo' hi c.entries s' ∧
      Chain.LinkedBelow (entryView py) lo' hi c.entries s') :
    Chain.SoundBelow (entryView py) lo hi c.entries s ∧
      Chain.LinkedBelow (entryView py) lo hi c.entries s := by
  have wider : ∀ e, Chain.InRange (entryView py) lo hi e → Chain.InRange (entryView py) lo' hi e :=
    fun e hin => ⟨by have := hin.1; omega, hin.2⟩
  exact ⟨fun e he hin hlt => h.1 e he (wider e hin) (by omega),
    h.2.imp fun a b hab hin hlt => hab (wider b hin) (by omega)⟩

/-- **The trusted part is whole exactly when the faults come in order.** -/
theorem trustedPart_whole_iff {members : Members} {c : Shape} (hread : readBundle members = .ok c)
    (hvalid : ValidRange scope c.fromSequence c.toSequence) (hcount : CountsReadable py c.entries)
    (hscope : ∀ e ∈ c.entries, e.scope = scope) (hrise : Chain.Rising (entryView py) c.entries) :
    Whole py (trustedPart py scope c) ↔ FaultsInOrder py c := by
  have hin := entries_inRange hread hrise
  have hlo : (1 : ℤ) ≤ c.fromSequence := hvalid.2.1
  obtain ⟨hintact, hnamed, hnothing⟩ := trustedPart_rising hvalid hcount hscope hrise
  unfold FaultsInOrder
  rw [← Chain.scan_first_fault hrise]
  cases hname : (Chain.scan (entryView py) c.fromSequence c.toSequence c.entries).names
      (entryView py) with
  | some s =>
    have hge := Chain.scan_names_ge hrise hname
    rw [hnamed s hname, whole_below hrise hin]
    constructor
    · intro h
      refine ⟨fun s' hs' => ?_, below_mono le_rfl hge h⟩
      cases hs'
      exact below_mono hlo le_rfl h
    · rintro ⟨hfirst, hsound, hlinked⟩
      obtain ⟨hsound', hlinked'⟩ := hfirst s rfl
      -- an entry below `s` is before the range or in it
      refine ⟨fun e he hr hlt => ?_, ?_⟩
      · by_cases hbefore : e.sequence < c.fromSequence
        · exact hsound e he hr hbefore
        · exact hsound' e he ⟨not_lt.1 hbefore, hr.2⟩ hlt
      · refine List.isChain_iff_getElem.2 fun i hi hr hlt => ?_
        by_cases hbefore : c.entries[i + 1].sequence < c.fromSequence
        · exact List.isChain_iff_getElem.1 hlinked i hi hr hbefore
        · exact List.isChain_iff_getElem.1 hlinked' i hi ⟨not_lt.1 hbefore, hr.2⟩ hlt
  | none =>
    have hvacuous : Chain.FirstFault (entryView py) c.fromSequence c.toSequence c.entries none :=
      fun s hs => (by cases hs)
    rcases Chain.scan_names_none hrise hname with ⟨hf, hnil⟩ | hf
    · rw [hnothing hf, hnil]
      exact ⟨fun _ => ⟨fun s hs => (by cases hs), fun e he => (by cases he), .nil⟩,
        fun _ => ⟨fun e he => (by cases he), .nil⟩⟩
    · obtain ⟨-, hsound, hlinked⟩ := Chain.scan_intact hrise hf
      rw [hintact hf]
      exact ⟨fun _ => ⟨hvacuous, fun e he _ _ => hsound e he, hlinked.imp fun _ _ h _ _ => h⟩,
        fun _ => ⟨hsound, hlinked⟩⟩

end Contract

namespace Plane

/-- The control plane's verdict names what its scan found. -/
theorem verify_first_fault {py : Interpreter} {entries : List EvidenceEntry} {scope : Str} {lo : ℤ}
    {hi : Option ℤ} {before : List (Str × Str)} {v : Evidence.ChainVerdict}
    (h : verify py entries scope lo hi before = .ok v) :
    Chain.FirstFault (entryView py) lo hi entries v.sequence ↔
      Chain.InOrder (entryView py) lo hi entries := by
  unfold verify at h
  split at h
  · cases h
  split at h
  · cases h
  split at h
  · cases h
  split at h
  · cases h
  split at h
  · cases h
  · rename_i hord
    have hrise : Chain.Rising (entryView py) entries :=
      Contract.outOfOrder_false.1 (Bool.not_eq_true _ ▸ hord)
    cases h
    rw [← Chain.scan_first_fault hrise, ← Contract.report_sequence]
    rfl

end Plane

open Contract (readEntry verifyChain verifyExport readBundle trustedPart isEffect Whole FaultsInOrder)

/-- **The first-fault law, and when it holds.** The contract's and the control plane's verdict
name a sequence below which everything is sound and linked exactly when the faults come in
order; so is the part of an export that is trusted exactly when they do and none lies before
the range, and only effects of that part are re-derived. -/
theorem first_fault (py : Interpreter) :
    (∀ (docs : List Json) (read : List Contract.Entry) (scope : Str) (lo : ℤ) (hi : Option ℤ)
        (lowered : List Str) (v : Evidence.ChainVerdict),
      docs.mapM readEntry = .ok read → (∀ e ∈ read, e.scope = scope) →
      verifyChain py docs scope lo hi lowered = .ok v →
      (Chain.FirstFault (Contract.entryView py) lo hi read v.sequence ↔
        (Chain.Rising (Contract.entryView py) read →
          Chain.InOrder (Contract.entryView py) lo hi read))) ∧
    (∀ (entries : List Plane.EvidenceEntry) (scope : Str) (lo : ℤ)
        (hi : Option ℤ) (before : List (Str × Str)) (v : Evidence.ChainVerdict),
      Plane.verify py entries scope lo hi before = .ok v →
      (Chain.FirstFault (Plane.entryView py) lo hi entries v.sequence ↔
        Chain.InOrder (Plane.entryView py) lo hi entries)) ∧
    (∀ (toml : Plane.TomlLib) (members : Contract.Members) (scope : Str)
        (c : Contract.Shape) (v : Contract.ExportVerdict),
      verifyExport py toml (.obj members) = .ok v → v.chain ≠ none →
      Json.get members "scope" = some (.str scope) → readBundle members = .ok c →
      (Whole py (trustedPart py scope c) ↔
        ((∀ e ∈ c.entries, e.scope = scope) → Chain.Rising (Contract.entryView py) c.entries →
          FaultsInOrder py c)) ∧
      ∀ r ∈ v.rederivations, r.verdict ≠ .unverifiable →
        ∃ e ∈ trustedPart py scope c, isEffect e = true ∧ r.sequence = e.sequence) := by
  refine ⟨?_, ?_, ?_⟩
  · intro docs read scope lo hi lowered v hread hscope h
    exact Contract.verifyChain_first_fault hread hscope h
  · intro entries scope lo hi before v h
    exact Plane.verify_first_fault h
  · intro toml members scope c v h hjudged hscope hread
    rcases Contract.verifyExport_ok h with ⟨named, reason, rfl⟩ |
      ⟨members', scope', b, heq, hscope', -, hopen, hjudge⟩
    · exact absurd rfl hjudged
    cases heq
    rw [hscope] at hscope'
    cases hscope'
    have hshape : c = b.toShape := Except.ok.inj (hread.symm.trans (Contract.openBundle_ok hopen).1)
    subst hshape
    obtain ⟨provisional, -, hprov, -⟩ := Contract.judge_ok hjudge
    obtain ⟨hvalid, hcount, -⟩ := Contract.verifyRead_ok hprov
    refine ⟨⟨fun hwhole hone hrise => ?_, fun horder => ?_⟩, fun r hr hv => ?_⟩
    · exact (Contract.trustedPart_whole_iff hread hvalid hcount hone hrise).1 hwhole
    · by_cases hne : trustedPart py scope b.toShape = []
      · rw [hne]
        exact ⟨fun e he => (by cases he), .nil⟩
      · obtain ⟨-, -, hone, hrise⟩ := Contract.trustedPart_ne hne
        exact (Contract.trustedPart_whole_iff hread hvalid hcount hone hrise).2 (horder hone hrise)
    · exact Contract.rederived_trusted hopen hjudge hr hv

/-! ### At concrete inputs -/

open Contract (Sample.effect Sample.stop Sample.bundle Sample.tomllib)

theorem first_fault_sample :
    (∃ read v, [Sample.effect Evidence.preimageVersion, Sample.stop 3].mapM readEntry = .ok read ∧
      verifyChain reference [Sample.effect Evidence.preimageVersion, Sample.stop 3] (lit "local") 1
        (some 3) [] = .ok v ∧ v.sequence = some 2 ∧
      (Chain.FirstFault (Contract.entryView reference) 1 (some 3) read v.sequence ↔
        (Chain.Rising (Contract.entryView reference) read →
          Chain.InOrder (Contract.entryView reference) 1 (some 3) read))) ∧
    (∃ v, Plane.verify reference [Plane.sampleEntry] (lit "local") 1 (some 2) [] = .ok v ∧
      v.sequence = some 2 ∧
      (Chain.FirstFault (Plane.entryView reference) 1 (some 2) [Plane.sampleEntry] v.sequence ↔
        Chain.InOrder (Plane.entryView reference) 1 (some 2) [Plane.sampleEntry])) ∧
    (∃ c v, readBundle (Sample.bundle Evidence.preimageVersion 2) = .ok c ∧
      verifyExport reference Sample.tomllib (.obj (Sample.bundle Evidence.preimageVersion 2)) =
        .ok v ∧
      v.rederivations.map Contract.EntryRederivation.verdict = [.confirmed] ∧
      ∀ r ∈ v.rederivations, r.verdict ≠ .unverifiable →
        ∃ e ∈ trustedPart reference (lit "local") c, isEffect e = true ∧
          r.sequence = e.sequence) := by
  obtain ⟨hcontract, hplane, hexport⟩ := first_fault reference
  refine ⟨?_, ?_, ?_⟩
  · have hread : (([Sample.effect Evidence.preimageVersion, Sample.stop 3].mapM
        readEntry).toOption.map fun read => read.all (·.scope == lit "local")) = some true := by
      decide +kernel
    have hverdict : ((verifyChain reference [Sample.effect Evidence.preimageVersion, Sample.stop 3]
        (lit "local") 1 (some 3) []).toOption.map Evidence.ChainVerdict.sequence) =
        some (some 2) := by
      rw [reference_blocks]
      decide +kernel
    obtain ⟨read, hr, hscope⟩ := Option.map_eq_some_iff.1 hread
    obtain ⟨v, hv, hseq⟩ := Option.map_eq_some_iff.1 hverdict
    refine ⟨read, v, ok_of_toOption hr, ok_of_toOption hv, hseq, ?_⟩
    exact hcontract _ read _ 1 (some 3) [] v (ok_of_toOption hr)
      (by simpa using hscope) (ok_of_toOption hv)
  · have hverdict : ((Plane.verify reference [Plane.sampleEntry] (lit "local") 1 (some 2)
        []).toOption.map Evidence.ChainVerdict.sequence) = some (some 2) := by
      rw [reference_blocks]
      decide +kernel
    obtain ⟨v, hv, hseq⟩ := Option.map_eq_some_iff.1 hverdict
    exact ⟨v, ok_of_toOption hv, hseq,
      hplane _ _ 1 (some 2) [] v (ok_of_toOption hv)⟩
  · have hread : (readBundle (Sample.bundle Evidence.preimageVersion 2)).toOption.isSome = true := by
      decide +kernel
    have hverdict : ((verifyExport reference Sample.tomllib
        (.obj (Sample.bundle Evidence.preimageVersion 2))).toOption.map fun v =>
        (v.chain.isSome, v.rederivations.map Contract.EntryRederivation.verdict)) =
        some (true, [.confirmed]) := by
      rw [reference_blocks]
      decide +kernel
    obtain ⟨c, hc⟩ := Option.isSome_iff_exists.1 hread
    obtain ⟨v, hv, hboth⟩ := Option.map_eq_some_iff.1 hverdict
    obtain ⟨hchain, hred⟩ := Prod.mk.inj hboth
    have hjudged : v.chain ≠ none := fun hnone => by rw [hnone] at hchain; cases hchain
    exact ⟨c, v, ok_of_toOption hc, ok_of_toOption hv, hred,
      (hexport Sample.tomllib _ (lit "local") c v (ok_of_toOption hv) hjudged rfl
        (ok_of_toOption hc)).2⟩

/-- **The law missed.** An entry of an unknown recipe stands before a missing sequence: both
name the missing one, and the export re-derives the entry. -/
theorem first_fault_missed :
    (∃ read v, [Sample.effect (lit "v0"), Sample.stop 3].mapM readEntry = .ok read ∧
      verifyChain reference [Sample.effect (lit "v0"), Sample.stop 3] (lit "local") 1 (some 3) [] =
        .ok v ∧ v.sequence = some 2 ∧
      ∃ e ∈ read, e.sequence = 1 ∧ ¬ Chain.Sound (Contract.entryView reference) e) ∧
    (∃ v, verifyExport reference Sample.tomllib (.obj (Sample.bundle (lit "v0") 3)) = .ok v ∧
      v.rederivations.map (fun r => (r.sequence, r.verdict)) = [(1, .confirmed)]) := by
  constructor
  · have hread : (([Sample.effect (lit "v0"), Sample.stop 3].mapM readEntry).toOption.map
        fun read => read.any fun e => e.sequence == 1 && e.preimageVersion == lit "v0") =
        some true := by decide +kernel
    have hverdict : ((verifyChain reference [Sample.effect (lit "v0"), Sample.stop 3] (lit "local")
        1 (some 3) []).toOption.map Evidence.ChainVerdict.sequence) = some (some 2) := by
      rw [reference_blocks]
      decide +kernel
    obtain ⟨read, hr, hany⟩ := Option.map_eq_some_iff.1 hread
    obtain ⟨v, hv, hseq⟩ := Option.map_eq_some_iff.1 hverdict
    refine ⟨read, v, ok_of_toOption hr, ok_of_toOption hv, hseq, ?_⟩
    obtain ⟨e, he, hboth⟩ := List.any_eq_true.1 hany
    rw [Bool.and_eq_true, beq_iff_eq, beq_iff_eq] at hboth
    refine ⟨e, he, hboth.1, fun hsound => ?_⟩
    have hknown : (e.preimageVersion == Evidence.preimageVersion) = true := hsound.1
    rw [hboth.2] at hknown
    exact absurd hknown (by decide +kernel)
  · have hverdict : ((verifyExport reference Sample.tomllib
        (.obj (Sample.bundle (lit "v0") 3))).toOption.map fun v =>
        v.rederivations.map fun r => (r.sequence, r.verdict)) = some [(1, .confirmed)] := by
      rw [reference_blocks]
      decide +kernel
    obtain ⟨v, hv, hred⟩ := Option.map_eq_some_iff.1 hverdict
    exact ⟨v, ok_of_toOption hv, hred⟩

end SayFirst
