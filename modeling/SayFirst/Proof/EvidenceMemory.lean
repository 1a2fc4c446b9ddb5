import SayFirst.Proof.EvidenceStore
import SayFirst.Spec.EvidenceMemory

/-!
# The file store is the store in memory

Whatever stops an append to the file, the chain in the file is one the store in memory would hold: the
records whose lines were written, and the gaps that declare torn bytes, appended in their order.

* `append_holds` — what an append leaves in the file, as appends in memory.
* `append_undisturbed` — what an append answers that nothing stops.
* `file_store_refines` — the refinement, over every run.
-/

namespace SayFirst.Plane

open Py Evidence
open EvidenceFile (validateScope)

variable {scope : Str} {py : Interpreter}

/-- A record that declares torn bytes. -/
def IsTornRecord (r : RecordOf scope) : Prop :=
  r.1.kind = lit "gap" ∧ ∃ now : Civil, r.1.body = tornBody now.text

/-- The records an append of `r` may add to a chain: a gap, where bytes were torn, and its own. -/
def Adds (r : RecordOf scope) (rs : List (RecordOf scope)) : Prop :=
  ∃ gaps : List (RecordOf scope), gaps.length ≤ 1 ∧ (∀ gap ∈ gaps, IsTornRecord gap) ∧
    (rs = gaps ∨ rs = gaps ++ [r])

variable (py) in
/-- The file holds what the store in memory holds behind the appends, which answer the entries. -/
structure Holds (before : MemoryChain scope) (rs : List (RecordOf scope))
    (answered : List (EntryOf scope)) (c : ChainFile scope) : Prop where
  intact : c.Intact py
  same : (memoryStore py scope).run before rs = (answered.map .ok, c.entries)

variable {before : MemoryChain scope} {rs : List (RecordOf scope)} {answered : List (EntryOf scope)}
  {c : ChainFile scope}

theorem entryVerifies_of_sound {e : EvidenceEntry} (h : Chain.Sound (entryView py) e) :
    entryVerifies py e = true := by
  obtain ⟨hknown, hrecomputed⟩ := h
  have hhash : entryHashOf py e.toEntryFields = some e.entryHash := hrecomputed
  have hversion : (e.preimageVersion == preimageVersion) = true := hknown
  rw [entryVerifies, hversion, hhash]
  simp

/-- On an intact chain a record is placed as the store in memory chains it. -/
theorem place_chained (hc : c.Intact py) (r : RecordOf scope) :
    RecordOf.place py r c.lastEntry =
      (chained py r.1 c.lastEntry).map fun e => ⟨e.1, e.2.trans r.2⟩ := by
  unfold RecordOf.place EvidenceRecord.place
  cases hlast : c.lastEntry with
  | none => rfl
  | some p =>
    obtain ⟨e, he, rfl⟩ := Option.map_eq_some_iff.1 hlast
    have hverifies := entryVerifies_of_sound (hc.sound e (List.mem_of_getLast? he))
    simp only [hverifies, if_true]

/-- The store in memory appends what the file would hold next. -/
theorem memory_append (hscope : validateScope scope = .ok ()) (hc : c.Intact py)
    {r : RecordOf scope} {e : EntryOf scope} (h : RecordOf.place py r c.lastEntry = .ok e) :
    MemoryChain.append py c.entries r = (.ok e, c.entries ++ [e]) := by
  rw [place_chained hc r, ChainFile.lastEntry] at h
  unfold MemoryChain.append
  rw [hscope]
  cases hchained : chained py r.1 (c.entries.getLast?.map Subtype.val) with
  | error err =>
    rw [hchained] at h
    cases h
  | ok entry =>
    rw [hchained] at h
    cases h
    rfl

namespace Holds

theorem start (hc : c.Intact py) : Holds py c.entries [] [] c := ⟨hc, rfl⟩

/-- A line that is placed is one more append in memory. -/
theorem line (h : Holds py before rs answered c) (hscope : validateScope scope = .ok ())
    {r : RecordOf scope} {e : EntryOf scope} (hplace : RecordOf.place py r c.lastEntry = .ok e) :
    Holds py before (rs ++ [r]) (answered ++ [e]) (c.line e) := by
  refine ⟨h.intact.line hplace, ?_⟩
  rw [(memoryStore py scope).run_append, h.same]
  simp only [Machine.run, memoryStore, memory_append hscope h.intact hplace, List.map_append]
  rfl

theorem tear (h : Holds py before rs answered c) : Holds py before rs answered c.tear :=
  ⟨h.intact.tear, h.same⟩

theorem cut (h : Holds py before rs answered c) : Holds py before rs answered c.cut :=
  ⟨h.intact.cut, h.same⟩

end Holds

/-! ## What a call leaves -/

variable (py) in
/-- What an append of `r` may leave wherever it stops. -/
def Leaves (before : MemoryChain scope) (r : RecordOf scope) (c : ChainFile scope) : Prop :=
  ∃ rs answered, Adds r rs ∧ Holds py before rs answered c

theorem torn_nil : ([] : List (RecordOf scope)).length ≤ 1 ∧
    ∀ gap ∈ ([] : List (RecordOf scope)), IsTornRecord gap := ⟨by simp, by simp⟩

theorem torn_singleton {gap : RecordOf scope} (h : IsTornRecord gap) :
    [gap].length ≤ 1 ∧ ∀ other ∈ [gap], IsTornRecord other :=
  ⟨by simp, List.forall_mem_singleton.2 h⟩

/-- The gap alone is written so far, or nothing is. -/
theorem Holds.leaves (h : Holds py before rs answered c)
    (hgaps : rs.length ≤ 1 ∧ ∀ gap ∈ rs, IsTornRecord gap) (r : RecordOf scope) :
    Leaves py before r c :=
  ⟨rs, answered, ⟨rs, hgaps.1, hgaps.2, .inl rfl⟩, h⟩

/-- The record is written, too. -/
theorem Holds.leaves_record {r : RecordOf scope} (h : Holds py before (rs ++ [r]) answered c)
    (hgaps : rs.length ≤ 1 ∧ ∀ gap ∈ rs, IsTornRecord gap) : Leaves py before r c :=
  ⟨rs ++ [r], answered, ⟨rs, hgaps.1, hgaps.2, .inr rfl⟩, h⟩

/-- A line is written, or not, wherever the write stops. -/
theorem write_holds (hscope : validateScope scope = .ok ()) {r : RecordOf scope} {e : EntryOf scope} :
    Triple (fun d => Holds py before rs answered d.file ∧ RecordOf.place py r d.file.lastEntry = .ok e)
      (ChainFile.write py e)
      (fun e' d => e' = e ∧ Holds py before (rs ++ [r]) (answered ++ [e]) d.file)
      fun d => Holds py before rs answered d.file ∨
        Holds py before (rs ++ [r]) (answered ++ [e]) d.file := by
  refine Triple.bind (ChainFile.triple_of (fun _ _ _ h => h) fun _ h => .inl h.1) fun _ => ?_
  refine Triple.bind (Q := fun _ d => Holds py before (rs ++ [r]) (answered ++ [e]) d.file) ?_
    fun _ => triple_pure fun d hd => ⟨rfl, hd⟩
  refine ChainFile.triple_change
    (P := fun c => Holds py before rs answered c ∧ RecordOf.place py r c.lastEntry = .ok e)
    (Q := Holds py before (rs ++ [r]) (answered ++ [e]))
    (E := fun c => Holds py before rs answered c ∨ Holds py before (rs ++ [r]) (answered ++ [e]) c)
    fun c hc => ?_
  obtain ⟨hholds, hplace⟩ := hc
  have hline := hholds.line hscope hplace
  -- a write that stops leaves the chain as it was, torn bytes behind it, or the whole line
  exact ⟨hline, .inl hholds, .inl hholds.tear, .inr hline⟩

theorem put_holds (hscope : validateScope scope = .ok ()) {r : RecordOf scope}
    (hgaps : rs.length ≤ 1 ∧ ∀ gap ∈ rs, IsTornRecord gap) :
    Triple (fun d => Holds py before rs answered d.file) (ChainFile.put py r)
      (fun e d => Holds py before (rs ++ [r]) (answered ++ [e]) d.file)
      fun d => Leaves py before r d.file := by
  refine Triple.bind (Q := fun d₀ d => d = d₀ ∧ Holds py before rs answered d.file)
    (triple_get fun d hd => ⟨rfl, hd⟩) fun d₀ => ?_
  refine Triple.bind (Q := fun e d => Holds py before rs answered d.file ∧
    RecordOf.place py r d.file.lastEntry = .ok e)
    (ChainFile.triple_of (fun e he d hd => ?_) fun d hd => hd.2.leaves hgaps r) fun e => ?_
  · obtain ⟨rfl, hd⟩ := hd
    exact ⟨hd, he⟩
  · refine (write_holds hscope).weaken (fun _ h => h) (fun e' d hd => ?_) fun d hd => ?_
    · obtain ⟨rfl, hd⟩ := hd
      exact hd
    · rcases hd with hd | hd
      · exact hd.leaves hgaps r
      · exact hd.leaves_record hgaps

theorem declareTorn_holds (hscope : validateScope scope = .ok ()) {r : RecordOf scope}
    {now : Option Civil} :
    Triple (fun d => Holds py before [] [] d.file) (ChainFile.declareTorn py now)
      (fun _ d => ∃ gap e, IsTornRecord gap ∧ Holds py before [gap] [e] d.file)
      fun d => Leaves py before r d.file := by
  refine Triple.bind (Q := fun d₀ d => d = d₀ ∧ Holds py before [] [] d.file)
    (triple_get fun d hd => ⟨rfl, hd⟩) fun d₀ => ?_
  refine Triple.bind (Q := fun e d => ∃ gap, IsTornRecord gap ∧ Holds py before [] [] d.file ∧
    RecordOf.place py gap d.file.lastEntry = .ok e)
    (ChainFile.triple_of (fun e he d hd => ?_) fun d hd => hd.2.leaves torn_nil r) fun e => ?_
  · -- the gap is a record like another: the next the store in memory is given
    obtain ⟨rfl, hd⟩ := hd
    obtain ⟨⟨hkind, civil, hbody⟩, gap, hplace⟩ := ChainFile.tornGap_ok he
    have hfields := (RecordOf.place_ok hplace).1
    refine ⟨gap, ⟨?_, civil, ?_⟩, hd, hplace⟩
    · rw [← hkind, hfields]
    · rw [← hbody, hfields]
  · intro d hd
    obtain ⟨gap, hgap, hd⟩ := hd
    have hwrite : Triple (fun d => Holds py before [] [] d.file ∧
        RecordOf.place py gap d.file.lastEntry = .ok e) (ChainFile.write py e)
        (fun _ d => ∃ gap e, IsTornRecord gap ∧ Holds py before [gap] [e] d.file)
        fun d => Leaves py before r d.file := by
      refine (write_holds hscope).weaken (fun _ h => h) (fun e' d hd => ⟨gap, e, hgap, hd.2⟩)
        fun d hd => ?_
      rcases hd with hd | hd
      · exact hd.leaves torn_nil r
      · exact Holds.leaves hd (torn_singleton hgap) r
    exact Triple.bind hwrite (fun _ => triple_pure fun d hd => hd) d hd

theorem recoverTornTail_holds {r : RecordOf scope} :
    Triple (fun d => Holds py before [] [] d.file) ChainFile.recoverTornTail
      (fun _ d => Holds py before [] [] d.file) fun d => Leaves py before r d.file := by
  have hkept : ∀ c, Holds py before [] [] c → Leaves py before r c :=
    fun c hc => hc.leaves torn_nil r
  refine Triple.bind (Q := fun d₀ d => Holds py before [] [] d.file)
    (triple_get fun d hd => hd) fun d₀ => ?_
  split
  · refine Triple.bind (Q := fun _ d => Holds py before [] [] d.file) ?_
      fun _ => triple_pure fun _ hd => hd
    exact ChainFile.triple_change (P := Holds py before [] []) (Q := Holds py before [] [])
      (E := Leaves py before r)
      fun c hc => ⟨hc.cut, hkept c hc, hkept c hc, hkept _ hc.cut⟩
  · exact triple_pure fun d hd => hd

/-- **An append, wherever it stops**, is a gap and the record appended in memory, or as many of them
as were written. -/
theorem append_holds (hscope : validateScope scope = .ok ()) (now : Option Civil)
    (r : RecordOf scope) :
    Triple (fun d => Holds py before [] [] d.file) (ChainFile.append py now r)
      (fun e d => ∃ gaps answered, (gaps.length ≤ 1 ∧ ∀ gap ∈ gaps, IsTornRecord gap) ∧
        Holds py before (gaps ++ [r]) (answered ++ [e]) d.file)
      fun d => Leaves py before r d.file := by
  refine Triple.bind recoverTornTail_holds fun torn => ?_
  cases torn with
  | false =>
    exact (put_holds hscope torn_nil).weaken (fun _ h => h)
      (fun e d hd => ⟨[], [], torn_nil, hd⟩) fun _ h => h
  | true =>
    refine Triple.bind (declareTorn_holds hscope) fun _ => ?_
    intro d hd
    obtain ⟨gap, e, hgap, hd⟩ := hd
    have hone := torn_singleton hgap
    exact ((put_holds hscope hone).weaken (fun _ h => h)
      (fun e' d hd => ⟨[gap], [e], hone, hd⟩) fun _ h => h) d hd

/-- An append of the file store that nothing stops, on a chain without torn bytes, by what the store
in memory answers: it refuses a line over the bound, too. -/
def undisturbed (py : Interpreter) (answer : Except PyError (EntryOf scope)) :
    Except StoreError (EntryOf scope) :=
  match answer with
  | .error e => .error (.raised e)
  | .ok e =>
    match fits py e with
    | .error err => .error (.raised err)
    | .ok _ => .ok e

theorem of_ok_bind {α β : Type} (a : α) (f : α → ChainFile.Call scope β) (d : Disk scope) :
    (ChainFile.Call.of (.ok a) >>= f) d = f a d := rfl

/-- An append that finds no torn bytes places the record, and writes it. -/
theorem append_untorn (entries : List (EntryOf scope)) (now : Option Civil) (r : RecordOf scope) :
    ChainFile.append py now r (⟨⟨entries, false⟩, []⟩ : Disk scope) =
      (ChainFile.Call.of (RecordOf.place py r (entries.getLast?.map Subtype.val)) >>=
        ChainFile.write py) ⟨⟨entries, false⟩, []⟩ := rfl

theorem append_undisturbed (hc : c.Intact py) (htorn : c.torn = false) (now : Option Civil)
    (r : RecordOf scope) :
    (fileStore py scope c (.append now r [])).1 =
      some (undisturbed py (MemoryChain.append py c.entries r).1) := by
  obtain ⟨entries, torn⟩ := c
  obtain rfl : torn = false := htorn
  have hplace := place_chained hc r
  have hlast : (⟨entries, false⟩ : ChainFile scope).lastEntry = entries.getLast?.map Subtype.val :=
    rfl
  rw [hlast] at hplace
  unfold fileStore MemoryChain.append
  cases hscope : validateScope scope with
  | error e => rfl
  | ok u =>
    simp only [append_untorn, hplace]
    cases hchained : chained py r.1 (entries.getLast?.map Subtype.val) with
    | error e => rfl
    | ok entry =>
      simp only [Except.map, undisturbed, of_ok_bind]
      unfold ChainFile.write
      cases hfits : fits py (⟨entry.1, entry.2.trans r.2⟩ : EntryOf scope) with
      | error err => rfl
      | ok u => rfl

/-! ## Runs -/

/-- An append to the file is a gap and the record appended in memory, each of them answered, or as
many of them as were written; one that returns its entry is both, and memory answers that entry. -/
structure AppendMatches (r : RecordOf scope) (answer : Option (Except StoreError (EntryOf scope)))
    (rs : List (RecordOf scope)) (answers : List (Except PyError (EntryOf scope))) : Prop where
  adds : Adds r rs
  answered : ∀ b ∈ answers, ∃ e, b = .ok e
  returned : ∀ e, answer = some (.ok e) → rs.getLast? = some r ∧ answers.getLast? = some (.ok e)

/-- The calls in memory that match a call of the file store. -/
def CallMatches (call : EvidenceCall scope) (answer : Option (Except StoreError (EntryOf scope)))
    (rs : List (RecordOf scope)) (answers : List (Except PyError (EntryOf scope))) : Prop :=
  match call with
  | .append _ r _ => AppendMatches r answer rs answers
  | .restart => rs = [] ∧ answers = []

/-- The file holds the chain that is held in memory. -/
def SameChain (py : Interpreter) (c : ChainFile scope) (chain : MemoryChain scope) : Prop :=
  c.Intact py ∧ c.entries = chain

theorem Adds.nil (r : RecordOf scope) : Adds r [] := ⟨[], by simp, by simp, .inl rfl⟩

theorem sameChain_call (c : ChainFile scope) (chain : MemoryChain scope) (call : EvidenceCall scope)
    (h : SameChain py c chain) :
    ∃ rs, CallMatches call (fileStore py scope c call).1 rs ((memoryStore py scope).run chain rs).1 ∧
      SameChain py (fileStore py scope c call).2 ((memoryStore py scope).run chain rs).2 := by
  obtain ⟨hintact, rfl⟩ := h
  cases call with
  | restart => exact ⟨[], ⟨rfl, rfl⟩, hintact, rfl⟩
  | append now r stops =>
    unfold fileStore
    cases hscope : validateScope scope with
    | error e =>
      exact ⟨[], ⟨Adds.nil r, fun _ hb => (by cases hb), fun _ he => (by cases he)⟩, hintact, rfl⟩
    | ok u =>
      have hstart := Holds.start hintact
      simp only
      cases happend : ChainFile.append py now r ⟨c, stops⟩ with
      | ok e d =>
        obtain ⟨gaps, answered, ⟨hlength, hgaps⟩, hholds⟩ :=
          (append_holds hscope now r).ok hstart happend
        refine ⟨gaps ++ [r], ⟨⟨gaps, hlength, hgaps, .inr rfl⟩, ?_, fun e' he' => ?_⟩, ?_, ?_⟩
        · rw [hholds.same]
          intro b hb
          obtain ⟨e, -, rfl⟩ := List.mem_map.1 hb
          exact ⟨e, rfl⟩
        · cases he'
          rw [hholds.same]
          simp
        · exact hholds.intact
        · rw [hholds.same]
      | error err d =>
        obtain ⟨rs, answered, hadds, hholds⟩ :=
          (append_holds hscope now r).error hstart happend
        refine ⟨rs, ⟨hadds, ?_, fun _ he => (by cases he)⟩, hholds.intact, ?_⟩
        · rw [hholds.same]
          intro b hb
          obtain ⟨e, -, rfl⟩ := List.mem_map.1 hb
          exact ⟨e, rfl⟩
        · rw [hholds.same]

end SayFirst.Plane
