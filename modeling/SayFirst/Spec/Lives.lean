import SayFirst.Lib.Run
import SayFirst.Spec.Recovery

/-!
# The lives of a daemon over one scope

What is kept of a scope from life to life, and what happens to it: a start, the first event
that opens its epoch, decisions committed and entries recorded, a close in its two changes,
and a crash. A call that stops ends its life; a crash ends one between two calls.
-/

namespace SayFirst.Plane

open Py Evidence

/-- A life: its writer, whether it has opened its epoch, and the marker `close_clean` has come
to. -/
structure Life (scope : Str) where
  writer : RecoveryWriter scope
  opened : Bool
  closing : Option (Option EvidenceEntry)

structure Lives (scope : Str) where
  root : Root scope
  authority : Authority
  life : Option (Life scope)
  /-- The epochs of the lives so far. -/
  used : List Str

inductive LifeEvent (scope : Str) where
  /-- A start: of the scope the composition writes to or another, with an authority that can be
  read or not. -/
  | start (w : RecoveryWriter scope) (composition readable : Bool) (stops : List Stop)
  /-- `before_first_event` -/
  | opens (stops : List Stop)
  | commit (e : Envelope)
  | record (now : Option Civil) (r : RecordOf scope) (stops : List Stop)
  /-- `close`, to the marker; whether the emitter drained. -/
  | closeMark (drained : Bool) (stops : List Stop)
  /-- `close`, from the marker. -/
  | closeJournal (stops : List Stop)
  | crash

variable {scope : Str}

/-- A decision is committed at the next position, under a reference of its own. -/
def Authority.commit (a : Authority) (e : Envelope) : Option Authority :=
  if h : e.storeId = a.storeId ∧ e.position = a.envelopes.length + 1 ∧
      e.ref ∉ a.envelopes.map Envelope.ref then
    some { a with
      envelopes := a.envelopes ++ [e]
      store_eq := by
        intro e' he'
        rcases List.mem_append.1 he' with he' | he'
        · exact a.store_eq e' he'
        · rw [List.mem_singleton.1 he']
          exact h.1
      positions := by
        rw [List.map_append, a.positions, List.length_append, List.length_singleton,
          List.range_succ, List.map_append]
        simp [h.2.1]
      refs_nodup := by
        rw [List.map_append]
        refine List.nodup_append.2 ⟨a.refs_nodup, List.nodup_singleton _, ?_⟩
        intro ref href ref' href' heq
        exact h.2.2 (List.mem_singleton.1 href' ▸ heq ▸ href) }
  else none

namespace Lives

/-- No evidence, no journal and no life; what the authority holds. -/
def init (scope : Str) (authority : Authority) : Lives scope where
  root := ⟨⟨⟨[], false⟩, []⟩, some authority, [], 0, 0, 0⟩
  authority := authority
  life := none
  used := []

/-- What a call begins on. -/
def begins (s : Lives scope) (readable : Bool) (stops : List Stop) : Root scope :=
  { s.root with
    disk := ⟨s.root.disk.file, stops⟩
    authority := if readable then some s.authority else none }

def step (s : Lives scope) : LifeEvent scope → Option (Lives scope)
  | .start w composition readable stops =>
    if s.life.isSome || s.used.contains w.recordingEpoch then none
    else
      let used := w.recordingEpoch :: s.used
      match w.recoverAndOpen composition (s.begins readable stops) with
      | .ok opened root => some { s with root, used, life := some ⟨w, opened, none⟩ }
      | .error _ root => some { s with root, used, life := none }
  | .opens stops =>
    match s.life with
    | some ⟨w, false, none⟩ =>
      match w.openEpoch (s.begins true stops) with
      | .ok _ root => some { s with root, life := some ⟨w, true, none⟩ }
      | .error _ root => some { s with root, life := none }
    | _ => none
  | .commit e =>
    if s.life.isSome then (s.authority.commit e).map fun authority => { s with authority }
    else none
  | .record now r stops =>
    match s.life with
    | some ⟨w, true, none⟩ =>
      -- markers and unflushed gaps are the writer's
      if writtenByRecovery r.1.toEvidenceFields then none
      else
        match ChainFile.append w.py now r ⟨s.root.disk.file, stops⟩ with
        | .ok _ disk => some { s with root := { s.root with disk } }
        | .error _ disk => some { s with root := { s.root with disk } }
    | _ => none
  | .closeMark drained stops =>
    match s.life with
    | some ⟨w, opened, none⟩ =>
      if opened && drained then
        match w.closeMark (s.begins true stops) with
        | .ok (some marker) root => some { s with root, life := some ⟨w, opened, some marker⟩ }
        | .ok none root => some { s with root, life := none }
        | .error _ root => some { s with root, life := none }
      else some { s with life := none }
    | _ => none
  | .closeJournal stops =>
    match s.life with
    | some ⟨w, _, some marker⟩ =>
      match w.closeJournal marker (s.begins true stops) with
      | .ok _ root => some { s with root, life := none }
      | .error _ root => some { s with root, life := none }
    | _ => none
  | .crash => if s.life.isSome then some { s with life := none } else none

end Lives

end SayFirst.Plane
