import SayFirst.Spec.Boundary

/-!
# The store among threads (`boundary/cache.py`)

Each section under the lock of the store is one step; `close` closes the readers it took outside the
lock, one by one, so sections of other threads run between them. Closing a reader marks it lost and
gives its channel up; it does not raise.

* `GrantStore.displaced`, `GrantStore.givenUp` — the readers `put` and `take` close.
* `Shared` — the store, every reader that was put, and every reader that was closed.
-/

namespace SayFirst.Boundary

open Py
open SayFirst.Client (ClientHost GrantConditions Members)
open SayFirst.Plane (DecisionAsk)

variable (py : ClientHost) (fromIso : FromIso)

namespace GrantStore

/-- The reader a `put` displaces: another one for the same conditions. -/
def displaced (store : GrantStore) (reader : SignalReader) : Option SignalReader :=
  (store.lookup reader.grant.conditions).filter (·.number ≠ reader.number)

/-- The reader a `take` gives up: one whose grant has ended. -/
def givenUp (store : GrantStore) (ask : DecisionAsk) (principalReference : Str) (now : ℤ) :
    Option SignalReader :=
  match store.lookup (question ask principalReference) with
  | none => none
  | some reader =>
    match ending fromIso reader.toHeld ask principalReference now with
    | .ok .live => none
    | .ok _ => some reader
    | .error _ => none

end GrantStore

structure Shared where
  store : GrantStore
  /-- The readers that were put. -/
  put : List SignalReader
  /-- The numbers of the readers that were closed. -/
  closed : List ℕ
  /-- The calls of `close` that have not returned, each with the readers it still has to close. -/
  closing : List (List SignalReader)

inductive Section where
  | put (reader : SignalReader)
  | take (ask : DecisionAsk) (principalReference : Str) (now : ℤ)
  /-- The section of a `close`. -/
  | close
  /-- A call of `close` goes on: it closes its next reader, or returns. -/
  | closes (call : ℕ)
  /-- A frame of the channel of a reader. -/
  | frame (reader : ℕ) (document : Members)
  | channelEnded (reader : ℕ)

namespace Shared

def begin : Shared := ⟨[], [], [], []⟩

/-- `reader.close()` -/
def shut (s : Shared) (reader : SignalReader) : Shared :=
  { s with store := s.store.heard reader.number SignalReader.lost, closed := reader.number :: s.closed }

/-- What a section closes. -/
def shutting (s : Shared) : Option SignalReader → Shared
  | none => s
  | some reader => s.shut reader

def section_ (s : Shared) : Section → Shared
  | .put reader =>
    let s' := s.shutting (s.store.displaced reader)
    { s' with store := s'.store.put reader, put := reader :: s'.put }
  | .take ask principalReference now =>
    let givenUp := s.store.givenUp fromIso ask principalReference now
    Shared.shutting { s with store := (s.store.take fromIso ask principalReference now).2 } givenUp
  | .close => { s with store := [], closing := s.closing ++ [s.store.map Prod.snd] }
  | .closes call =>
    match s.closing[call]? with
    | none => s
    | some [] => { s with closing := s.closing.eraseIdx call }
    | some (reader :: rest) => Shared.shut { s with closing := s.closing.set call rest } reader
  | .frame reader document =>
    { s with store := s.store.heard reader (SignalReader.frame py fromIso document) }
  | .channelEnded reader => { s with store := s.store.heard reader SignalReader.lost }

/-- What is shared behind the sections. -/
def after (s : Shared) (sections : List Section) : Shared :=
  sections.foldl (section_ py fromIso) s

end Shared

end SayFirst.Boundary
