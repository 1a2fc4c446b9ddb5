import SayFirst.Proof.Boundary

/-!
# What an ended grant answers

* `told_after` — a reader knows what it has read, whatever arrives.
* `named_stays_ended` — an ending that gives a reason is final.
* `ended_stays_ended_iff` — the runs of a reader in which no ended grant is live.
-/

namespace SayFirst.Boundary

open Py
open SayFirst.Client (ClientHost Grant Members)
open SayFirst.Plane (DecisionAsk)

/-- What reaches a reader: a frame of its channel, or the end of it. -/
inductive Arrival where
  | frame (document : Members)
  | ended

section

variable (py : ClientHost) (fromIso : FromIso)

def SignalReader.arrive (r : SignalReader) : Arrival → SignalReader
  | .frame document => r.frame py fromIso document
  | .ended => r.lost

/-- The reader behind a run of arrivals. -/
def SignalReader.after (r : SignalReader) (arrivals : List Arrival) : SignalReader :=
  arrivals.foldl (SignalReader.arrive py fromIso) r

/-- Some signal has ended the grant. -/
def SignalReader.Ended (r : SignalReader) : Prop := ∃ signal ∈ r.read, signal.ends

/-- The grant is not live once a signal has ended it, whatever is asked and whenever. -/
def StaysEnded (r : SignalReader) : Prop :=
  r.Ended → ∀ ask principal now, ending fromIso r.toHeld ask principal now ≠ .ok .live

/-- The grant was ended, and each time without a reason. -/
def SignalReader.EndedUnnamed (r : SignalReader) : Prop :=
  r.Ended ∧ ∀ signal ∈ r.read, signal.ends → signal.reason = none

end

variable {py : ClientHost} {fromIso : FromIso} {r : SignalReader}

theorem Told.arrive (h : Told r) (arrival : Arrival) : Told (r.arrive py fromIso arrival) := by
  cases arrival with
  | frame document => exact h.frame document
  | ended => exact h.lost

theorem told_after (h : Told r) (arrivals : List Arrival) : Told (r.after py fromIso arrivals) := by
  induction arrivals generalizing r with
  | nil => exact h
  | cons arrival arrivals ih => exact ih (h.arrive arrival)

/-- Every question is the question of some ask. -/
theorem question_surjective (conditions : Client.GrantConditions) :
    ∃ ask principal, conditions = question ask principal :=
  ⟨⟨conditions.capability, conditions.scope, conditions.argumentsDigest, none⟩,
    conditions.principalReference, rfl⟩

/-- A grant answers somebody that it is live exactly when no reason has ended it and the plane's
state of it is live. -/
theorem live_for_some_iff {now : ℤ} :
    (∃ ask principal, ending fromIso r.toHeld ask principal now = .ok .live) ↔
      r.endedBy = none ∧ PlaneLive fromIso r.toHeld now := by
  constructor
  · rintro ⟨ask, principal, hlive⟩
    obtain ⟨hended, -, hplane⟩ := ending_live_iff.1 hlive
    exact ⟨hended, hplane⟩
  · rintro ⟨hended, hplane⟩
    obtain ⟨ask, principal, hquestion⟩ := question_surjective r.grant.conditions
    exact ⟨ask, principal, ending_live_iff.2 ⟨hended, hquestion, hplane⟩⟩

/-- An ending that gives a reason is final. -/
theorem named_stays_ended (h : Told r) {signal : GrantSignal} (hmem : signal ∈ r.read)
    (hends : signal.ends) (hreason : signal.reason ≠ none) : StaysEnded fromIso r := by
  intro _ ask principal now hlive
  obtain ⟨hended, -, hplane⟩ := ending_live_iff.1 hlive
  exact hreason (h.unended hended hplane.connectionLive signal hmem hends)

theorem staysEnded_iff (h : Told r) :
    StaysEnded fromIso r ↔ (r.EndedUnnamed → ∀ now, ¬PlaneLive fromIso r.toHeld now) := by
  constructor
  · rintro hstays ⟨hended, hunnamed⟩ now hplane
    have hnone : r.endedBy = none := by
      cases hreason : r.endedBy with
      | none => rfl
      | some reason =>
        obtain ⟨signal, hmem, hends, hgiven⟩ := h.ended reason hreason
        exact absurd (hgiven.symm.trans (hunnamed signal hmem hends)) (by simp)
    obtain ⟨ask, principal, hlive⟩ := live_for_some_iff.2 ⟨hnone, hplane⟩
    exact hstays hended ask principal now hlive
  · intro hspent hended ask principal now hlive
    by_cases hunnamed : ∀ signal ∈ r.read, signal.ends → signal.reason = none
    · exact hspent ⟨hended, hunnamed⟩ now (ending_live_iff.1 hlive).2.2
    · push Not at hunnamed
      obtain ⟨signal, hmem, hends, hreason⟩ := hunnamed
      exact named_stays_ended h hmem hends hreason hended ask principal now hlive

/-- **In a run of a reader an ended grant is never live again exactly when, wherever no
`grant_ended` gave a reason, the plane's state of the grant is not live at any reading of the
clock.** -/
theorem ended_stays_ended_iff (py : ClientHost) (fromIso : FromIso) (number : ℕ) (grant : Grant)
    (r : SignalReader) (hmade : SignalReader.made fromIso number grant = some r)
    (arrivals : List Arrival) :
    (∀ before, before <+: arrivals → StaysEnded fromIso (r.after py fromIso before)) ↔
      ∀ before, before <+: arrivals → (r.after py fromIso before).EndedUnnamed →
        ∀ now, ¬PlaneLive fromIso (r.after py fromIso before).toHeld now := by
  have htold := told_made hmade
  exact forall_congr' fun before => imp_congr_right fun _ => staysEnded_iff (told_after htold before)

/-- The reader of the sample grant. -/
def sampleReader : SignalReader where
  grant := sampleGrant
  lastHeardAt := some 1767607200000000
  connectionLive := true
  endedBy := none
  number := 0
  read := []

/-- An ending with a reason, and a heartbeat behind it. -/
def sampleArrivals : List Arrival :=
  [.frame (sampleFrame "grant_ended" [(lit "reason", .str (lit "expired"))]),
    .frame (sampleFrame "heartbeat" [])]

theorem ended_stays_ended_iff_sample :
    (∀ before, before <+: sampleArrivals →
      StaysEnded morning (sampleReader.after Client.plainHost morning before)) ↔
    ∀ before, before <+: sampleArrivals →
      (sampleReader.after Client.plainHost morning before).EndedUnnamed →
        ∀ now, ¬PlaneLive morning
          (sampleReader.after Client.plainHost morning before).toHeld now :=
  ended_stays_ended_iff Client.plainHost morning 0 sampleGrant sampleReader rfl sampleArrivals

/-- A `grant_ended` without a reason, and the grant is live a second later. -/
theorem unnamed_ending_stays_live : ¬∀ before, before <+: [Arrival.frame (sampleFrame "grant_ended" [])] →
    StaysEnded morning (sampleReader.after Client.plainHost morning before) := by
  intro hstays
  have hended : (sampleReader.after Client.plainHost morning
      [.frame (sampleFrame "grant_ended" [])]).Ended :=
    ⟨⟨.grantEnded, lit "g-1", lit "sha256:a", lit "2026-01-05T10:00:05Z", none, 1⟩,
      List.mem_singleton.2 rfl, rfl⟩
  exact hstays _ List.prefix_rfl hended sampleAsk (lit "user:build") 1767607206000000 (by rfl)

end SayFirst.Boundary
