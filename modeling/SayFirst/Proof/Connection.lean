import SayFirst.Spec.Connection

/-!
# The identity behind a decision

A request is checked once, before its body is read; what it asks is asked under the
identity that check left.

* `Answered` — the consultation an ask rests on.
* `request_current` — every request leaves an identity that is accounted for.
* `identity_fresh` — no ask rests on an outage, on a refusal or on an identity whose
  lifetime was over when the request was checked.
* `decided_late` — the lifetime can be over when the decision is taken.
-/

namespace SayFirst.Plane

open Py

variable {d : DaemonSettings} {peer : Option PeerCredential} {i : ConnectionIdentity} {now : ℤ}
  {lookup : Lookup}

/-! ## One consultation -/

theorem later_eq {at_ seconds due : ℤ} (h : later at_ seconds = .ok due) :
    due = at_ + seconds * 1000000 := by
  unfold later at h
  split at h
  · cases h
    rfl
  · cases h

/-- The directory admitted the peer, and the principal is the one it made of it. -/
structure AdmittedAs (d : DaemonSettings) (peer : Option PeerCredential) (lookup : Lookup)
    (principal : PeerPrincipal) : Prop where
  made : ∃ directory credential, lookup.directory = some directory ∧ peer = some credential ∧
    d.admits directory credential = none ∧ principal = d.principalOf directory credential

/-- What a consultation makes of an identity that is of the peer, where it returns. -/
inductive Resolved (d : DaemonSettings) (i : ConnectionIdentity) (lookup : Lookup)
    (i' : ConnectionIdentity) : Prop
  | refused (status : i'.status = .refused)
  | bound (status : i'.status = .established) (principal : PeerPrincipal)
      (eq : i'.principal = some principal) (admitted : AdmittedAs d i.peer lookup principal)
      (due : i'.refreshDueAt = some (lookup.now + d.groupLifetimeSeconds * 1000000))
  | outage (status : i'.status = .unknown) (gone : i.peer.isSome → lookup.directory = none)
      (since : i'.unknownSinceRequest = some i.requestsBegun)

theorem bind_kept (i : ConnectionIdentity) (p : PeerPrincipal) (at_ seconds : ℤ) :
    (i.bind p at_ seconds).1.peer = i.peer ∧
      (i.bind p at_ seconds).1.requestsBegun = i.requestsBegun := by
  unfold ConnectionIdentity.bind
  dsimp only
  split
  · exact ⟨rfl, rfl⟩
  · exact ⟨rfl, rfl⟩

theorem markUnknown_kept (i : ConnectionIdentity) (at_ seconds : ℤ) :
    (i.markUnknown at_ seconds).1.peer = i.peer ∧
      (i.markUnknown at_ seconds).1.requestsBegun = i.requestsBegun := by
  unfold ConnectionIdentity.markUnknown
  dsimp only
  split
  · exact ⟨rfl, rfl⟩
  · exact ⟨rfl, rfl⟩

/-- A consultation changes neither the peer nor the count of the requests. -/
theorem resolve_kept (d : DaemonSettings) (i : ConnectionIdentity) (lookup : Lookup) :
    (resolve d i lookup).1.peer = i.peer ∧
      (resolve d i lookup).1.requestsBegun = i.requestsBegun := by
  unfold resolve
  split
  · dsimp only
    split
    · exact ⟨rfl, rfl⟩
    · split
      · exact ⟨rfl, rfl⟩
      · exact bind_kept ..
      · exact ⟨rfl, rfl⟩
  · exact markUnknown_kept ..

theorem bind_established {p : PeerPrincipal} {at_ seconds : ℤ} {i' : ConnectionIdentity}
    (h : i.bind p at_ seconds = (i', none)) : i'.status = .established ∧ i'.principal = some p ∧
      i'.refreshDueAt = some (at_ + seconds * 1000000) := by
  unfold ConnectionIdentity.bind at h
  dsimp only at h
  split at h
  · cases h
  · rename_i due hdue
    cases h
    exact ⟨rfl, rfl, congrArg some (later_eq hdue)⟩

theorem markUnknown_unknown {at_ seconds : ℤ} {i' : ConnectionIdentity}
    (h : i.markUnknown at_ seconds = (i', none)) :
    i'.status = .unknown ∧ i'.unknownSinceRequest = some i.requestsBegun := by
  unfold ConnectionIdentity.markUnknown at h
  dsimp only at h
  split at h
  · cases h
  · cases h
    exact ⟨rfl, rfl⟩

theorem resolve_ok {i' : ConnectionIdentity} (h : resolve d i lookup = (i', none)) :
    Resolved d i lookup i' := by
  unfold resolve at h
  split at h
  · rename_i directory credential hdirectory hpeer
    dsimp only at h
    split at h
    · cases h
    unfold consult at h
    dsimp only at h
    cases hadmits : d.admits directory credential with
    | some code =>
      rw [hadmits] at h
      cases hbefore : i.principal with
      | none =>
        rw [hbefore] at h
        cases h
        exact .refused rfl
      | some before =>
        rw [hbefore] at h
        cases h
        exact .refused rfl
    | none =>
      rw [hadmits] at h
      obtain ⟨hstatus, hprincipal, hdue⟩ := bind_established h
      exact .bound hstatus _ hprincipal ⟨directory, credential, hdirectory, hpeer, hadmits, rfl⟩ hdue
  · rename_i hno
    obtain ⟨hstatus, hsince⟩ := markUnknown_unknown h
    refine .outage hstatus (fun hpeer => ?_) hsince
    obtain ⟨credential, hcredential⟩ := Option.isSome_iff_exists.1 hpeer
    cases hdirectory : lookup.directory with
    | none => rfl
    | some directory => exact absurd hcredential (hno directory credential hdirectory)

/-! ## One request -/

namespace Connection

variable {c c' : Connection} {r : RequestAct}

/-- What an ask rests on: an answer of the directory that admitted its principal, made in the
request itself or within a lifetime before the request was checked, and the last one asked for
until then. -/
def RestsOn (d : DaemonSettings) (peer : Option PeerCredential) (consulted : List Consultation)
    (a : AskReached) : Prop :=
  a.status = .established ∧ ∃ after k before principal, consulted = after ++ k :: before ∧
    (∀ k' ∈ after, a.request < k'.request) ∧ AdmittedAs d peer k.lookup principal ∧
    a.principal = decidingPrincipal principal ∧
    (k.request = a.request ∨ k.request < a.request ∧
      a.checkedAt < k.lookup.now + d.groupLifetimeSeconds * 1000000)

/-- The identity of a connection that serves requests is accounted for by the last consultation. -/
structure Current (d : DaemonSettings) (c : Connection) : Prop where
  established : c.identity.status = .established → ∃ k before principal,
    c.consulted = k :: before ∧ AdmittedAs d c.identity.peer k.lookup principal ∧
    c.identity.principal = some principal ∧
    c.identity.refreshDueAt = some (k.lookup.now + d.groupLifetimeSeconds * 1000000)
  unknown : c.identity.status = .unknown → ∃ k before,
    c.consulted = k :: before ∧ k.lookup.directory = none ∧
    c.identity.unknownSinceRequest = some k.request
  peer : c.identity.status ≠ .refused → c.identity.peer.isSome

/-- What every request keeps. -/
structure Sound (d : DaemonSettings) (peer : Option PeerCredential) (c : Connection) : Prop where
  ofPeer : c.identity.peer = peer
  numbers : ∀ k ∈ c.consulted, k.request ≤ c.identity.requestsBegun
  asks : ∀ a ∈ c.asked, a.request ≤ c.identity.requestsBegun ∧ RestsOn d peer c.consulted a
  current : c.closed = false → c.defect = false → Current d c

theorem RestsOn.after {a : AskReached} {k : Consultation} {consulted : List Consultation}
    (h : RestsOn d peer consulted a) (hk : a.request < k.request) :
    RestsOn d peer (k :: consulted) a := by
  obtain ⟨hstatus, after, k₀, before, principal, rfl, hafter, hrest⟩ := h
  refine ⟨hstatus, k :: after, k₀, before, principal, rfl, fun k' hk' => ?_, hrest⟩
  rcases List.mem_cons.1 hk' with rfl | hk'
  · exact hk
  · exact hafter k' hk'

theorem accepted_sound (d : DaemonSettings) (peer : Option PeerCredential) (lookup : Lookup)
    (recorded : Bool) : Sound d peer (accepted d peer lookup recorded) := by
  unfold accepted
  cases peer with
  | none =>
    exact ⟨rfl, nofun, nofun, fun _ _ => ⟨nofun, nofun, fun hno => absurd rfl hno⟩⟩
  | some credential =>
    dsimp only
    split
    · exact ⟨rfl, nofun, nofun, fun _ _ => ⟨nofun, nofun, fun hno => absurd rfl hno⟩⟩
    · obtain ⟨hpeer, hbegun⟩ := resolve_kept d { peer := some credential } lookup
      generalize hresolve : resolve d { peer := some credential } lookup = resolved at *
      obtain ⟨i, raised⟩ := resolved
      refine ⟨hpeer, fun k hk => ?_, nofun, fun _ hdefect => ?_⟩
      · rw [List.mem_singleton.1 hk]
        exact Nat.zero_le _
      · obtain rfl : raised = none := by
          cases raised with
          | none => rfl
          | some message => cases hdefect
        refine ⟨fun hstatus => ?_, fun hstatus => ?_, fun _ => by rw [hpeer]; rfl⟩
        · cases resolve_ok hresolve with
          | refused hr => rw [hr] at hstatus; cases hstatus
          | bound _ principal heq hadmitted hdue =>
            exact ⟨_, _, principal, rfl, hpeer ▸ hadmitted, heq, hdue⟩
          | outage ho => rw [ho] at hstatus; cases hstatus
        · cases resolve_ok hresolve with
          | refused hr => rw [hr] at hstatus; cases hstatus
          | bound hb => rw [hb] at hstatus; cases hstatus
          | outage _ hgone hsince => exact ⟨_, _, rfl, hgone rfl, hsince⟩

/-- What a request is answered with changes neither the identity nor the consultations, and asks
under the identity there is. -/
theorem serve_cases (c : Connection) (r : RequestAct) :
    (c.serve r).identity = c.identity ∧ (c.serve r).consulted = c.consulted ∧
      (c.serve r).defect = c.defect ∧
      ((c.serve r).asked = c.asked ∨ c.identity.status = .established ∧ ∃ principal,
        c.identity.principal = some principal ∧ (c.serve r).asked =
          ⟨c.identity.requestsBegun, .established, decidingPrincipal principal, r.checkedAt,
            r.decidedAt⟩ :: c.asked) := by
  unfold serve
  dsimp only
  split
  · rename_i principal _ hstatus hprincipal
    exact ⟨rfl, rfl, rfl, .inr ⟨hstatus, principal, hprincipal, by rw [hstatus]⟩⟩
  · exact ⟨rfl, rfl, rfl, .inl rfl⟩
  · exact ⟨rfl, rfl, rfl, .inl rfl⟩

theorem serve_sound (h : Sound d peer c) (hcurrent : Current d c)
    (hfresh : ∀ k before, c.consulted = k :: before → c.identity.status = .established →
      k.request = c.identity.requestsBegun ∨ k.request < c.identity.requestsBegun ∧
        r.checkedAt < k.lookup.now + d.groupLifetimeSeconds * 1000000) :
    Sound d peer (c.serve r) := by
  obtain ⟨hidentity, hconsulted, -, hasked⟩ := serve_cases c r
  refine ⟨by rw [hidentity]; exact h.ofPeer, ?_, fun a ha => ?_, fun _ _ => ?_⟩
  · rw [hidentity, hconsulted]
    exact h.numbers
  · rw [hidentity, hconsulted]
    rcases hasked with hasked | ⟨hstatus, principal, hprincipal, hasked⟩
    · exact h.asks a (hasked ▸ ha)
    rw [hasked] at ha
    rcases List.mem_cons.1 ha with rfl | ha
    · obtain ⟨k, before, p, hk, hadmitted, hp, -⟩ := hcurrent.established hstatus
      rw [hprincipal] at hp
      cases hp
      exact ⟨le_rfl, rfl, [], k, before, principal, hk, nofun, h.ofPeer ▸ hadmitted, rfl,
        hfresh k before hk hstatus⟩
    · exact h.asks a ha
  · exact ⟨by rw [hidentity, hconsulted]; exact hcurrent.established,
      by rw [hidentity, hconsulted]; exact hcurrent.unknown, by rw [hidentity]; exact hcurrent.peer⟩

/-- A connection that is closed has nothing left to account for. -/
theorem Sound.close (h : Sound d peer c) : Sound d peer { c with closed := true } :=
  ⟨h.ofPeer, h.numbers, h.asks, nofun⟩

/-- What a request makes of the connection, up to its check. -/
def checked (d : DaemonSettings) (c : Connection) (r : RequestAct) : Connection :=
  let begun := c.identity.beginRequest
  let found := refreshIfDue d begun r.checkedAt r.lookup
  { c with
    identity := found.2.1
    consulted :=
      if found.1 then ⟨begun.requestsBegun, r.lookup⟩ :: c.consulted else c.consulted }

/-- What a request can do: nothing behind a defect, nothing behind its check, or what it serves. -/
theorem request_cases (h : c.request d r = some c') : c.closed = false ∧
    ((c.defect = true ∧ c' = { c with closed := true }) ∨
      c.defect = false ∧
        ((c' = { c.checked d r with closed := true } ∧
            ((refreshIfDue d c.identity.beginRequest r.checkedAt r.lookup).2.2.isSome ∨
              (c.checked d r).identity.status = .refused)) ∨
          c' = (c.checked d r).serve r ∧ (c.checked d r).identity.status ≠ .refused ∧
            (refreshIfDue d c.identity.beginRequest r.checkedAt r.lookup).2.2 = none)) := by
  unfold request at h
  split at h
  · cases h
  rename_i hclosed
  refine ⟨Bool.eq_false_iff.2 hclosed, ?_⟩
  split at h
  · rename_i hdefect
    cases h
    exact .inl ⟨hdefect, rfl⟩
  · rename_i hdefect
    refine .inr ⟨Bool.eq_false_iff.2 hdefect, ?_⟩
    unfold checked
    dsimp only at h ⊢
    generalize refreshIfDue d c.identity.beginRequest r.checkedAt r.lookup = found at h ⊢
    obtain ⟨consults, identity, raised⟩ := found
    dsimp only at h ⊢
    split at h
    · rename_i hraised
      cases h
      exact .inl ⟨rfl, .inl hraised⟩
    · rename_i hraised
      split at h
      · rename_i hrefused
        cases h
        exact .inl ⟨rfl, .inr hrefused⟩
      · rename_i hrefused
        cases h
        refine .inr ⟨rfl, hrefused, ?_⟩
        cases raised with
        | none => rfl
        | some message => exact absurd rfl hraised

theorem beginRequest_requestsBegun : i.beginRequest.requestsBegun = i.requestsBegun + 1 := rfl

/-- What the check does to the identity: nothing but the count, or one consultation. -/
theorem checked_cases (d : DaemonSettings) (c : Connection) (r : RequestAct) :
    ((c.checked d r).identity = c.identity.beginRequest ∧
        (c.checked d r).consulted = c.consulted ∧
        (c.identity.status = .refused ∨ c.identity.beginRequest.needsLookup r.checkedAt = false)) ∨
      c.identity.status ≠ .refused ∧
      (c.checked d r).identity = (resolve d c.identity.beginRequest r.lookup).1 ∧
        (c.checked d r).consulted = ⟨c.identity.requestsBegun + 1, r.lookup⟩ :: c.consulted ∧
        (refreshIfDue d c.identity.beginRequest r.checkedAt r.lookup).2.2 =
          (resolve d c.identity.beginRequest r.lookup).2 := by
  have hstatus : c.identity.beginRequest.status = c.identity.status := rfl
  by_cases hrefused : c.identity.status = .refused
  · have hfound : refreshIfDue d c.identity.beginRequest r.checkedAt r.lookup =
        (false, c.identity.beginRequest, none) := if_pos hrefused
    unfold checked
    dsimp only
    rw [hfound]
    exact .inl ⟨rfl, rfl, .inl hrefused⟩
  · have hfound : refreshIfDue d c.identity.beginRequest r.checkedAt r.lookup =
        if c.identity.beginRequest.needsLookup r.checkedAt then
          (true, resolve d c.identity.beginRequest r.lookup)
        else (false, c.identity.beginRequest, none) := if_neg hrefused
    unfold checked
    dsimp only
    rw [hfound]
    cases hneeds : c.identity.beginRequest.needsLookup r.checkedAt with
    | false => exact .inl ⟨rfl, rfl, .inr rfl⟩
    | true => exact .inr ⟨hrefused, rfl, rfl, rfl⟩

/-- The check keeps what the asks rest on. -/
theorem checked_kept (h : Sound d peer c) : (c.checked d r).identity.peer = peer ∧
    (c.checked d r).identity.requestsBegun = c.identity.requestsBegun + 1 ∧
    (∀ k ∈ (c.checked d r).consulted, k.request ≤ (c.checked d r).identity.requestsBegun) ∧
    ∀ a ∈ (c.checked d r).asked, a.request ≤ (c.checked d r).identity.requestsBegun ∧
      RestsOn d peer (c.checked d r).consulted a := by
  have hnext : ∀ k ∈ c.consulted, k.request ≤ c.identity.requestsBegun + 1 := fun k hk =>
    (h.numbers k hk).trans (Nat.le_succ _)
  obtain ⟨hidentity, hconsulted, -⟩ | ⟨-, hidentity, hconsulted, -⟩ := checked_cases d c r
  · rw [hidentity, hconsulted]
    refine ⟨h.ofPeer, rfl, hnext, fun a ha => ?_⟩
    obtain ⟨hle, hrests⟩ := h.asks a ha
    exact ⟨hle.trans (Nat.le_succ _), hrests⟩
  · obtain ⟨hpeer, hbegun⟩ := resolve_kept d c.identity.beginRequest r.lookup
    rw [hidentity, hconsulted, hpeer, hbegun]
    refine ⟨h.ofPeer, rfl, fun k hk => ?_, fun a ha => ?_⟩
    · rcases List.mem_cons.1 hk with rfl | hk
      · exact le_rfl
      · exact hnext k hk
    · obtain ⟨hle, hrests⟩ := h.asks a ha
      exact ⟨hle.trans (Nat.le_succ _), hrests.after (Nat.lt_succ_of_le hle)⟩

/-- **The check** leaves an identity that is accounted for, resolved in this request or not over. -/
theorem checked_current (h : Sound d peer c) (hcurrent : Current d c)
    (hstatus : (c.checked d r).identity.status ≠ .refused)
    (hraised : (refreshIfDue d c.identity.beginRequest r.checkedAt r.lookup).2.2 = none) :
    Current d (c.checked d r) ∧ ∀ k before, (c.checked d r).consulted = k :: before →
      (c.checked d r).identity.status = .established →
        k.request = (c.checked d r).identity.requestsBegun ∨
          k.request < (c.checked d r).identity.requestsBegun ∧
            r.checkedAt < k.lookup.now + d.groupLifetimeSeconds * 1000000 := by
  obtain ⟨hidentity, hconsulted, hidle⟩ | ⟨hbefore, hidentity, hconsulted, hresult⟩ :=
    checked_cases d c r
  · rw [hidentity] at hstatus
    refine ⟨⟨by rw [hidentity, hconsulted]; exact hcurrent.established,
      by rw [hidentity, hconsulted]; exact hcurrent.unknown, by rw [hidentity]; exact hcurrent.peer⟩, ?_⟩
    rw [hidentity, hconsulted]
    intro k before hk hest
    obtain ⟨k', before', principal, hk', -, -, hdue⟩ := hcurrent.established hest
    rw [hk] at hk'
    cases hk'
    have hle := h.numbers k (by rw [hk]; exact List.mem_cons_self)
    refine .inr ⟨Nat.lt_succ_of_le hle, ?_⟩
    have hneeds := hidle.resolve_left hstatus
    unfold ConnectionIdentity.needsLookup ConnectionIdentity.isDue at hneeds
    have hsame : c.identity.beginRequest.refreshDueAt = c.identity.refreshDueAt := rfl
    have hnow : c.identity.beginRequest.status = .established := hest
    rw [hnow, hsame, hdue] at hneeds
    simpa using hneeds
  · rw [hresult] at hraised
    rw [hidentity] at hstatus
    obtain ⟨hpeer, hbegun⟩ := resolve_kept d c.identity.beginRequest r.lookup
    have hresolved : Resolved d c.identity.beginRequest r.lookup
        (resolve d c.identity.beginRequest r.lookup).1 := resolve_ok (Prod.ext rfl hraised)
    have hsome : c.identity.beginRequest.peer.isSome := hcurrent.peer hbefore
    refine ⟨⟨?_, ?_, fun _ => by rw [hidentity, hpeer]; exact hsome⟩, ?_⟩
    · rw [hidentity, hconsulted]
      intro hest
      cases hresolved with
      | refused hr => exact absurd hr hstatus
      | bound _ principal heq hadmitted hdue =>
        exact ⟨_, _, principal, rfl, hpeer ▸ hadmitted, heq, hdue⟩
      | outage ho => rw [ho] at hest; cases hest
    · rw [hidentity, hconsulted]
      intro hunknown
      cases hresolved with
      | refused hr => exact absurd hr hstatus
      | bound hb => rw [hb] at hunknown; cases hunknown
      | outage _ hgone hsince => exact ⟨_, _, rfl, hgone hsome, hsince⟩
    · rw [hidentity, hconsulted, hbegun]
      intro k before hk _
      cases hk
      exact .inl rfl

/-- **One request** keeps what every ask rests on. -/
theorem request_sound (h : Sound d peer c) (hs : c.request d r = some c') : Sound d peer c' := by
  obtain ⟨hclosed, ⟨hdefect, rfl⟩ | ⟨hdefect, hcases⟩⟩ := request_cases hs
  · exact h.close
  · obtain ⟨hpeer, hbegun, hnumbers, hasks⟩ := checked_kept (r := r) h
    rcases hcases with ⟨rfl, -⟩ | ⟨rfl, hstatus, hraised⟩
    · exact ⟨hpeer, hnumbers, hasks, nofun⟩
    · obtain ⟨hcurrent, hfresh⟩ := checked_current h (h.current hclosed hdefect) hstatus hraised
      exact serve_sound ⟨hpeer, hnumbers, hasks, fun _ _ => hcurrent⟩ hcurrent hfresh

theorem request_refused (h : c.identity.status = .refused) (hs : c.request d r = some c') :
    c'.identity.status = .refused ∧ c'.asked = c.asked := by
  obtain ⟨-, ⟨-, rfl⟩ | ⟨-, hcases⟩⟩ := request_cases hs
  · exact ⟨h, rfl⟩
  obtain ⟨hidentity, -, -⟩ | ⟨hno, -⟩ := checked_cases d c r
  · rcases hcases with ⟨rfl, -⟩ | ⟨-, hno, -⟩
    · exact ⟨by rw [hidentity]; exact h, rfl⟩
    · exact absurd (by rw [hidentity]; exact h) hno
  · exact absurd h hno

/-- The request behind an outage asks the directory again. -/
theorem request_retries (h : Sound d peer c) {k : Consultation} {before : List Consultation}
    (hk : c.consulted = k :: before) (hout : k.lookup.directory = none)
    (hstatus : c.identity.status ≠ .refused) (hdefect : c.defect = false)
    (hs : c.request d r = some c') :
    c'.consulted = ⟨c.identity.requestsBegun + 1, r.lookup⟩ :: c.consulted := by
  obtain ⟨hclosed, ⟨hdefect', -⟩ | ⟨-, hcases⟩⟩ := request_cases hs
  · rw [hdefect] at hdefect'
    cases hdefect'
  have hcurrent := h.current hclosed hdefect
  have hunknown : c.identity.status = .unknown := by
    cases hcase : c.identity.status with
    | unknown => rfl
    | refused => exact absurd hcase hstatus
    | established =>
      obtain ⟨k', _, _, hk', ⟨_, _, hdirectory, -⟩, -⟩ := hcurrent.established hcase
      rw [hk] at hk'
      cases hk'
      rw [hout] at hdirectory
      cases hdirectory
  have hconsulted : (c.checked d r).consulted =
      ⟨c.identity.requestsBegun + 1, r.lookup⟩ :: c.consulted := by
    obtain ⟨-, -, hrefused | hidle⟩ | ⟨-, -, hconsulted, -⟩ := checked_cases d c r
    · exact absurd hrefused hstatus
    · obtain ⟨k', _, hk', -, hsince⟩ := hcurrent.unknown hunknown
      have hle := h.numbers k' (by rw [hk']; exact List.mem_cons_self)
      unfold ConnectionIdentity.needsLookup at hidle
      have hnow : c.identity.beginRequest.status = .unknown := hunknown
      have hnumber : c.identity.beginRequest.unknownSinceRequest = some k'.request := hsince
      have hlt : k'.request < c.identity.beginRequest.requestsBegun := Nat.lt_succ_of_le hle
      rw [hnow, hnumber] at hidle
      simp [hlt] at hidle
    · exact hconsulted
  rcases hcases with ⟨rfl, -⟩ | ⟨rfl, -⟩
  · exact hconsulted
  · rw [(serve_cases _ r).2.1]
    exact hconsulted

/-- **The identity behind a decision is fresh.** Every ask reaches the decision service under an
established identity, and rests on the last answer of the directory, which admitted its principal
in that request or within a lifetime before the request was checked. A refused connection stays
refused and asks nothing more, and the request behind an outage asks the directory again. -/
theorem identity_fresh {recorded : Bool} {acts : List RequestAct}
    (h : run (request d) (accepted d peer lookup recorded) acts = some c) :
    (∀ a ∈ c.asked, RestsOn d peer c.consulted a) ∧
    (c.identity.status = .refused → ∀ acts' c', run (request d) c acts' = some c' →
      c'.identity.status = .refused ∧ c'.asked = c.asked) ∧
    ∀ k before, c.consulted = k :: before → k.lookup.directory = none →
      c.identity.status ≠ .refused → c.defect = false → ∀ r c', c.request d r = some c' →
        c'.consulted = ⟨c.identity.requestsBegun + 1, r.lookup⟩ :: c.consulted := by
  have hsound : Sound d peer c := run_preserves (fun _ _ _ hP hs => request_sound hP hs)
    (accepted_sound d peer lookup recorded) h
  refine ⟨fun a ha => (hsound.asks a ha).2, fun hrefused acts' c' hrun => ?_,
    fun k before hk hout hstatus hdefect r c' hs => request_retries hsound hk hout hstatus hdefect hs⟩
  have hkept := @run_preserves _ _ (request d)
    (fun s => s.identity.status = .refused ∧ s.asked = c.asked) (fun s r s' hP hs => by
      obtain ⟨hstatus, hasked⟩ := request_refused hP.1 hs
      exact ⟨hstatus, hasked.trans hP.2⟩)
  exact hkept ⟨hrefused, rfl⟩ hrun

/-! ## The clock of the decision service -/

/-- A daemon of one user, who has no entry in the directory. -/
def personal : DaemonSettings where
  mode := .perUser
  daemonUid := 1001
  socketGid := none
  overflowUid := none
  overflowGid := none
  accountKinds := []
  groupLifetimeSeconds := 60
  lifetime_held := by decide

def atAccept : Lookup := ⟨0, some ⟨fun _ => none, fun _ _ => [], fun _ => none⟩, true⟩

/-- A request is checked a second before the identity is over, and its body takes two to arrive. -/
def slowBody : RequestAct := ⟨.ask true true, 59000000, atAccept, false, 61000000⟩

theorem slowBody_run : ∃ c a, run (request personal) (accepted personal (some ⟨1001, 1001⟩) atAccept
    true) [slowBody] = some c ∧ c.asked = [a] ∧ a.decidedAt = 61000000 ∧
      c.consulted = [⟨0, atAccept⟩] :=
  ⟨_, _, rfl, rfl, rfl, rfl⟩

theorem identity_fresh_slowBody : ∃ c a, run (request personal) (accepted personal
    (some ⟨1001, 1001⟩) atAccept true) [slowBody] = some c ∧ a ∈ c.asked ∧
      RestsOn personal (some ⟨1001, 1001⟩) c.consulted a := by
  obtain ⟨c, a, hrun, hasked, -⟩ := slowBody_run
  have hmem : a ∈ c.asked := by
    rw [hasked]
    exact List.mem_singleton_self a
  exact ⟨c, a, hrun, hmem, (identity_fresh hrun).1 a hmem⟩

/-- When the decision is taken, the identity can be older than a lifetime. -/
theorem decided_late : ¬ ∀ (d : DaemonSettings) (peer : Option PeerCredential) (lookup : Lookup)
    (acts : List RequestAct) (c : Connection),
    run (request d) (accepted d peer lookup true) acts = some c → ∀ a ∈ c.asked, ∃ k ∈ c.consulted,
      a.decidedAt < k.lookup.now + d.groupLifetimeSeconds * 1000000 := by
  intro hclaim
  obtain ⟨c, a, hrun, hasked, hdecided, hconsulted⟩ := slowBody_run
  obtain ⟨k, hk, hlt⟩ := hclaim _ _ _ _ c hrun a (by rw [hasked]; exact List.mem_singleton_self a)
  rw [hconsulted] at hk
  rw [List.mem_singleton.1 hk, hdecided] at hlt
  exact absurd hlt (by decide)

end Connection

end SayFirst.Plane
