import SayFirst.Lib.Tally
import SayFirst.Proof.GrantSignals
import SayFirst.Spec.GrantAsk
import Mathlib.Data.List.Count

/-!
# The capacity of the grant connections

The two counters are the active reservations, of everybody and of each principal;
a slot passes from a reservation to a connection in one section. A reservation is
given back unless its ask leaves by an exit that does not think of it.

* `Counted` — the counters, the connections and the limits, over every run.
* `AskStage.Keeps` — the exits that give the reservation back.
* `capacity_kept` — the law, over every run.
-/

namespace SayFirst.Plane

open Py

/-- The active reservations of a principal. -/
def activeOf (l : List GrantReservation) (uid : ℕ) : ℕ :=
  l.countP fun x => x.active && x.principalUid == uid

/-- A reservation that is handed out is active. -/
theorem active_append (l : List GrantReservation) (uid : ℕ) :
    (l ++ [GrantReservation.mk uid true]).countP (·.active) = l.countP (·.active) + 1 ∧
      ∀ u, activeOf (l ++ [⟨uid, true⟩]) u = activeOf l u + if uid = u then 1 else 0 := by
  refine ⟨?_, fun u => ?_⟩
  · rw [List.countP_append, List.countP_singleton, if_pos rfl]
  · unfold activeOf
    rw [List.countP_append, List.countP_singleton]
    simp only [Bool.true_and, beq_iff_eq]

/-- A reservation that is spent no longer is. -/
theorem active_spent {l : List GrantReservation} {i uid : ℕ} (h : l[i]? = some ⟨uid, true⟩) :
    (l.set i ⟨uid, false⟩).countP (·.active) + 1 = l.countP (·.active) ∧
      ∀ u, activeOf (l.set i ⟨uid, false⟩) u + (if uid = u then 1 else 0) = activeOf l u := by
  obtain ⟨hi, hget⟩ := List.getElem?_eq_some_iff.1 h
  have hpos : 0 < l.countP (·.active) :=
    List.countP_pos_iff.2 ⟨l[i], List.getElem_mem hi, by rw [hget]⟩
  refine ⟨?_, fun u => ?_⟩
  · rw [List.countP_set hi, hget]
    simp only [if_true, Bool.false_eq_true, if_false]
    omega
  · unfold activeOf
    rw [List.countP_set hi, hget]
    simp only [Bool.true_and, Bool.false_and, beq_iff_eq, Bool.false_eq_true, if_false]
    split
    · rename_i hu
      have hmine : 0 < l.countP fun x => x.active && x.principalUid == u :=
        List.countP_pos_iff.2 ⟨l[i], List.getElem_mem hi, by rw [hget]; simpa using hu⟩
      omega
    · omega

namespace GrantConnections

variable {r r' : GrantConnections} {uid i k : ℕ} {g : Str}

/-- The counters are the active reservations. -/
structure Reserved (r : GrantConnections) : Prop where
  total : r.reservedTotal = r.reservations.countP (·.active)
  byPrincipal : ∀ uid, r.reservedByPrincipal.lookup uid =
    if activeOf r.reservations uid = 0 then none else some (activeOf r.reservations uid : ℤ)
  sum : tally r.reservedByPrincipal = r.reservedTotal

theorem Reserved.getD (h : r.Reserved) (uid : ℕ) :
    (r.reservedByPrincipal.lookup uid).getD 0 = activeOf r.reservations uid := by
  rw [h.byPrincipal]
  split
  · rename_i hzero
    rw [hzero]
    rfl
  · rfl

theorem reserve_some (hr : r.reserve uid = (some k, r')) :
    r.hasCapacity uid = true ∧ k = r.reservations.length ∧
      r' = { r with
        reservedTotal := r.reservedTotal + 1
        reservedByPrincipal := r.reservedByPrincipal.insert uid
          ((r.reservedByPrincipal.lookup uid).getD 0 + 1)
        reservations := r.reservations ++ [⟨uid, true⟩] } := by
  unfold reserve at hr
  split at hr
  · cases hr
    exact ⟨by assumption, rfl, rfl⟩
  · cases hr

/-- A slot taken is counted. -/
theorem reserve_reserved (h : r.Reserved) (hr : r.reserve uid = (some k, r')) : r'.Reserved := by
  obtain ⟨-, -, rfl⟩ := reserve_some hr
  obtain ⟨htotal, hof⟩ := active_append r.reservations uid
  refine ⟨?_, fun u => ?_, ?_⟩
  · dsimp only
    rw [h.total, htotal]
    push_cast
    rfl
  · dsimp only
    rw [h.getD, hof]
    by_cases hu : u = uid
    · subst hu
      rw [AList.lookup_insert, if_pos rfl, if_neg (Nat.succ_ne_zero _)]
      push_cast
      rfl
    · rw [AList.lookup_insert_ne hu, h.byPrincipal, if_neg (Ne.symm hu), Nat.add_zero]
  · dsimp only
    rw [tally_insert, h.sum]
    omega

/-- A slot given back is counted, and the table holds its principal. -/
theorem release_reserved (h : r.Reserved) (hi : r.reservations[i]? = some ⟨uid, true⟩) :
    ((r.spent i uid).releaseReservation uid).1 = true ∧
      ((r.spent i uid).releaseReservation uid).2.Reserved ∧
      ((r.spent i uid).releaseReservation uid).2.reservations =
        r.reservations.set i ⟨uid, false⟩ ∧
      ((r.spent i uid).releaseReservation uid).2.limits = r.limits := by
  obtain ⟨htotal, hof⟩ := active_spent hi
  have hmine := hof uid
  rw [if_pos rfl] at hmine
  have hpos : activeOf r.reservations uid ≠ 0 := by omega
  have hkept := h.byPrincipal uid
  rw [if_neg hpos] at hkept
  have htotal' : r.reservedTotal - 1 = (r.reservations.set i ⟨uid, false⟩).countP (·.active) := by
    rw [h.total]
    omega
  unfold releaseReservation spent
  dsimp only
  rw [hkept]
  dsimp only
  split
  · rename_i hmore
    refine ⟨rfl, ⟨htotal', fun u => ?_, ?_⟩, rfl, rfl⟩
    · dsimp only
      by_cases hu : u = uid
      · subst hu
        rw [AList.lookup_insert, if_neg (by omega)]
        congr 1
        omega
      · have hsame := hof u
        rw [if_neg (Ne.symm hu), Nat.add_zero] at hsame
        rw [AList.lookup_insert_ne hu, h.byPrincipal, hsame]
    · dsimp only
      rw [tally_insert, hkept, h.sum, Option.getD_some]
      omega
  · rename_i hlast
    refine ⟨rfl, ⟨htotal', fun u => ?_, ?_⟩, rfl, rfl⟩
    · dsimp only
      by_cases hu : u = uid
      · subst hu
        rw [AList.lookup_erase, if_pos (by omega)]
      · have hsame := hof u
        rw [if_neg (Ne.symm hu), Nat.add_zero] at hsame
        rw [AList.lookup_erase_ne hu, h.byPrincipal, hsame]
    · dsimp only
      rw [tally_erase, hkept, h.sum, Option.getD_some]
      omega

/-- The counters are the active reservations, the registered connections are the live ones, and
neither limit is exceeded. -/
structure Counted (r : GrantConnections) : Prop extends Reserved r where
  nodup : r.registered.Nodup
  known : ∀ g ∈ r.registered, (r.connection g).isSome
  live : ∀ g c, r.connection g = some c → (c.live = true ↔ g ∈ r.registered)
  within : r.registered.length + r.reservations.countP (·.active) ≤ r.limits.maxConnections
  perPrincipal : ∀ uid, r.registered.countP (r.isOf uid) + activeOf r.reservations uid ≤
    r.limits.maxConnectionsPerPrincipal

theorem empty_counted (limits : GrantLimits) : (empty limits).Counted where
  total := rfl
  byPrincipal _ := rfl
  sum := rfl
  nodup := List.nodup_nil
  known _ h := by cases h
  live _ _ h := by cases h
  within := Nat.zero_le _
  perPrincipal _ := Nat.zero_le _

theorem reserve_counted (h : r.Counted) (hr : r.reserve uid = (some k, r')) : r'.Counted := by
  have hreserved := reserve_reserved h.toReserved hr
  obtain ⟨hcap, -, rfl⟩ := reserve_some hr
  obtain ⟨htotal, hof⟩ := active_append r.reservations uid
  unfold hasCapacity at hcap
  simp only [Bool.and_eq_true, decide_eq_true_eq] at hcap
  rw [h.getD, h.total] at hcap
  refine ⟨hreserved, h.nodup, h.known, h.live, ?_, fun u => ?_⟩
  · dsimp only
    rw [htotal]
    omega
  · dsimp only
    rw [hof]
    have hold := h.perPrincipal u
    split
    · rename_i hu
      subst hu
      have hnew := hcap.2
      change r.registered.countP (r.isOf uid) + _ ≤ _
      omega
    · exact hold

/-- A reservation that is given back leaves the connections as they are. -/
theorem cancel_counted (h : r.Counted) : (r.cancel i).Counted := by
  unfold cancel
  split
  · rename_i u hi
    obtain ⟨-, hreserved, hres, hlimits⟩ := release_reserved h.toReserved hi
    obtain ⟨htotal, hof⟩ := active_spent hi
    obtain ⟨hreg, hconn⟩ := @GrantService.release_same (r.spent i u) u
    have hreg' : ((r.spent i u).releaseReservation u).2.registered = r.registered := hreg
    have hconn' : ((r.spent i u).releaseReservation u).2.connection = r.connection := hconn
    have hisOf : ((r.spent i u).releaseReservation u).2.isOf = r.isOf := by
      unfold isOf
      rw [hconn']
    refine ⟨hreserved, hreg' ▸ h.nodup, ?_, ?_, ?_, fun v => ?_⟩
    · rw [hreg', hconn']
      exact h.known
    · rw [hreg', hconn']
      exact h.live
    · rw [hreg', hres, hlimits]
      have hwithin := h.within
      omega
    · rw [hreg', hres, hlimits, hisOf]
      have hold := h.perPrincipal v
      have hless := hof v
      omega
  · exact h

/-- A slot passes from the reservation to the connection it is opened for. -/
theorem openReserved_counted (h : r.Counted) {grant : Grant} {signalWriter opened : Bool}
    (hfresh : r.connection grant.grantId = none)
    (ho : r.openReserved i grant signalWriter = (opened, r')) : r'.Counted := by
  unfold openReserved at ho
  split at ho
  · rename_i u hi
    obtain ⟨hreturns, hreserved, hres, hlimits⟩ := release_reserved h.toReserved hi
    obtain ⟨htotal, hof⟩ := active_spent hi
    obtain ⟨hreg, hconn⟩ := @GrantService.release_same (r.spent i u) u
    split at ho
    · rename_i s' hrelease
      rw [hrelease] at hreturns
      cases hreturns
    rename_i r₁ hrelease
    cases ho
    rw [hrelease] at hreserved hres hlimits hreg hconn
    dsimp only at hreserved hres hlimits hreg hconn
    have hreg' : r₁.registered = r.registered := hreg
    have hconn' : r₁.connection = r.connection := hconn
    have hnew : grant.grantId ∉ r.registered := fun hmem => by
      have hsome := h.known _ hmem
      rw [hfresh] at hsome
      cases hsome
    have hregistered : (r₁.register (.made grant u signalWriter)).registered =
        r.registered ++ [grant.grantId] := by
      unfold register
      dsimp only
      rw [hreg']
      exact if_neg hnew
    have hconnection : ∀ g, (r₁.register (.made grant u signalWriter)).connection g =
        if g = grant.grantId then some (.made grant u signalWriter) else r.connection g := by
      intro g
      unfold register
      dsimp only
      rw [hconn']
      rfl
    refine ⟨⟨hreserved.total, hreserved.byPrincipal, hreserved.sum⟩, ?_, fun g hg => ?_,
      fun g c hc => ?_, ?_, fun v => ?_⟩
    · rw [hregistered]
      refine List.nodup_append.2 ⟨h.nodup, List.nodup_singleton _, fun g hg g' hg' heq => ?_⟩
      rw [List.mem_singleton.1 hg'] at heq
      exact hnew (heq ▸ hg)
    · rw [hconnection]
      split
      · rfl
      · rename_i hne
        rw [hregistered] at hg
        exact h.known g ((List.mem_append.1 hg).resolve_right fun hg => hne (List.mem_singleton.1 hg))
    · rw [hconnection] at hc
      rw [hregistered, List.mem_append, List.mem_singleton]
      split at hc
      · rename_i hg
        cases hc
        exact iff_of_true rfl (.inr hg)
      · rename_i hne
        rw [h.live g c hc]
        exact (or_iff_left hne).symm
    · rw [hregistered, List.length_append, List.length_singleton]
      change _ + r₁.reservations.countP _ ≤ r₁.limits.maxConnections
      rw [hres, hlimits]
      have hwithin := h.within
      omega
    · have hisOf : ∀ g ∈ r.registered, (r₁.register (.made grant u signalWriter)).isOf v g =
          r.isOf v g := by
        intro g hg
        unfold isOf
        rw [hconnection, if_neg fun heq : g = grant.grantId => hnew (heq ▸ hg)]
      have hmine : (r₁.register (.made grant u signalWriter)).isOf v grant.grantId =
          (u == v) := by
        unfold isOf
        rw [hconnection, if_pos rfl]
        rfl
      rw [hregistered, List.countP_append, List.countP_singleton, hmine,
        List.countP_congr fun g hg => by rw [hisOf g hg]]
      change _ + activeOf r₁.reservations v ≤ r₁.limits.maxConnectionsPerPrincipal
      rw [hres, hlimits]
      have hold := h.perPrincipal v
      have hless := hof v
      simp only [beq_iff_eq]
      omega
  · cases ho
    exact h

theorem isOf_change (f : GrantConnection → GrantConnection)
    (hf : ∀ c, (f c).principalUid = c.principalUid) (u : ℕ) :
    (r.change g f).isOf u = r.isOf u := by
  funext g'
  unfold isOf change
  dsimp only
  split
  · rw [Option.any_map]
    congr 1
    funext c
    exact congrArg (· == u) (hf c)
  · rfl

/-- Signals written on a connection move no slot. -/
theorem change_counted (h : r.Counted) (f : GrantConnection → GrantConnection)
    (huid : ∀ c, (f c).principalUid = c.principalUid) (hlive : ∀ c, (f c).live = c.live) :
    (r.change g f).Counted := by
  refine ⟨⟨h.total, h.byPrincipal, h.sum⟩, h.nodup, fun g' hg' => ?_, fun g' c' hc' => ?_, h.within,
    fun u => ?_⟩
  · rw [GrantService.change_known]
    exact h.known g' hg'
  · obtain ⟨c, hc, ⟨-, rfl⟩ | rfl⟩ := GrantService.change_cases hc'
    · rw [hlive]
      exact h.live g' c hc
    · exact h.live g' _ hc
  · rw [isOf_change f huid]
    exact h.perPrincipal u

/-- A connection that ends leaves its slot. -/
theorem pop_counted (h : r.Counted) : (r.pop g).Counted := by
  have hmem : ∀ g', g' ∈ r.registered.erase g ↔ g' ≠ g ∧ g' ∈ r.registered :=
    fun g' => h.nodup.mem_erase_iff
  have hisOf : ∀ u, (r.pop g).isOf u = r.isOf u :=
    fun u => isOf_change (r := r) (g := g) ({ · with live := false }) (fun _ => rfl) u
  refine ⟨⟨h.total, h.byPrincipal, h.sum⟩, h.nodup.erase g, fun g' hg' => ?_, fun g' c' hc' => ?_, ?_,
    fun u => ?_⟩
  · exact (GrantService.change_known _ _ _ _).trans (h.known g' ((hmem g').1 hg').2)
  · change c'.live = true ↔ g' ∈ r.registered.erase g
    rw [hmem]
    have hc : (r.change g ({ · with live := false })).connection g' = some c' := hc'
    unfold change at hc
    dsimp only at hc
    split at hc
    · rename_i hg
      obtain ⟨c, -, rfl⟩ := Option.map_eq_some_iff.1 hc
      exact iff_of_false (fun hf => by cases hf) fun hf => hf.1 hg
    · rename_i hg
      rw [h.live g' c' hc]
      exact (and_iff_right hg).symm
  · have hle := (List.erase_sublist (a := g) (l := r.registered)).length_le
    exact (Nat.add_le_add_right hle _).trans h.within
  · rw [hisOf]
    have hle := (List.erase_sublist (a := g) (l := r.registered)).countP_le (p := r.isOf u)
    exact (Nat.add_le_add_right hle _).trans (h.perPrincipal u)

end GrantConnections

namespace GrantService

variable {s s' : GrantService} {t : ℕ} {now : ℤ} {taken : Bool} {x : GrantSection}
  {new : List GrantSection}

open GrantConnections in
/-- **One section** keeps the counters, and takes and gives back no reservation. -/
theorem perform_counted (h : s.registry.Counted) (hp : s.perform now taken x = (new, s')) :
    s'.registry.Counted ∧ s'.registry.reservations = s.registry.reservations := by
  cases perform_cases hp with
  | leads _ => exact ⟨h, rfl⟩
  | ends g reason policyVersion at_ hreg =>
    refine ⟨change_counted (pop_counted h) _ (fun c => ?_) fun c => ?_, rfl⟩
    · unfold GrantConnection.write
      split
      · split
        · rfl
        · rfl
      · rfl
    · unfold GrantConnection.write
      split
      · split
        · rfl
        · rfl
      · rfl
  | loses g reason hreg => exact ⟨pop_counted h, rfl⟩
  | writes g signal c => exact ⟨change_counted h _ (fun _ => rfl) fun _ => rfl, rfl⟩
  | appends g signal => exact ⟨change_counted h _ (fun _ => rfl) fun _ => rfl, rfl⟩
  | hears g at_ => exact ⟨change_counted h _ (fun _ => rfl) fun _ => rfl, rfl⟩
  | records e => exact ⟨h, rfl⟩

theorem begin_registry {l : List GrantSection} (h : s.begin t l = some s') :
    s'.registry = s.registry := by
  obtain ⟨-, rfl⟩ := begin_cases h
  rfl

theorem endItself_registry {g : Str} {f : GrantConnection → GrantSection}
    (h : s.endItself t g f = some s') : s'.registry = s.registry := by
  unfold endItself at h
  split at h
  · cases h
  · exact begin_registry h

/-- A call that reserves nothing keeps the counters and the reservations. -/
theorem call_counted (h : s.registry.Counted) {c : GrantCall} (hc : c.reserves = false)
    (hs : s.step c = some s') :
    s'.registry.Counted ∧ s'.registry.reservations = s.registry.reservations := by
  have hsame : s'.registry = s.registry →
      s'.registry.Counted ∧ s'.registry.reservations = s.registry.reservations := by
    intro heq
    rw [heq]
    exact ⟨h, rfl⟩
  cases c with
  | reserve uid => cases hc
  | openReserved t reservation grant signalWriter => cases hc
  | cancel reservation => cases hc
  | policyVersionChanged t policyVersion => exact hsame (begin_registry hs)
  | tick t now currentPolicyVersion => exact hsame (begin_registry hs)
  | shutdown t =>
    obtain ⟨s₁, -, rfl⟩ := Option.map_eq_some_iff.1 hs
    exact ⟨⟨⟨h.total, h.byPrincipal, h.sum⟩, h.nodup, h.known, h.live, h.within, h.perPrincipal⟩, rfl⟩
  | peerClosed t g => exact hsame (endItself_registry hs)
  | peerWrote t g => exact hsame (endItself_registry hs)
  | reachedItsLifetime t now g => exact hsame (endItself_registry hs)
  | turn t now taken =>
    obtain ⟨x, rest, new, s₁, -, hp, rfl⟩ := turn_cases hs
    obtain ⟨hcounted, hreservations⟩ := perform_counted h hp
    exact ⟨hcounted, hreservations⟩

/-- A reservation that is opened by its holder registers the grant, and is spent. -/
theorem opened_counted (h : s.registry.Counted) {i r uid : ℕ} {grant : Grant} {signalWriter : Bool}
    (hr : s.registry.reservations[r]? = some ⟨uid, true⟩)
    (hs : s.step (.openReserved i r grant signalWriter) = some s') :
    s'.registry.Counted ∧
      s'.registry.reservations = s.registry.reservations.set r ⟨uid, false⟩ ∧
      grant.grantId ∈ s'.registry.registered := by
  simp only [step] at hs
  split at hs
  · rename_i hfresh
    obtain ⟨hreturns, -, hres, -⟩ := GrantConnections.release_reserved h.toReserved hr
    have hopened : s.registry.openReserved r grant signalWriter =
        (true, (((s.registry.spent r uid).releaseReservation uid).2.register
          (.made grant uid signalWriter))) := by
      unfold GrantConnections.openReserved
      rw [hr]
      dsimp only
      rw [← Prod.mk.eta (p := (s.registry.spent r uid).releaseReservation uid), hreturns]
    have hcounted := GrantConnections.openReserved_counted h hfresh hopened
    unfold openReserved at hs
    rw [hopened] at hs
    dsimp only at hs
    obtain ⟨s₁, -, rfl⟩ := Option.map_eq_some_iff.1 hs
    refine ⟨hcounted, hres, ?_⟩
    unfold GrantConnections.register
    dsimp only
    split
    · assumption
    · exact List.mem_append_right _ (List.mem_singleton_self _)
  · cases hs

/-- A reservation that is cancelled is spent. -/
theorem cancelled_counted (h : s.registry.Counted) {r uid : ℕ}
    (hr : s.registry.reservations[r]? = some ⟨uid, true⟩)
    (hs : s.step (.cancel r) = some s') :
    s'.registry.Counted ∧
      s'.registry.reservations = s.registry.reservations.set r ⟨uid, false⟩ := by
  cases hs
  refine ⟨GrantConnections.cancel_counted h, ?_⟩
  unfold GrantConnections.cancel
  dsimp only
  rw [hr]
  exact (GrantConnections.release_reserved h.toReserved hr).2.2.1

end GrantService

/-! ## What a consultation answers -/

/-- What an ask is about to record is an answer of its consultation. -/
def Phase.Possible : Phase → Prop
  | .recording _ (some c) => c.possible = true
  | _ => True

section Consultation

variable {w w' : World} {i : ℕ} {p : Phase}

theorem setPhase_possible (h : ∀ j, (w.phase j).Possible) (hp : p.Possible) (j : ℕ) :
    ((w.setPhase i p).phase j).Possible := by
  unfold World.setPhase
  dsimp only
  split
  · exact hp
  · exact h j

theorem again_possible (a : Asking) (o : Approval) (attempt : ℕ) :
    (World.again a o attempt).Possible := by
  unfold World.again
  split
  · trivial
  · trivial

theorem consult_possible (a : Asking) (o : Approval) (attempt : ℕ) (found : Approval) :
    (World.consult a o attempt found).Possible := by
  unfold World.consult
  split
  · trivial
  · split
    · split
      · rfl
      · exact again_possible a o attempt
    · rfl
    · trivial
    · split
      · exact again_possible a o attempt
      · trivial

theorem afterRecord_possible (scope : Str) (c : Option Consulted) :
    (World.afterRecord scope c).Possible := by
  unfold World.afterRecord
  split
  · split
    · trivial
    · split
      · trivial
      · trivial
  · trivial

theorem withoutRecord_possible (scope : Str) (c : Option Consulted) :
    (World.withoutRecord scope c).Possible := by
  unfold World.withoutRecord
  split
  · split
    · trivial
    · split
      · trivial
      · trivial
  · trivial

theorem consultOrRecord_possible (host : Composition) (a : Asking) (ref : Str) :
    (World.consultOrRecord host a ref).Possible := by
  unfold World.consultOrRecord
  split
  · split
    · trivial
    · split
      · trivial
      · trivial
  · trivial

theorem act_possible (h : ∀ j, (w.phase j).Possible) (hs : w.act i = some w') (j : ℕ) :
    (w'.phase j).Possible := by
  unfold World.act at hs
  split at hs
  · cases hs
    refine setPhase_possible h ?_ j
    split
    · trivial
    · trivial
  · cases hs
    refine setPhase_possible h ?_ j
    split
    · trivial
    · trivial
  · dsimp only at hs
    split at hs
    · cases hs
      exact setPhase_possible h (by trivial) j
    · cases hs
      exact setPhase_possible h (consult_possible _ _ _ _) j
  · cases hs
    refine setPhase_possible h ?_ j
    split
    · rfl
    · exact again_possible _ _ _
    · exact again_possible _ _ _
    · trivial
  · cases hs
    exact setPhase_possible h (by trivial) j
  · cases hs

/-- An ask is led to its record by an answer of its consultation, or by none. -/
theorem ask_possible {host : Composition} {e : Event} (h : ∀ j, (w.phase j).Possible)
    (hs : Plane.step host w e = some w') (j : ℕ) : (w'.phase j).Possible := by
  cases e with
  | tick now =>
    simp only [Plane.step] at hs
    split at hs
    · cases hs
      exact h j
    · cases hs
  | resolve key person resolution reason at_ =>
    simp only [Plane.step] at hs
    split at hs
    · cases hs
      exact h j
    · cases hs
  | expirePast at_ =>
    simp only [Plane.step] at hs
    split at hs
    · cases hs
      exact h j
    · cases hs
  | forgetLapsed at_ =>
    simp only [Plane.step] at hs
    split at hs
    · cases hs
      exact h j
    · cases hs
  | ask i question =>
    simp only [Plane.step] at hs
    split at hs
    · cases hs
      refine setPhase_possible h ?_ j
      split
      · trivial
      · trivial
    · cases hs
  | act i => exact act_possible h hs j
  | decide i content decisionRef approvalRef =>
    simp only [Plane.step] at hs
    split at hs
    · split at hs
      · cases hs
      · split at hs
        · cases hs
        · split at hs
          · cases hs
            exact setPhase_possible h (by trivial) j
          · split at hs
            · cases hs
              exact setPhase_possible h (by trivial) j
            · cases hs
              exact setPhase_possible h (consultOrRecord_possible host _ _) j
    · cases hs
  | suspended i takenUp =>
    simp only [Plane.step] at hs
    split at hs
    · cases hs
      refine setPhase_possible h ?_ j
      split
      · rfl
      · trivial
    · cases hs
  | append i grantId outcome =>
    simp only [Plane.step] at hs
    split at hs
    · split at hs
      · cases hs
      · split at hs
        · cases hs
          exact setPhase_possible h (withoutRecord_possible _ _) j
        · cases hs
          exact setPhase_possible h (afterRecord_possible _ _) j
    · cases hs
  | raised i =>
    simp only [Plane.step, World.raised] at hs
    split at hs
    · cases hs
      exact setPhase_possible h (by trivial) j
    · cases hs
      exact setPhase_possible h (by trivial) j
    · cases hs
      exact setPhase_possible h (by trivial) j
    · cases hs
      exact setPhase_possible h (by trivial) j
    · cases hs
      exact setPhase_possible h (withoutRecord_possible _ _) j
    · cases hs

/-- **What an ask brings to its reservation** is possible, whatever happened before. -/
theorem recording_possible {host : Composition} {now : ℤ} {es : List Event} {a : Asking}
    {consulted : Option Consulted} (h : run (Plane.step host) (World.initial now) es = some w)
    (hi : w.phase i = .recording a consulted) :
    (consulted.map (·.possible)).getD true = true := by
  have hall := @run_preserves _ _ (Plane.step host) (fun w => ∀ j, (w.phase j).Possible)
  have hphase := hall (fun _ _ _ hw hs => ask_possible hw hs) (fun _ => (by trivial)) h i
  rw [hi] at hphase
  cases consulted with
  | none => rfl
  | some c => exact hphase

end Consultation

/-! ## The exits of an ask -/

namespace AskStage

variable {st st' : AskStage} {fate : CallFate}

/-- What an ask that holds a reservation knows: nothing was consulted, its decision is an allow,
and its grant is prepared. -/
def Sound : AskStage → Prop
  | preparing ask => ask.reservation.isSome →
      ask.consulted = none ∧ ask.asking.verdict.outcome = .allow
  | appending ask grant | reading ask grant | announcing ask grant => ask.reservation.isSome →
      ask.consulted = none ∧ grant.isSome
  | publishingUnsure ask | consumingUnsure ask | publishing ask _ | spending ask _ =>
      ask.reservation = none
  | _ => True

/-- The exits that give the reservation back, or hold none. -/
def Keeps : AskStage → CallFate → Prop
  | reading ask _, fate => ask.reservation.isSome → fate ≠ .escaped
  | announcing ask _, fate => ask.reservation.isSome → fate = .returned
  | delivering _ _ _, fate => fate ≠ .escaped
  | _, _ => True

theorem cancelled_reservation (ask : GrantAsk) :
    (cancelled ask).reservation = ask.reservation ∧ (cancelled ask).Sound := by
  unfold cancelled
  split
  · rename_i r hr
    exact ⟨hr.symm, trivial⟩
  · rename_i hnone
    exact ⟨hnone.symm, trivial⟩

theorem unsureConsumption_reservation {ask : GrantAsk}
    (h : ask.reservation.isSome → ask.consulted = none) :
    (unsureConsumption ask).reservation = ask.reservation ∧ (unsureConsumption ask).Sound := by
  unfold unsureConsumption
  split
  · rename_i hspend
    refine ⟨rfl, ?_⟩
    by_contra hheld
    rw [h (Option.isSome_iff_ne_none.2 hheld)] at hspend
    cases hspend
  · exact cancelled_reservation ask

theorem unsure_reservation {ask : GrantAsk} (h : ask.reservation.isSome → ask.consulted = none) :
    (unsure ask).reservation = ask.reservation ∧ (unsure ask).Sound := by
  unfold unsure
  split
  · rename_i hopened
    refine ⟨rfl, ?_⟩
    by_contra hheld
    rw [h (Option.isSome_iff_ne_none.2 hheld)] at hopened
    cases hopened
  · exact unsureConsumption_reservation h

theorem recorded_reservation {ask : GrantAsk} {grant : Option Grant}
    (h : ask.reservation.isSome → ask.consulted = none ∧ grant.isSome) :
    (recorded ask grant).reservation = ask.reservation ∧ (recorded ask grant).Sound := by
  unfold recorded
  split
  · rename_i hopened
    refine ⟨rfl, ?_⟩
    by_contra hheld
    rw [(h (Option.isSome_iff_ne_none.2 hheld)).1] at hopened
    cases hopened
  · exact ⟨rfl, h⟩

theorem positioned_reservation {ask : GrantAsk} {grant : Option Grant}
    (h : ask.reservation.isSome → ask.consulted = none ∧ grant.isSome) :
    (positioned ask grant).reservation = ask.reservation ∧ (positioned ask grant).Sound := by
  unfold positioned
  split
  · rename_i hspend
    refine ⟨rfl, ?_⟩
    by_contra hheld
    rw [(h (Option.isSome_iff_ne_none.2 hheld)).1] at hspend
    cases hspend
  · exact ⟨rfl, h⟩

theorem answered_reservation {ask : GrantAsk} {grant : Option Grant}
    (h : ask.reservation.isSome → grant.isSome) :
    (answered ask grant).reservation = ask.reservation ∧ (answered ask grant).Sound := by
  unfold answered
  split
  · rename_i r hr
    split
    · exact ⟨hr.symm, trivial⟩
    · exact ⟨hr.symm, trivial⟩
  · rename_i hno
    refine ⟨?_, trivial⟩
    cases hr : ask.reservation with
    | none => rfl
    | some r =>
      obtain ⟨g, hg⟩ := Option.isSome_iff_exists.1 (h (by rw [hr]; rfl))
      exact absurd hr (hno g r hg)

/-- **One call of a collaborator**: the ask keeps its reservation, or leaves by an exit that gives
nothing back. -/
theorem answer_reservation (h : st.Sound) (ha : st.answer fate = some st') :
    st'.Sound ∧ (st'.reservation = st.reservation ∨ st'.reservation = none) ∧
      (st'.reservation = st.reservation ↔ st.Keeps fate) := by
  have hkeeps : ∀ {next : AskStage}, next = st' → next.reservation = st.reservation ∧ next.Sound →
      st.Keeps fate → st'.Sound ∧ (st'.reservation = st.reservation ∨ st'.reservation = none) ∧
        (st'.reservation = st.reservation ↔ st.Keeps fate) := by
    rintro next rfl ⟨hres, hsound⟩ hkeep
    exact ⟨hsound, .inl hres, iff_of_true hres hkeep⟩
  have hleaves : st' = .idle → (st.reservation.isSome ↔ ¬ st.Keeps fate) →
      st'.Sound ∧ (st'.reservation = st.reservation ∨ st'.reservation = none) ∧
        (st'.reservation = st.reservation ↔ st.Keeps fate) := by
    rintro rfl hiff
    refine ⟨trivial, .inr rfl, ?_⟩
    have hnone : (AskStage.idle.reservation = st.reservation) ↔ ¬ st.reservation.isSome := by
      rw [Option.not_isSome_iff_eq_none]
      exact eq_comm
    rw [hnone, hiff, not_not]
  cases st with
  | idle => cases fate <;> cases ha
  | preparing ask => cases fate <;> cases ha
  | appending ask grant => cases fate <;> cases ha
  | cancelling ask r => cases fate <;> cases ha
  | opening grant signalWriter r => cases fate <;> cases ha
  | publishingUnsure ask =>
    have hnone : ask.reservation = none := h
    have hafter := @unsureConsumption_reservation ask fun hheld => by
      rw [hnone] at hheld
      cases hheld
    cases fate with
    | escaped => exact hkeeps (Option.some.inj ha) ⟨hnone.symm, trivial⟩ trivial
    | returned => exact hkeeps (Option.some.inj ha) hafter trivial
    | raised => exact hkeeps (Option.some.inj ha) hafter trivial
  | consumingUnsure ask =>
    have hnone : ask.reservation = none := h
    cases fate with
    | escaped => exact hkeeps (Option.some.inj ha) ⟨hnone.symm, trivial⟩ trivial
    | returned => exact hkeeps (Option.some.inj ha) (cancelled_reservation ask) trivial
    | raised => exact hkeeps (Option.some.inj ha) (cancelled_reservation ask) trivial
  | publishing ask grant =>
    have hnone : ask.reservation = none := h
    have hreading : (reading ask grant).Sound := fun hheld => by
      rw [hnone] at hheld
      cases hheld
    cases fate with
    | escaped => exact hkeeps (Option.some.inj ha) ⟨hnone.symm, trivial⟩ trivial
    | returned => exact hkeeps (Option.some.inj ha) ⟨rfl, hreading⟩ trivial
    | raised => exact hkeeps (Option.some.inj ha) ⟨rfl, hreading⟩ trivial
  | reading ask grant =>
    cases fate with
    | returned => exact hkeeps (Option.some.inj ha) (positioned_reservation h) fun _ => by decide
    | raised =>
      exact hkeeps (Option.some.inj ha) (unsureConsumption_reservation fun hheld => (h hheld).1)
        fun _ => by decide
    | escaped =>
      refine hleaves (Option.some.inj ha).symm ⟨fun hheld hkeep => hkeep hheld rfl, fun hno => ?_⟩
      by_contra hheld
      exact hno fun hf => absurd hf hheld
  | spending ask grant =>
    have hnone : ask.reservation = none := h
    have hannouncing : (announcing ask grant).Sound := fun hheld => by
      rw [hnone] at hheld
      cases hheld
    cases fate with
    | escaped => exact hkeeps (Option.some.inj ha) ⟨hnone.symm, trivial⟩ trivial
    | returned => exact hkeeps (Option.some.inj ha) ⟨rfl, hannouncing⟩ trivial
    | raised => exact hkeeps (Option.some.inj ha) (cancelled_reservation ask) trivial
  | announcing ask grant =>
    have hlost : ∀ {fate}, fate ≠ CallFate.returned →
        (ask.reservation.isSome ↔ ¬ (announcing ask grant).Keeps fate) := by
      intro fate hfate
      refine ⟨fun hheld hkeep => hfate (hkeep hheld), fun hno => ?_⟩
      by_contra hheld
      exact hno fun hf => absurd hf hheld
    cases fate with
    | returned =>
      exact hkeeps (Option.some.inj ha) (answered_reservation fun hheld => (h hheld).2) fun _ => rfl
    | raised => exact hleaves (Option.some.inj ha).symm (hlost (by decide))
    | escaped => exact hleaves (Option.some.inj ha).symm (hlost (by decide))
  | delivering ask grant r =>
    cases fate with
    | returned => exact hkeeps (Option.some.inj ha) ⟨rfl, trivial⟩ fun hf => by cases hf
    | raised => exact hkeeps (Option.some.inj ha) ⟨rfl, trivial⟩ fun hf => by cases hf
    | escaped => exact hleaves (Option.some.inj ha).symm (iff_of_true rfl fun hkeep => hkeep rfl)

end AskStage

/-! ## The law -/

namespace GrantHost

variable {host : Composition} {settings : GrantSettings} {s s' : GrantHost} {i j r : ℕ}
  {p : AskStage} {a : GrantAct}

/-- The counters hold, and no two asks hold one reservation. -/
structure Hosted (s : GrantHost) : Prop where
  counted : s.service.registry.Counted
  sound : ∀ i, (s.stage i).Sound
  holds : ∀ i r, (s.stage i).reservation = some r →
    ∃ uid, s.service.registry.reservations[r]? = some ⟨uid, true⟩
  one : ∀ i j r, (s.stage i).reservation = some r → (s.stage j).reservation = some r → i = j

/-- Every active reservation is held by an ask that is in flight. -/
def Settled (s : GrantHost) : Prop :=
  ∀ r uid, s.service.registry.reservations[r]? = some ⟨uid, true⟩ →
    ∃ i, (s.stage i).reservation = some r

/-- No ask that holds a reservation leaves by an exit that gives nothing back. -/
def Keeps (host : Composition) (settings : GrantSettings) (s : GrantHost) : GrantAct → Prop
  | .prepare i grantId => ∀ ask, s.stage i = .preparing ask → ask.reservation.isSome →
      (prepared host settings ask grantId).isSome
  | .append i fate => ∀ ask grant, s.stage i = .appending ask grant → ask.reservation.isSome →
      fate ≠ .escaped
  | .answer i fate => (s.stage i).Keeps fate
  | _ => True

theorem initial_hosted (limits : GrantLimits) : (initial limits).Hosted where
  counted := GrantConnections.empty_counted limits
  sound _ := trivial
  holds _ _ h := by cases h
  one _ _ _ h := by cases h

theorem setStage_stage : (s.setStage i p).stage j = if j = i then p else s.stage j := rfl

/-- An ask moves on with its reservation, or without. -/
theorem setStage_hosted (h : s.Hosted) (hsound : p.Sound)
    (hres : p.reservation = (s.stage i).reservation ∨ p.reservation = none) :
    (s.setStage i p).Hosted ∧
      (s.Settled → ((s.setStage i p).Settled ↔ p.reservation = (s.stage i).reservation)) := by
  have hold : ∀ {j r}, ((s.setStage i p).stage j).reservation = some r →
      (s.stage j).reservation = some r := by
    intro j r hj
    rw [setStage_stage] at hj
    split at hj
    · rename_i hji
      subst hji
      rcases hres with hsame | hnone
      · rw [← hsame]
        exact hj
      · rw [hnone] at hj
        cases hj
    · exact hj
  refine ⟨⟨h.counted, fun j => ?_, fun j r hj => h.holds j r (hold hj),
    fun j k r hj hk => h.one j k r (hold hj) (hold hk)⟩, fun hset => ⟨fun hset' => ?_, fun hsame r uid hr => ?_⟩⟩
  · rw [setStage_stage]
    split
    · exact hsound
    · exact h.sound j
  · rcases hres with hsame | hnone
    · exact hsame
    · cases hheld : (s.stage i).reservation with
      | none => exact hnone
      | some r =>
        obtain ⟨uid, hr⟩ := h.holds i r hheld
        obtain ⟨j, hj⟩ := hset' r uid hr
        have hji := h.one j i r (hold hj) hheld
        rw [setStage_stage, if_pos hji, hnone] at hj
        cases hj
  · obtain ⟨j, hj⟩ := hset r uid hr
    refine ⟨j, ?_⟩
    rw [setStage_stage]
    split
    · rename_i hji
      rw [hsame, ← hji]
      exact hj
    · exact hj

/-- A slot is taken for an ask, or a call of `open`. -/
theorem reserve_hosted (h : s.Hosted) (hidle : s.stage i = .idle) {uid k : ℕ}
    {registry : GrantConnections}
    (hr : s.service.registry.reserve uid = (some k, registry)) (hsound : p.Sound)
    (hst : p.reservation = some k) :
    (({ s with service := { s.service with registry } }).setStage i p).Hosted ∧
      (s.Settled → (({ s with service := { s.service with registry } }).setStage i p).Settled) := by
  have hcounted := GrantConnections.reserve_counted h.counted hr
  obtain ⟨-, hk, hregistry⟩ := GrantConnections.reserve_some hr
  have hreservations : registry.reservations = s.service.registry.reservations ++ [⟨uid, true⟩] := by
    rw [hregistry]
  have hbefore : ∀ {r : ℕ} {x : GrantReservation}, s.service.registry.reservations[r]? = some x →
      registry.reservations[r]? = some x := by
    intro r x hx
    obtain ⟨hlt, -⟩ := List.getElem?_eq_some_iff.1 hx
    rw [hreservations, List.getElem?_append_left hlt]
    exact hx
  have hmine : registry.reservations[k]? = some ⟨uid, true⟩ := by
    rw [hreservations, hk]
    exact List.getElem?_concat_length
  have hnew : ∀ {j}, (s.stage j).reservation ≠ some k := by
    intro j hj
    obtain ⟨u, hu⟩ := h.holds j k hj
    obtain ⟨hlt, -⟩ := List.getElem?_eq_some_iff.1 hu
    omega
  have hstage : ∀ {j r},
      ((({ s with service := { s.service with registry } }).setStage i p).stage j).reservation
        = some r → (j = i ∧ r = k) ∨ (j ≠ i ∧ (s.stage j).reservation = some r) := by
    intro j r hj
    rw [setStage_stage] at hj
    split at hj
    · rw [hst] at hj
      cases hj
      exact .inl ⟨by assumption, rfl⟩
    · exact .inr ⟨by assumption, hj⟩
  refine ⟨⟨hcounted, fun j => ?_, fun j r hj => ?_, fun j l r hj hl => ?_⟩, fun hset r u hu => ?_⟩
  · rw [setStage_stage]
    split
    · exact hsound
    · exact h.sound j
  · rcases hstage hj with ⟨-, rfl⟩ | ⟨-, hj⟩
    · exact ⟨uid, hmine⟩
    · obtain ⟨u, hu⟩ := h.holds j r hj
      exact ⟨u, hbefore hu⟩
  · rcases hstage hj with ⟨rfl, rfl⟩ | ⟨-, hj⟩
    · rcases hstage hl with ⟨rfl, -⟩ | ⟨-, hl⟩
      · rfl
      · exact absurd hl hnew
    · rcases hstage hl with ⟨-, rfl⟩ | ⟨-, hl⟩
      · exact absurd hj hnew
      · exact h.one j l r hj hl
  · have hu' : registry.reservations[r]? = some ⟨u, true⟩ := hu
    by_cases hrk : r = k
    · refine ⟨i, ?_⟩
      rw [setStage_stage, if_pos rfl, hst, hrk]
    · have hlt : r < s.service.registry.reservations.length := by
        obtain ⟨hlen, -⟩ := List.getElem?_eq_some_iff.1 hu'
        rw [hreservations, List.length_append, List.length_singleton] at hlen
        omega
      rw [hreservations, List.getElem?_append_left hlt] at hu'
      obtain ⟨j, hj⟩ := hset r u hu'
      refine ⟨j, ?_⟩
      rw [setStage_stage, if_neg fun hji => by rw [hji, hidle] at hj; cases hj]
      exact hj

/-- A slot is given back, or opened, by the ask that holds it. -/
theorem release_hosted (h : s.Hosted) (hheld : (s.stage i).reservation = some r) {uid : ℕ}
    {service : GrantService} (hcounted : service.registry.Counted)
    (hres : service.registry.reservations = s.service.registry.reservations.set r ⟨uid, false⟩) :
    (({ s with service }).setStage i .idle).Hosted ∧
      (s.Settled → (({ s with service }).setStage i .idle).Settled) := by
  have hother : ∀ {j k}, (({ s with service }).setStage i .idle |>.stage j).reservation = some k →
      (s.stage j).reservation = some k ∧ k ≠ r := by
    intro j k hj
    rw [setStage_stage] at hj
    split at hj
    · cases hj
    · rename_i hji
      refine ⟨hj, ?_⟩
      rintro rfl
      exact hji (h.one j i _ hj hheld)
  refine ⟨⟨hcounted, fun j => ?_, fun j k hj => ?_, fun j l k hj hl =>
    h.one j l k (hother hj).1 (hother hl).1⟩, fun hset k u hu => ?_⟩
  · rw [setStage_stage]
    split
    · trivial
    · exact h.sound j
  · obtain ⟨hj, hne⟩ := hother hj
    obtain ⟨u, hu⟩ := h.holds j k hj
    refine ⟨u, ?_⟩
    change service.registry.reservations[k]? = _
    rw [hres, List.getElem?_set_ne (Ne.symm hne)]
    exact hu
  · have hu' : service.registry.reservations[k]? = some ⟨u, true⟩ := hu
    have hne : k ≠ r := by
      rintro rfl
      rw [hres, List.getElem?_set_self'] at hu'
      cases hk : s.service.registry.reservations[k]? with
      | none =>
        rw [hk] at hu'
        cases hu'
      | some x =>
        rw [hk] at hu'
        cases hu'
    rw [hres, List.getElem?_set_ne (Ne.symm hne)] at hu'
    obtain ⟨j, hj⟩ := hset k u hu'
    refine ⟨j, ?_⟩
    rw [setStage_stage, if_neg fun hji => ?_]
    · exact hj
    · rw [hji, hheld] at hj
      cases hj
      exact hne rfl

/-- A grant is prepared for a reservation, and only for one. -/
theorem prepared_some {ask : GrantAsk} {grantId : Option Str} {grant : Option Grant}
    (h : prepared host settings ask grantId = some grant) (hheld : ask.reservation.isSome)
    (hsound : (AskStage.preparing ask).Sound) : grant.isSome := by
  obtain ⟨hconsulted, hallow⟩ := hsound hheld
  unfold prepared at h
  split at h
  · cases h
  · unfold prepareGrant at h
    rw [if_neg fun hno => ?_] at h
    · revert h
      generalize mintGrant _ _ _ _ _ _ = minted
      intro h
      cases minted with
      | error message => cases h
      | ok g =>
        cases h
        rfl
    · rcases hno with hno | hno
      · refine hno ?_
        unfold recordedDecision
        dsimp only
        rw [hconsulted]
        exact hallow
      · rw [hno] at hheld
        cases hheld

/-- An ask that may be granted consulted nothing and was allowed by the policy. -/
theorem mayGrant_sound {asking : Asking} {consulted : Option Consulted}
    (hpossible : (consulted.map (·.possible)).getD true = true)
    (hmay : World.mayGrant asking consulted = true) :
    consulted = none ∧ asking.verdict.outcome = .allow := by
  unfold World.mayGrant at hmay
  simp only [Bool.and_eq_true, beq_iff_eq, Bool.not_eq_true'] at hmay
  obtain ⟨hallow, hspend⟩ := hmay
  cases consulted with
  | none => exact ⟨rfl, hallow⟩
  | some c =>
    have houtcome : c.outcome = .allow := hallow
    have hspent : c.spend = false := hspend
    unfold Consulted.possible at hpossible
    simp only [Option.map_some, Option.getD_some, houtcome, hspent, Bool.false_and,
      Bool.false_eq_true] at hpossible

/-- **One act** keeps the counters; it keeps every reservation with an ask just where no ask leaves
with one. -/
theorem step_hosted (h : s.Hosted) (hs : step host settings s a = some s') :
    s'.Hosted ∧ (s.Settled → (s'.Settled ↔ s.Keeps host settings a)) := by
  cases a with
  | service call =>
    simp only [step] at hs
    split at hs
    · cases hs
    · rename_i hcall
      obtain ⟨service, hservice, rfl⟩ := Option.map_eq_some_iff.1 hs
      obtain ⟨hcounted, hres⟩ :=
        GrantService.call_counted h.counted (by simpa using hcall) hservice
      refine ⟨⟨hcounted, h.sound, fun i r hi => ?_, h.one⟩, fun hset => iff_of_true ?_ trivial⟩
      · dsimp only
        rw [hres]
        exact h.holds i r hi
      · intro r uid hr
        dsimp only at hr
        rw [hres] at hr
        exact hset r uid hr
  | sinkRaised t =>
    simp only [step] at hs
    split at hs
    · cases hs
      exact ⟨⟨h.counted, h.sound, h.holds, h.one⟩, fun hset => iff_of_true hset trivial⟩
    · cases hs
  | openGrant i uid grant signalWriter =>
    simp only [step] at hs
    split at hs
    · cases hs
      exact ⟨h, fun hset => iff_of_true hset trivial⟩
    · rename_i k registry hidle hr
      cases hs
      obtain ⟨hhosted, hset⟩ :=
        reserve_hosted (p := .opening grant signalWriter k) h hidle hr trivial rfl
      exact ⟨hhosted, fun hs => iff_of_true (hset hs) trivial⟩
    · cases hs
  | reserve i asking consulted grantConnection signalWriter delivers =>
    simp only [step] at hs
    split at hs
    · rename_i hpossible
      split at hs
      · rename_i hidle
        have hnone : ∀ {ask : GrantAsk}, ask.reservation = none →
            (s.setStage i (.preparing ask)).Hosted ∧ (s.Settled →
              ((s.setStage i (.preparing ask)).Settled ↔ True)) := by
          intro ask hask
          have hres : (AskStage.preparing ask).reservation = (s.stage i).reservation := by
            rw [hidle]
            exact hask
          obtain ⟨hhosted, hset⟩ := setStage_hosted (p := .preparing ask) h
            (fun hheld => by rw [hask] at hheld; cases hheld) (.inl hres)
          exact ⟨hhosted, fun hs => iff_of_true ((hset hs).2 hres) trivial⟩
        split at hs
        · rename_i hmay
          simp only [Bool.and_eq_true] at hmay
          cases hs
          cases hr : s.service.registry.reserve asking.question.principal.uid with
          | mk reservation registry =>
            cases reservation with
            | none =>
              have hsame : registry = s.service.registry := by
                unfold GrantConnections.reserve at hr
                split at hr
                · cases hr
                · cases hr
                  rfl
              rw [hsame]
              exact hnone rfl
            | some k =>
              obtain ⟨hhosted, hset⟩ := reserve_hosted
                (p := .preparing ⟨asking, consulted, some k, signalWriter, delivers⟩) h hidle hr
                (fun _ => mayGrant_sound hpossible hmay.1) rfl
              exact ⟨hhosted, fun hs => iff_of_true (hset hs) trivial⟩
        · cases hs
          exact hnone rfl
      · cases hs
    · cases hs
  | prepare i grantId =>
    simp only [step] at hs
    split at hs
    · rename_i ask hstage
      have hask : (AskStage.preparing ask).Sound := hstage ▸ h.sound i
      have hres : (s.stage i).reservation = ask.reservation := by
        rw [hstage]
        rfl
      have hkeeps : s.Keeps host settings (.prepare i grantId) ↔
          (ask.reservation.isSome → (prepared host settings ask grantId).isSome) := by
        refine ⟨fun hkeep => hkeep ask hstage, fun hkeep ask' hstage' => ?_⟩
        rw [hstage] at hstage'
        cases hstage'
        exact hkeep
      rw [hkeeps]
      split at hs
      · rename_i hraised
        cases hs
        obtain ⟨hhosted, hset⟩ := setStage_hosted (i := i) (p := .idle) h trivial (.inr rfl)
        refine ⟨hhosted, fun hs => (hset hs).trans ?_⟩
        rw [hres, hraised]
        cases ask.reservation with
        | none => exact iff_of_true rfl nofun
        | some r => exact iff_of_false (fun hf => by cases hf) fun hf => by cases hf rfl
      · rename_i grant hprepared
        cases hs
        obtain ⟨hhosted, hset⟩ := setStage_hosted (i := i) (p := .appending ask grant) h
          (fun hheld => ⟨(hask hheld).1, prepared_some hprepared hheld hask⟩) (.inl hres.symm)
        refine ⟨hhosted, fun hs => (hset hs).trans (iff_of_true hres.symm fun _ => ?_)⟩
        rw [hprepared]
        rfl
    · cases hs
  | append i fate =>
    simp only [step] at hs
    split at hs
    · rename_i ask grant hstage
      cases hs
      have hask : (AskStage.appending ask grant).Sound := hstage ▸ h.sound i
      have hres : (s.stage i).reservation = ask.reservation := by
        rw [hstage]
        rfl
      have hkeeps : s.Keeps host settings (.append i fate) ↔
          (ask.reservation.isSome → fate ≠ .escaped) := by
        refine ⟨fun hkeep => hkeep ask grant hstage, fun hkeep ask' grant' hstage' => ?_⟩
        rw [hstage] at hstage'
        cases hstage'
        exact hkeep
      rw [hkeeps]
      have hstays : ∀ {p : AskStage}, p.reservation = ask.reservation ∧ p.Sound →
          fate ≠ .escaped → (s.setStage i p).Hosted ∧ (s.Settled →
            ((s.setStage i p).Settled ↔ (ask.reservation.isSome → fate ≠ .escaped))) := by
        rintro p ⟨hsame, hsound⟩ hfate
        rw [← hres] at hsame
        obtain ⟨hhosted, hset⟩ := setStage_hosted (i := i) h hsound (.inl hsame)
        exact ⟨hhosted, fun hs => (hset hs).trans (iff_of_true hsame fun _ => hfate)⟩
      cases fate with
      | receipt => exact hstays (AskStage.recorded_reservation hask) (by decide)
      | indeterminate =>
        exact hstays (AskStage.unsure_reservation fun hheld => (hask hheld).1) (by decide)
      | raised => exact hstays (AskStage.cancelled_reservation ask) (by decide)
      | escaped =>
        obtain ⟨hhosted, hset⟩ := setStage_hosted (i := i) (p := .idle) h trivial (.inr rfl)
        refine ⟨hhosted, fun hs => (hset hs).trans ?_⟩
        rw [hres]
        cases ask.reservation with
        | none => exact iff_of_true rfl nofun
        | some r => exact iff_of_false (fun hf => by cases hf) fun hf => hf rfl rfl
    · cases hs
  | answer i fate =>
    obtain ⟨p, hst, rfl⟩ := Option.map_eq_some_iff.1 hs
    obtain ⟨hsound, hres, hkeeps⟩ := AskStage.answer_reservation (h.sound i) hst
    obtain ⟨hhosted, hset⟩ := setStage_hosted h hsound hres
    exact ⟨hhosted, fun hs => (hset hs).trans hkeeps⟩
  | cancel i =>
    simp only [step] at hs
    split at hs
    · rename_i ask r hstage
      obtain ⟨service, hservice, rfl⟩ := Option.map_eq_some_iff.1 hs
      have hheld : (s.stage i).reservation = some r := by
        rw [hstage]
        rfl
      obtain ⟨uid, hr⟩ := h.holds i r hheld
      obtain ⟨hcounted, hres⟩ := GrantService.cancelled_counted h.counted hr hservice
      obtain ⟨hhosted, hset⟩ := release_hosted h hheld hcounted hres
      exact ⟨hhosted, fun hs => iff_of_true (hset hs) trivial⟩
    · cases hs
  | openReserved i =>
    simp only [step] at hs
    split at hs
    · rename_i grant signalWriter r hstage
      obtain ⟨service, hservice, rfl⟩ := Option.map_eq_some_iff.1 hs
      have hheld : (s.stage i).reservation = some r := by
        rw [hstage]
        rfl
      obtain ⟨uid, hr⟩ := h.holds i r hheld
      obtain ⟨hcounted, hres, -⟩ := GrantService.opened_counted h.counted hr hservice
      obtain ⟨hhosted, hset⟩ := release_hosted h hheld hcounted hres
      exact ⟨hhosted, fun hs => iff_of_true (hset hs) trivial⟩
    · cases hs

/-- A reservation stays active until the ask that holds it cancels it, or opens it and registers
its grant. -/
theorem step_spends (h : s.Hosted) (hs : step host settings s a = some s') {uid : ℕ}
    (hr : s.service.registry.reservations[r]? = some ⟨uid, true⟩) :
    s'.service.registry.reservations[r]? = some ⟨uid, true⟩ ∨
      ∃ i, (s.stage i).reservation = some r ∧ (a = .cancel i ∨ (a = .openReserved i ∧
        ∃ grant signalWriter, s.stage i = .opening grant signalWriter r ∧
          grant.grantId ∈ s'.service.registry.registered)) := by
  have hreserve : ∀ {u : ℕ} {k : Option ℕ} {registry : GrantConnections},
      s.service.registry.reserve u = (k, registry) →
      registry.reservations[r]? = some ⟨uid, true⟩ := by
    intro u k registry hreserve
    unfold GrantConnections.reserve at hreserve
    split at hreserve
    · cases hreserve
      obtain ⟨hlt, -⟩ := List.getElem?_eq_some_iff.1 hr
      dsimp only
      rw [List.getElem?_append_left hlt]
      exact hr
    · cases hreserve
      exact hr
  have hspent : ∀ {k u : ℕ} {l : List GrantReservation},
      l = s.service.registry.reservations.set k ⟨u, false⟩ → k ≠ r →
      l[r]? = some ⟨uid, true⟩ := by
    rintro k u l rfl hne
    rw [List.getElem?_set_ne hne]
    exact hr
  cases a with
  | service call =>
    simp only [step] at hs
    split at hs
    · cases hs
    · rename_i hcall
      obtain ⟨service, hservice, rfl⟩ := Option.map_eq_some_iff.1 hs
      obtain ⟨-, hres⟩ := GrantService.call_counted h.counted (by simpa using hcall) hservice
      refine .inl ?_
      dsimp only
      rw [hres]
      exact hr
  | sinkRaised t =>
    simp only [step] at hs
    split at hs
    · cases hs
      exact .inl hr
    · cases hs
  | openGrant i u grant signalWriter =>
    simp only [step] at hs
    split at hs
    · cases hs
      exact .inl hr
    · rename_i k registry hidle hreserved
      cases hs
      exact .inl (hreserve hreserved)
    · cases hs
  | reserve i asking consulted grantConnection signalWriter delivers =>
    simp only [step] at hs
    split at hs
    · split at hs
      · split at hs
        · cases hs
          exact .inl (hreserve (Prod.mk.eta (p := s.service.registry.reserve _)).symm)
        · cases hs
          exact .inl hr
      · cases hs
    · cases hs
  | prepare i grantId =>
    simp only [step] at hs
    split at hs
    · split at hs
      · cases hs
        exact .inl hr
      · cases hs
        exact .inl hr
    · cases hs
  | append i fate =>
    simp only [step] at hs
    split at hs
    · cases hs
      exact .inl hr
    · cases hs
  | answer i fate =>
    obtain ⟨p, -, rfl⟩ := Option.map_eq_some_iff.1 hs
    exact .inl hr
  | cancel i =>
    simp only [step] at hs
    split at hs
    · rename_i ask k hstage
      obtain ⟨service, hservice, rfl⟩ := Option.map_eq_some_iff.1 hs
      have hheld : (s.stage i).reservation = some k := by
        rw [hstage]
        rfl
      by_cases hk : k = r
      · exact .inr ⟨i, hk ▸ hheld, .inl rfl⟩
      · obtain ⟨u, hu⟩ := h.holds i k hheld
        obtain ⟨-, hres⟩ := GrantService.cancelled_counted h.counted hu hservice
        exact .inl (hspent hres hk)
    · cases hs
  | openReserved i =>
    simp only [step] at hs
    split at hs
    · rename_i grant signalWriter k hstage
      obtain ⟨service, hservice, rfl⟩ := Option.map_eq_some_iff.1 hs
      have hheld : (s.stage i).reservation = some k := by
        rw [hstage]
        rfl
      obtain ⟨u, hu⟩ := h.holds i k hheld
      obtain ⟨-, hres, hregistered⟩ := GrantService.opened_counted h.counted hu hservice
      by_cases hk : k = r
      · exact .inr ⟨i, hk ▸ hheld, .inr ⟨rfl, grant, signalWriter, hk ▸ hstage, hregistered⟩⟩
      · exact .inl (hspent hres hk)
    · cases hs

/-- The live connections and the reservations are within both limits, and the counters are never
negative and add up. -/
structure Within (r : GrantConnections) : Prop where
  live : ∀ g c, r.connection g = some c → (c.live = true ↔ g ∈ r.registered)
  total : r.registered.length + r.reservedTotal ≤ r.limits.maxConnections
  perPrincipal : ∀ uid, r.registered.countP (r.isOf uid) +
    (r.reservedByPrincipal.lookup uid).getD 0 ≤ r.limits.maxConnectionsPerPrincipal
  nonneg : 0 ≤ r.reservedTotal ∧ ∀ uid n, r.reservedByPrincipal.lookup uid = some n → 0 ≤ n
  sum : tally r.reservedByPrincipal = r.reservedTotal
  /-- They count the reservations that are neither opened nor cancelled. -/
  counts : r.reservedTotal = r.reservations.countP (·.active)

theorem counted_within {r : GrantConnections} (h : r.Counted) : Within r := by
  refine ⟨h.live, ?_, fun uid => ?_, ⟨?_, fun uid n hn => ?_⟩, h.sum, h.total⟩
  · rw [h.total]
    exact_mod_cast h.within
  · rw [h.getD]
    exact_mod_cast h.perPrincipal uid
  · rw [h.total]
    exact Int.natCast_nonneg _
  · rw [h.byPrincipal] at hn
    split at hn
    · cases hn
    · cases hn
      exact Int.natCast_nonneg _

/-- **Grant capacity.** In every run the live connections and the reservations stay within both
limits and the counters add up. Throughout a run every reservation that is neither opened nor
cancelled is held by an ask that is in flight, just where no ask that holds one is left by its
grant's preparation, by the record of its event, or by what `except Exception` does not catch. -/
theorem capacity_kept {limits : GrantLimits} {acts : List GrantAct}
    (h : run (step host settings) (initial limits) acts = some s) :
    Within s.service.registry ∧
    (Throughout (step host settings) Settled (initial limits) acts ↔
      Meets (step host settings) (Keeps host settings) (initial limits) acts) ∧
    ∀ a s', step host settings s a = some s' → ∀ r uid,
      s.service.registry.reservations[r]? = some ⟨uid, true⟩ →
      s'.service.registry.reservations[r]? = some ⟨uid, true⟩ ∨
        ∃ i, (s.stage i).reservation = some r ∧ (a = .cancel i ∨ (a = .openReserved i ∧
          ∃ grant signalWriter, s.stage i = .opening grant signalWriter r ∧
            grant.grantId ∈ s'.service.registry.registered)) := by
  have hstep : ∀ s a s', Hosted s → step host settings s a = some s' → Hosted s' :=
    fun _ _ _ hs ha => (step_hosted hs ha).1
  have hhosted : s.Hosted := run_preserves hstep (initial_hosted limits) h
  have hinitial : (initial limits).Settled := fun _ _ hr => by cases hr
  exact ⟨counted_within hhosted.counted,
    throughout_iff hstep (fun _ _ _ hs hset ha => (step_hosted hs ha).2 hset)
      (initial_hosted limits) hinitial h,
    fun _ _ hs _ _ hr => step_spends hhosted hs hr⟩

/-! ### A record that raises behind the decision -/

section Demo

def mailHost : Composition where
  toml := ⟨fun _ => .error [], fun _ => [], fun _ => []⟩
  sha256 := fun _ => []
  instant := fun _ => []
  maxLifetimeSeconds := 3600
  approvals := false

/-- An ask the policy allows. -/
def mailAsking (now : ℤ) : Asking where
  question := ⟨⟨lit "mail.send", lit "local", none, none⟩, ⟨lit "process", 1001, lit "build", [], [], none⟩⟩
  content := []
  policy := ⟨1, [], []⟩
  verdict := ⟨.allow, .policyAllows, none, none⟩
  decisionRef := lit "d0"
  now := now

/-- A registry of one connection. -/
def oneSlot : GrantLimits := { maxConnections := 1 }

/-- The decision is committed and its event is not recorded. -/
def unrecorded : List GrantAct :=
  [.reserve 0 (mailAsking 0) none true false false, .prepare 0 (some (lit "g0")), .append 0 .receipt,
    .answer 0 .returned, .answer 0 .raised]

/-- The grant would outlive the last instant there is. -/
def unprepared : List GrantAct :=
  [.reserve 0 (mailAsking latestInstant) none true false false, .prepare 0 (some (lit "g0"))]

/-- The one slot is held by nobody, and no ask gets it again. -/
def Leaks (acts : List GrantAct) : Prop :=
  ∃ s, run (step mailHost {}) (initial oneSlot) acts = some s ∧ ¬ s.Settled ∧
    s.service.registry.registered = [] ∧ (s.service.registry.reserve 1001).1 = none

theorem leaks_of {acts : List GrantAct}
    (hread : (run (step mailHost {}) (initial oneSlot) acts).map (fun s =>
      (s.service.registry.reservations, s.service.registry.registered,
        (s.service.registry.reserve 1001).1, (s.stage 0).reservation)) =
      some ([⟨1001, true⟩], [], none, none))
    (hothers : (run (step mailHost {}) (initial oneSlot) acts).map
      (fun s n => (s.stage (n + 1)).reservation) = some fun _ => none) : Leaks acts := by
  obtain ⟨s, hs, hread⟩ := Option.map_eq_some_iff.1 hread
  obtain ⟨hreservations, hread⟩ := Prod.mk.inj hread
  obtain ⟨hregistered, hread⟩ := Prod.mk.inj hread
  obtain ⟨hfull, hzero⟩ := Prod.mk.inj hread
  refine ⟨s, hs, fun hset => ?_, hregistered, hfull⟩
  rw [hs] at hothers
  obtain ⟨i, hi⟩ := hset 0 1001 (by rw [hreservations]; rfl)
  cases i with
  | zero =>
    rw [hzero] at hi
    cases hi
  | succ n =>
    have hnone : (s.stage (n + 1)).reservation = none := congrFun (Option.some.inj hothers) n
    rw [hnone] at hi
    cases hi

theorem slot_leaked : Leaks unrecorded ∧ Leaks unprepared :=
  ⟨leaks_of (by decide +kernel) (by rfl), leaks_of (by decide +kernel) (by rfl)⟩

/-- The answer is delivered and the grant registered. -/
def registered : List GrantAct :=
  [.reserve 0 (mailAsking 0) none true false true, .prepare 0 (some (lit "g0")), .append 0 .receipt,
    .answer 0 .returned, .answer 0 .returned, .answer 0 .returned, .openReserved 0]

theorem capacity_kept_registered : ∃ s,
    run (step mailHost {}) (initial oneSlot) registered = some s ∧
    s.service.registry.registered = [lit "g0"] ∧ Within s.service.registry ∧
    Throughout (step mailHost {}) Settled (initial oneSlot) registered := by
  have hrun : (run (step mailHost {}) (initial oneSlot) registered).map
      (·.service.registry.registered) = some [lit "g0"] := by decide +kernel
  obtain ⟨s, hs, hregistered⟩ := Option.map_eq_some_iff.1 hrun
  obtain ⟨hwithin, hthroughout, -⟩ := capacity_kept hs
  refine ⟨s, hs, hregistered, hwithin, hthroughout.2 ?_⟩
  refine ⟨trivial, fun _ h => ?_⟩
  cases h
  refine ⟨fun ask hask _ => ?_, fun _ h => ?_⟩
  · cases hask
    decide +kernel
  cases h
  refine ⟨fun _ _ _ _ => by decide, fun _ h => ?_⟩
  cases h
  refine ⟨fun _ => by decide, fun _ h => ?_⟩
  cases h
  refine ⟨fun _ => rfl, fun _ h => ?_⟩
  cases h
  refine ⟨fun hf => by (cases hf), fun _ h => ?_⟩
  cases h
  exact ⟨trivial, fun _ _ => trivial⟩

end Demo

end GrantHost

end SayFirst.Plane
