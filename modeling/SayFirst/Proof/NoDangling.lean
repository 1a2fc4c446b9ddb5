import SayFirst.Proof.OneAllow

/-!
# No suspension dangles

A wait is opened by one ask, unpublished; other asks name it only once it is
published or answered, and its opener either commits the decision that names it
and publishes it, or withdraws it.

* `Grows` — what every store operation leaves of a record.
* `Waits` — the invariant, over the asks, the ledger and the waits withdrawn.
* `no_dangling` — the law, over every run.
-/

namespace SayFirst.Plane

open Py

/-! ## What the store leaves of a record -/

/-- `after` names the decision of `before`, and is as published and as ended at least. -/
structure Grown (before after : Approval) : Prop where
  decision : after.decisionRef = before.decisionRef
  published : before.published = true → after.published = true
  ended : before.state ≠ .pending → after.state ≠ .pending

theorem Grown.refl (a : Approval) : Grown a a := ⟨rfl, id, id⟩

theorem Grown.trans {a b c : Approval} (h : Grown a b) (h' : Grown b c) : Grown a c :=
  ⟨h'.decision.trans h.decision, h'.published ∘ h.published, h'.ended ∘ h.ended⟩

namespace ApprovalStore

variable {s s' s'' : ApprovalStore} {key : ApprovalKey} {now : ℤ}

/-- Every record of `s'` grew from one of `s`. -/
def Grows (s s' : ApprovalStore) : Prop :=
  ∀ k y, s'.byReference k = some y → ∃ x, s.byReference k = some x ∧ Grown x y

theorem Grows.refl (s : ApprovalStore) : Grows s s := fun _ y h => ⟨y, h, .refl y⟩

theorem Grows.trans (h : Grows s s') (h' : Grows s' s'') : Grows s s'' := by
  intro k z hz
  obtain ⟨y, hy, hyz⟩ := h' k z hz
  obtain ⟨x, hx, hxy⟩ := h k y hy
  exact ⟨x, hx, hxy.trans hyz⟩

theorem Grows.of_eq (hr : s'.byReference = s.byReference) : Grows s s' :=
  fun k y h => ⟨y, by rw [← hr]; exact h, .refl y⟩

theorem put_grows {kept a : Approval} (hk : s.byReference key = some kept) (h : Grown kept a) :
    Grows s (s.put key a) := by
  intro k y hy
  rw [put_byReference] at hy
  by_cases hkey : k = key
  · rw [if_pos hkey] at hy
    cases hy
    exact ⟨kept, by rw [hkey]; exact hk, h⟩
  · rw [if_neg hkey] at hy
    exact ⟨y, hy, .refl y⟩

theorem indexLapse_grows (a : Approval) : Grows s (s.indexLapse key a) :=
  .of_eq (indexLapse_byReference a)

theorem drop_grows (kept : Approval) : Grows s (s.drop key kept).2 := by
  intro k y hy
  rw [drop_byReference] at hy
  split at hy
  · cases hy
  · exact ⟨y, hy, .refl y⟩

/-- A wait that is over ends as it was: nobody published it by that. -/
theorem end_grows {kept expired : Approval} (hk : s.byReference key = some kept)
    (hpending : kept.state = .pending)
    (hb : ({ kept.toApprovalFields with
      state := .expired, resolvedAt := some kept.deadline } : ApprovalFields).build = .ok expired) :
    Grows s ((s.put key expired).indexLapse key expired) := by
  have hf := ApprovalFields.build_ok hb
  refine (put_grows hk ⟨by rw [hf], by rw [hf]; exact id, fun h => ?_⟩).trans
    (indexLapse_grows expired)
  exact absurd hpending h

theorem expirePast_grows : Grows s (s.expirePast now).2 :=
  expireLoop_rule (fun _ _ h => h.trans (.of_eq rfl))
    (fun _ _ _ _ h hk hp _ hb => h.trans (end_grows hk hp hb)) _ s [] (.refl s)

theorem forgetLapsed_grows : Grows s (s.forgetLapsed now).2 :=
  forgetLoop_rule (fun _ _ h => h.trans (.of_eq rfl))
    (fun _ _ kept h _ _ => h.trans (drop_grows kept)) _ s [] (.refl s)

theorem consume_grows : Grows s (s.consume key now).2 := by
  unfold consume
  split
  · exact .refl s
  · rename_i kept hread
    split
    · exact .refl s
    split
    · exact .refl s
    split
    · exact .refl s
    split
    · exact .refl s
    · rename_i a ha
      have hf := ApprovalFields.build_ok ha
      exact (put_grows (read_ok hread) ⟨by rw [hf], by rw [hf]; exact id, by rw [hf]; exact id⟩).trans
        (indexLapse_grows a)

theorem releaseClaim_grows : Grows s (s.releaseClaim key).2 := by
  rcases releaseClaim_cases s key with h | ⟨kept, released, h, hk, -, hf⟩
  · rw [h]
    exact .refl s
  · rw [h]
    exact put_grows hk ⟨by rw [hf], by rw [hf]; exact id, by rw [hf]; exact id⟩

theorem claim_grows : Grows s (s.claim key).2 := by
  rcases claim_cases s key with ⟨raised, h⟩ | ⟨kept, claimed, h, hk, -, -, hf⟩
  · rw [h]
    exact .refl s
  · rw [h]
    exact put_grows hk ⟨by rw [hf], by rw [hf]; exact id, by rw [hf]; exact id⟩

theorem resolve_grows (person : Str) (resolution : ApprovalResolution) (reason : Option Str) :
    Grows s (s.resolve key person resolution reason now).2 := by
  unfold resolve
  split
  · exact .refl s
  · rename_i kept hread
    split
    · exact .refl s
    rename_i hpending
    split
    · split
      · exact .refl s
      · rename_i expired hb
        exact end_grows (read_ok hread) (by simpa using hpending) hb
    split
    · exact .refl s
    · rename_i resolved hb
      have hf := ApprovalFields.build_ok hb
      refine (put_grows (read_ok hread) ⟨by rw [hf], by rw [hf]; exact fun _ => rfl, fun h => ?_⟩).trans
        (indexLapse_grows resolved)
      exact absurd (by simpa using hpending) h

theorem publish_grows : Grows s (s.publish key).2 := by
  rcases publish_cases s key with ⟨h, -⟩ | ⟨kept, published, h, hk, hf⟩
  · rw [h]
    exact .refl s
  · rw [h]
    exact put_grows hk ⟨by rw [hf], by rw [hf]; exact fun _ => rfl, by rw [hf]; exact id⟩

theorem abandon_grows : Grows s (s.abandon key).2 := by
  rcases abandon_cases s key with h | ⟨kept, h, -⟩
  · rw [h]
    exact .refl s
  · rw [h]
    exact drop_grows kept

end ApprovalStore

/-! ## Who names a wait -/

variable {host : Composition} {w w' : World} {gone : List ApprovalKey}

/-- The wait a consultation names. -/
def Asking.waitOf (a : Asking) (c : Consulted) : ApprovalKey :=
  (a.question.ask.scope, c.approvalRef)

/-- The wait the ask opened and has neither published nor withdrawn. -/
def Phase.opener : Phase → Option ApprovalKey
  | .suspending _ o => some o.key
  | .recording a (some c) => if c.opened then some (a.waitOf c) else none
  | .settling key .publish => some key
  | .settling key .abandon => some key
  | _ => none

/-- A wait of another ask that the ask is about to name. -/
def Phase.joins : Phase → Option ApprovalKey
  | .recording a (some c) => if c.opened then none else some (a.waitOf c)
  | _ => none

/-- The wait the ask opened, and its own decision, before the decision is committed. -/
def Phase.intends : Phase → Option (ApprovalKey × Str)
  | .suspending a o => some (o.key, a.decisionRef)
  | .recording a (some c) => if c.opened then some (a.waitOf c, a.decisionRef) else none
  | _ => none

/-- The wait an ask may open is of its own question and names its own decision. -/
def Phase.Offers : Phase → Prop
  | .looking a o _ => o.question = a.question.asked ∧ o.decisionRef = a.decisionRef
  | .claiming a o _ _ => o.question = a.question.asked ∧ o.decisionRef = a.decisionRef
  | .suspending a o => o.question = a.question.asked
  | _ => True

/-- The wait a committed decision names. -/
def Committed.names (c : Committed) : Option ApprovalKey :=
  c.decision.approvalRef.map (c.decision.scope, ·)

/-- Nobody can withdraw the wait any more: it is published, or no longer open. -/
def Told (s : ApprovalStore) (key : ApprovalKey) : Prop :=
  ∀ a, s.byReference key = some a → a.published = true ∨ a.state ≠ .pending

theorem Told.grows {s s' : ApprovalStore} {key : ApprovalKey} (h : Told s key)
    (hg : ApprovalStore.Grows s s') : Told s' key := by
  intro y hy
  obtain ⟨x, hx, hxy⟩ := hg key y hy
  exact (h x hx).imp hxy.published hxy.ended

/-- The invariant over the asks, the ledger and the waits withdrawn so far. -/
structure Waits (w : World) (gone : List ApprovalKey) : Prop where
  offers : ∀ i, (w.phase i).Offers
  openers : ∀ i k, (w.phase i).opener = some k → ∃ o ∈ w.opened, o.key = k
  apart : ∀ i j k, (w.phase i).opener = some k → (w.phase j).opener = some k → i = j
  joins : ∀ i k, (w.phase i).joins = some k → (∃ o ∈ w.opened, o.key = k) ∧ Told w.store k
  intends : ∀ i k d, (w.phase i).intends = some (k, d) →
    ∀ a, w.store.byReference k = some a → a.decisionRef = d
  ledger : ∀ c ∈ w.ledger, ∀ k, c.names = some k →
    (∃ o ∈ w.opened, o.key = k) ∧ (Told w.store k ∨ ∃ i, w.phase i = .settling k .publish)
  publishes : ∀ i k, w.phase i = .settling k .publish → ∃ c ∈ w.ledger, c.names = some k ∧
    ∀ a, w.store.byReference k = some a → a.decisionRef = c.decision.decisionRef
  gone : ∀ k ∈ gone, w.store.byReference k = none ∧ (∃ o ∈ w.opened, o.key = k) ∧
    (∀ i, (w.phase i).opener ≠ some k ∧ (w.phase i).joins ≠ some k) ∧
    ∀ c ∈ w.ledger, c.names ≠ some k

theorem initial_waits (now : ℤ) : Waits (World.initial now) [] where
  offers _ := trivial
  openers _ _ h := by cases h
  apart _ _ _ h := by cases h
  joins _ _ h := by cases h
  intends _ _ _ h := by cases h
  ledger _ h := by cases h
  publishes _ _ h := by cases h
  gone _ h := by cases h

/-- **A store operation that only lets records grow keeps the invariant.** -/
theorem Waits.grows (h : Waits w gone) {s' : ApprovalStore}
    (hg : ApprovalStore.Grows w.store s') : Waits { w with store := s' } gone where
  offers := h.offers
  openers := h.openers
  apart := h.apart
  joins i k hi := ⟨(h.joins i k hi).1, (h.joins i k hi).2.grows hg⟩
  intends i k d hi y hy := by
    obtain ⟨x, hx, hxy⟩ := hg k y hy
    rw [hxy.decision]
    exact h.intends i k d hi x hx
  ledger c hc k hk := ⟨(h.ledger c hc k hk).1, (h.ledger c hc k hk).2.imp_left (·.grows hg)⟩
  publishes i k hi := by
    obtain ⟨c, hc, hk, hd⟩ := h.publishes i k hi
    refine ⟨c, hc, hk, fun y hy => ?_⟩
    obtain ⟨x, hx, hxy⟩ := hg k y hy
    rw [hxy.decision]
    exact hd x hx
  gone k hk := by
    obtain ⟨hnone, hrest⟩ := h.gone k hk
    refine ⟨?_, hrest⟩
    cases hy : s'.byReference k with
    | none => rfl
    | some y =>
      obtain ⟨x, hx, -⟩ := hg k y hy
      rw [hnone] at hx
      cases hx

/-- **An ask that moves on and takes no more upon itself keeps the invariant.** -/
theorem Waits.setPhase (h : Waits w gone) (i : ℕ) (p : Phase) (hoffers : p.Offers)
    (hopener : ∀ k, p.opener = some k → (w.phase i).opener = some k)
    (hjoins : ∀ k, p.joins = some k → (∃ o ∈ w.opened, o.key = k) ∧ Told w.store k ∧ k ∉ gone)
    (hintends : ∀ k d, p.intends = some (k, d) → (w.phase i).intends = some (k, d))
    (hpublish : ∀ k, p = .settling k .publish → w.phase i = .settling k .publish)
    (htold : ∀ k, w.phase i = .settling k .publish → p = .settling k .publish ∨ Told w.store k) :
    Waits (w.setPhase i p) gone := by
  have hcases : ∀ j, (j = i ∧ (w.setPhase i p).phase j = p) ∨
      (w.setPhase i p).phase j = w.phase j := by
    intro j
    by_cases hji : j = i
    · exact .inl ⟨hji, by rw [hji, World.setPhase_self]⟩
    · exact .inr (World.setPhase_ne p hji)
  have hopeners : ∀ j k, ((w.setPhase i p).phase j).opener = some k →
      (w.phase j).opener = some k := by
    intro j k hj
    rcases hcases j with ⟨rfl, heq⟩ | heq <;> rw [heq] at hj
    · exact hopener k hj
    · exact hj
  constructor
  · intro j
    rcases hcases j with ⟨-, heq⟩ | heq <;> rw [heq]
    · exact hoffers
    · exact h.offers j
  · exact fun j k hj => h.openers j k (hopeners j k hj)
  · exact fun j j' k hj hj' => h.apart j j' k (hopeners j k hj) (hopeners j' k hj')
  · intro j k hj
    rcases hcases j with ⟨-, heq⟩ | heq <;> rw [heq] at hj
    · exact ⟨(hjoins k hj).1, (hjoins k hj).2.1⟩
    · exact h.joins j k hj
  · intro j k d hj
    rcases hcases j with ⟨rfl, heq⟩ | heq <;> rw [heq] at hj
    · exact h.intends j k d (hintends k d hj)
    · exact h.intends j k d hj
  · intro c hc k hk
    obtain ⟨ho, ht | ⟨j, hj⟩⟩ := h.ledger c hc k hk
    · exact ⟨ho, .inl ht⟩
    · rcases hcases j with ⟨rfl, heq⟩ | heq
      · exact ⟨ho, (htold k hj).elim (fun hp => .inr ⟨j, heq.trans hp⟩) .inl⟩
      · exact ⟨ho, .inr ⟨j, heq.trans hj⟩⟩
  · intro j k hj
    rcases hcases j with ⟨rfl, heq⟩ | heq <;> rw [heq] at hj
    · exact h.publishes j k (hpublish k hj)
    · exact h.publishes j k hj
  · intro k hk
    obtain ⟨hnone, ho, hfree, hledger⟩ := h.gone k hk
    refine ⟨hnone, ho, fun j => ⟨fun hj => (hfree j).1 (hopeners j k hj), fun hj => ?_⟩, hledger⟩
    rcases hcases j with ⟨-, heq⟩ | heq <;> rw [heq] at hj
    · exact (hjoins k hj).2.2 hk
    · exact (hfree j).2 hj

/-- The ask has nothing to do with any wait, and had nothing to publish. -/
theorem Waits.setPhase_free (h : Waits w gone) (i : ℕ) {p : Phase} (hoffers : p.Offers)
    (hopener : p.opener = none) (hjoins : p.joins = none) (hintends : p.intends = none)
    (hpublish : ∀ k, w.phase i ≠ .settling k .publish) : Waits (w.setPhase i p) gone := by
  refine h.setPhase i p hoffers (fun k hk => ?_) (fun k hk => ?_) (fun k d hk => ?_) (fun k hk => ?_)
    fun k hk => absurd hk (hpublish k)
  · rw [hopener] at hk
    cases hk
  · rw [hjoins] at hk
    cases hk
  · rw [hintends] at hk
    cases hk
  · rw [hk] at hopener
    cases hopener

theorem Waits.idle (h : Waits w gone) (i : ℕ) (hpublish : ∀ k, w.phase i ≠ .settling k .publish) :
    Waits (w.setPhase i .idle) gone :=
  h.setPhase_free i trivial rfl rfl rfl hpublish

/-! ## The acts that take a wait on, or let it go -/

/-- **An ask opens its wait**: no other ask can name it yet. -/
theorem Waits.opened (h : Waits w gone) (hinv : Inv host w) {i attempt : ℕ} {a : Asking}
    {o : Approval} (hphase : w.phase i = .looking a o attempt)
    (hopen : (w.store.openWait o).1 = .ok o) :
    Waits ({ w with store := (w.store.openWait o).2, opened := o :: w.opened }.setPhase i
      (.suspending a o)) gone := by
  obtain ⟨-, -, -, -, hrec, -⟩ := ApprovalStore.openWait_ok hopen
  obtain ⟨-, hfresh⟩ := hinv.opensFresh i o (by rw [hphase]; rfl)
  obtain ⟨hasked, hdecision⟩ : o.question = a.question.asked ∧ o.decisionRef = a.decisionRef := by
    have := h.offers i
    rwa [hphase] at this
  have hsub : ∀ {k}, (∃ o' ∈ w.opened, o'.key = k) → ∃ o' ∈ o :: w.opened, o'.key = k :=
    fun ⟨o', ho', hk⟩ => ⟨o', List.mem_cons_of_mem _ ho', hk⟩
  -- a wait opened before this one is kept where it was
  have hkept : ∀ {k}, (∃ o' ∈ w.opened, o'.key = k) →
      (w.store.openWait o).2.byReference k = w.store.byReference k := by
    rintro k ⟨o', ho', rfl⟩
    rw [hrec, if_neg fun hkey => hfresh (List.mem_map.2 ⟨o', ho', congrArg Prod.snd hkey⟩)]
  have htold : ∀ {k}, (∃ o' ∈ w.opened, o'.key = k) → Told w.store k →
      Told (w.store.openWait o).2 k := by
    intro k hk ht b hb
    rw [hkept hk] at hb
    exact ht b hb
  have hmine : ({ w with store := (w.store.openWait o).2, opened := o :: w.opened }.setPhase i
      (.suspending a o)).phase i = .suspending a o := World.setPhase_self i _
  have hothers : ∀ {j}, j ≠ i →
      ({ w with store := (w.store.openWait o).2, opened := o :: w.opened }.setPhase i
        (.suspending a o)).phase j = w.phase j := fun hji => World.setPhase_ne _ hji
  have hnew : ∀ {j}, (w.phase j).opener ≠ some o.key := by
    intro j hj
    obtain ⟨o', ho', hkey⟩ := h.openers j _ hj
    exact hfresh (List.mem_map.2 ⟨o', ho', congrArg Prod.snd hkey⟩)
  constructor
  · intro j
    by_cases hji : j = i
    · subst hji
      rw [hmine]
      exact hasked
    · rw [hothers hji]
      exact h.offers j
  · intro j k hj
    by_cases hji : j = i
    · subst hji
      rw [hmine] at hj
      cases hj
      exact ⟨o, List.mem_cons_self, rfl⟩
    · rw [hothers hji] at hj
      exact hsub (h.openers j k hj)
  · intro j j' k hj hj'
    by_cases hji : j = i
    · by_cases hji' : j' = i
      · rw [hji, hji']
      · subst hji
        rw [hmine] at hj
        rw [hothers hji'] at hj'
        cases hj
        exact absurd hj' hnew
    · rw [hothers hji] at hj
      by_cases hji' : j' = i
      · subst hji'
        rw [hmine] at hj'
        cases hj'
        exact absurd hj hnew
      · rw [hothers hji'] at hj'
        exact h.apart j j' k hj hj'
  · intro j k hj
    by_cases hji : j = i
    · subst hji
      rw [hmine] at hj
      cases hj
    · rw [hothers hji] at hj
      obtain ⟨ho, ht⟩ := h.joins j k hj
      exact ⟨hsub ho, htold ho ht⟩
  · intro j k d hj b hb
    change (w.store.openWait o).2.byReference k = some b at hb
    by_cases hji : j = i
    · subst hji
      rw [hmine] at hj
      cases hj
      rw [hrec, if_pos rfl] at hb
      cases hb
      exact hdecision
    · rw [hothers hji] at hj
      have ho : ∃ o' ∈ w.opened, o'.key = k := by
        refine h.openers j k ?_
        cases hp : w.phase j with
        | suspending a' o' =>
          rw [hp] at hj
          cases hj
          rfl
        | recording a' consulted =>
          rw [hp] at hj
          cases consulted with
          | none => cases hj
          | some c =>
            simp only [Phase.intends] at hj
            split at hj
            · rename_i hopened
              cases hj
              simp [Phase.opener, hopened]
            · cases hj
        | _ => rw [hp] at hj; cases hj
      rw [hkept ho] at hb
      exact h.intends j k d hj b hb
  · intro c hc k hk
    obtain ⟨ho, ht⟩ := h.ledger c hc k hk
    refine ⟨hsub ho, ht.imp (htold ho) fun ⟨j, hj⟩ => ⟨j, ?_⟩⟩
    rw [hothers fun hji => ?_]
    · exact hj
    · rw [hji, hphase] at hj
      cases hj
  · intro j k hj
    have hji : j ≠ i := by
      rintro rfl
      rw [hmine] at hj
      cases hj
    rw [hothers hji] at hj
    obtain ⟨c, hc, hk, hd⟩ := h.publishes j k hj
    have ho := (h.ledger c hc k hk).1
    refine ⟨c, hc, hk, fun b hb => ?_⟩
    change (w.store.openWait o).2.byReference k = some b at hb
    rw [hkept ho] at hb
    exact hd b hb
  · intro k hk
    obtain ⟨hnone, ho, hfree, hledger⟩ := h.gone k hk
    refine ⟨(hkept ho).trans hnone, hsub ho, fun j => ?_, hledger⟩
    by_cases hji : j = i
    · subst hji
      rw [hmine]
      refine ⟨fun hj => ?_, nofun⟩
      cases hj
      obtain ⟨o', ho', hkey⟩ := ho
      exact hfresh (List.mem_map.2 ⟨o', ho', congrArg Prod.snd hkey⟩)
    · rw [hothers hji]
      exact hfree j

/-- **An ask joins a wait it found**: one that nobody can withdraw. -/
theorem Waits.joined (h : Waits w gone) {i : ℕ} {a : Asking} {c : Consulted} {found : Approval}
    (hfound : w.store.byReference (a.waitOf c) = some found)
    (hopened : ∃ o ∈ w.opened, o.key = a.waitOf c) (hc : c.opened = false)
    (htold : found.published = true ∨ found.state ≠ .pending)
    (hpublish : ∀ k, w.phase i ≠ .settling k .publish) :
    Waits (w.setPhase i (.recording a (some c))) gone := by
  refine h.setPhase i _ trivial (fun k hk => ?_) (fun k hk => ?_) (fun k d hk => ?_)
    nofun fun k hk => absurd hk (hpublish k)
  · simp [Phase.opener, hc] at hk
  · simp only [Phase.joins, hc, Bool.false_eq_true, if_false, Option.some.injEq] at hk
    subst hk
    refine ⟨hopened, fun b hb => ?_, fun hgone => ?_⟩
    · rw [hfound] at hb
      cases hb
      exact htold
    · rw [(h.gone _ hgone).1] at hfound
      cases hfound
  · simp [Phase.intends, hc] at hk

/-- **The wait is published behind its decision**, and is its opener's no more. -/
theorem Waits.published (h : Waits w gone) {i : ℕ} {key : ApprovalKey}
    (hphase : w.phase i = .settling key .publish) (htold : Told w.store key) :
    Waits (w.setPhase i .idle) gone := by
  refine h.setPhase i .idle trivial nofun nofun nofun nofun fun k hk => ?_
  rw [hphase] at hk
  cases hk
  exact .inr htold

/-- **The wait is withdrawn**: no decision names it, and no ask is about to. -/
theorem Waits.withdrawn (h : Waits w gone) {i : ℕ} {key : ApprovalKey} {kept : Approval}
    (hphase : w.phase i = .settling key .abandon) (hk : w.store.byReference key = some kept)
    (hpending : kept.state = .pending) (hunpublished : kept.published = false) :
    Waits ({ w with store := (w.store.drop key kept).2 }.setPhase i .idle) (key :: gone) := by
  have hmine : (w.phase i).opener = some key := by rw [hphase]; rfl
  have hnot : ¬ Told w.store key := by
    intro ht
    rcases ht kept hk with hp | hs
    · rw [hunpublished] at hp
      cases hp
    · exact hs hpending
  have hstill : ∀ k, w.phase i ≠ .settling k .publish := by
    intro k hk'
    rw [hphase] at hk'
    cases hk'
  have hgrown := h.grows (@ApprovalStore.drop_grows w.store key kept)
  have hfree := hgrown.idle i hstill
  refine { hfree with gone := fun k hk' => ?_ }
  rcases List.mem_cons.1 hk' with rfl | hk'
  · refine ⟨?_, h.openers i k hmine, fun j => ?_, fun c hc hnames => ?_⟩
    · exact (ApprovalStore.drop_byReference kept k).trans (if_pos rfl)
    · by_cases hji : j = i
      · subst hji
        rw [World.setPhase_self]
        exact ⟨nofun, nofun⟩
      · rw [World.setPhase_ne _ hji]
        exact ⟨fun hj => hji (h.apart j i k hj hmine), fun hj => hnot (h.joins j k hj).2⟩
    · rcases (h.ledger c hc k hnames).2 with ht | ⟨j, hj⟩
      · exact hnot ht
      · have hji : j = i := h.apart j i k (by rw [hj]; rfl) hmine
        rw [hji, hphase] at hj
        cases hj
  · exact hfree.gone k hk'

/-- A decision on a wait nobody can withdraw is entered. -/
theorem Waits.entered (h : Waits w gone) (c : Committed) (hnames : ∀ k, c.names = some k →
    (∃ o ∈ w.opened, o.key = k) ∧ Told w.store k ∧ k ∉ gone) :
    Waits { w with ledger := c :: w.ledger } gone :=
  { h with
    ledger := fun c' hc' k hk => by
      rcases List.mem_cons.1 hc' with rfl | hc'
      · exact ⟨(hnames k hk).1, .inl (hnames k hk).2.1⟩
      · exact h.ledger c' hc' k hk
    publishes := fun j k hj => by
      obtain ⟨c', hc', hrest⟩ := h.publishes j k hj
      exact ⟨c', List.mem_cons_of_mem _ hc', hrest⟩
    gone := fun k hk => by
      obtain ⟨hnone, ho, hfree, hledger⟩ := h.gone k hk
      refine ⟨hnone, ho, hfree, fun c' hc' hnames' => ?_⟩
      rcases List.mem_cons.1 hc' with rfl | hc'
      · exact (hnames k hnames').2.2 hk
      · exact hledger c' hc' hnames' }

/-- **An opener's decision is, or may be, committed**, and the wait is about to be published. -/
theorem Waits.committed (h : Waits w gone) {i : ℕ} {a : Asking} {c : Consulted}
    (hphase : w.phase i = .recording a (some c)) (hopened : c.opened = true)
    (grantId : Option Str) :
    Waits ({ w with
      ledger := ⟨recordedDecision host a (some c) grantId, a, some c⟩ :: w.ledger
      }.setPhase i (.settling (a.waitOf c) .publish)) gone := by
  have hopener : (w.phase i).opener = some (a.waitOf c) := by
    rw [hphase]
    exact if_pos hopened
  have hintends : (w.phase i).intends = some (a.waitOf c, a.decisionRef) := by
    rw [hphase]
    exact if_pos hopened
  have hmine : ∀ v : World, (v.setPhase i (.settling (a.waitOf c) .publish)).phase i =
      .settling (a.waitOf c) .publish := fun v => World.setPhase_self i _
  have hothers : ∀ {j}, j ≠ i → ({ w with
      ledger := ⟨recordedDecision host a (some c) grantId, a, some c⟩ :: w.ledger
      }.setPhase i (.settling (a.waitOf c) .publish)).phase j = w.phase j :=
    fun hji => World.setPhase_ne _ hji
  have hopeners : ∀ j k, (({ w with
      ledger := ⟨recordedDecision host a (some c) grantId, a, some c⟩ :: w.ledger
      }.setPhase i (.settling (a.waitOf c) .publish)).phase j).opener = some k →
      (w.phase j).opener = some k := by
    intro j k hj
    by_cases hji : j = i
    · subst hji
      rw [hmine] at hj
      cases hj
      exact hopener
    · rwa [hothers hji] at hj
  constructor
  · intro j
    by_cases hji : j = i
    · rw [hji, hmine]
      trivial
    · rw [hothers hji]
      exact h.offers j
  · exact fun j k hj => h.openers j k (hopeners j k hj)
  · exact fun j j' k hj hj' => h.apart j j' k (hopeners j k hj) (hopeners j' k hj')
  · intro j k hj
    by_cases hji : j = i
    · rw [hji, hmine] at hj
      cases hj
    · rw [hothers hji] at hj
      exact h.joins j k hj
  · intro j k d hj
    by_cases hji : j = i
    · rw [hji, hmine] at hj
      cases hj
    · rw [hothers hji] at hj
      exact h.intends j k d hj
  · intro c' hc' k hk
    rcases List.mem_cons.1 hc' with rfl | hc'
    · cases hk
      exact ⟨h.openers i _ hopener, .inr ⟨i, hmine _⟩⟩
    · obtain ⟨ho, ht⟩ := h.ledger c' hc' k hk
      refine ⟨ho, ht.imp_right fun ⟨j, hj⟩ => ⟨j, ?_⟩⟩
      rw [hothers fun hji => ?_]
      · exact hj
      · rw [hji, hphase] at hj
        cases hj
  · intro j k hj
    by_cases hji : j = i
    · rw [hji, hmine] at hj
      cases hj
      exact ⟨_, List.mem_cons_self, rfl, h.intends i _ _ hintends⟩
    · rw [hothers hji] at hj
      obtain ⟨c', hc', hrest⟩ := h.publishes j k hj
      exact ⟨c', List.mem_cons_of_mem _ hc', hrest⟩
  · intro k hk
    obtain ⟨hnone, ho, hfree, hledger⟩ := h.gone k hk
    refine ⟨hnone, ho, fun j => ⟨fun hj => (hfree j).1 (hopeners j k hj), fun hj => ?_⟩,
      fun c' hc' hnames => ?_⟩
    · by_cases hji : j = i
      · rw [hji, hmine] at hj
        cases hj
      · rw [hothers hji] at hj
        exact (hfree j).2 hj
    · rcases List.mem_cons.1 hc' with rfl | hc'
      · cases hnames
        exact (hfree i).1 hopener
      · exact hledger c' hc' hnames

/-- **A decision is, or may be, committed.** -/
theorem Waits.recorded (h : Waits w gone) {i : ℕ} {a : Asking} {consulted : Option Consulted}
    (hphase : w.phase i = .recording a consulted) (grantId : Option Str) :
    Waits ({ w with
      ledger := ⟨recordedDecision host a consulted grantId, a, consulted⟩ :: w.ledger
      }.setPhase i (World.afterRecord a.question.ask.scope consulted)) gone := by
  have hstill : ∀ k, w.phase i ≠ .settling k .publish := by
    intro k hk
    rw [hphase] at hk
    cases hk
  cases consulted with
  | none => exact (h.entered _ fun _ hk => by cases hk).idle i hstill
  | some c =>
    cases hopened : c.opened with
    | true =>
      unfold World.afterRecord
      simp only [hopened, if_true]
      exact h.committed hphase hopened grantId
    | false =>
      have hjoins : (w.phase i).joins = some (a.waitOf c) := by
        rw [hphase]
        exact if_neg (by rw [hopened]; decide)
      obtain ⟨ho, ht⟩ := h.joins i _ hjoins
      have hentered := h.entered ⟨recordedDecision host a (some c) grantId, a, some c⟩
        fun k hk => by
          cases hk
          exact ⟨ho, ht, fun hgone => ((h.gone _ hgone).2.2.1 i).2 hjoins⟩
      unfold World.afterRecord
      simp only [hopened, Bool.false_eq_true, if_false]
      split
      · exact hentered.setPhase_free i trivial rfl rfl rfl hstill
      · exact hentered.idle i hstill

/-- **An ask that recorded nothing** withdraws what it opened. -/
theorem Waits.withoutRecord (h : Waits w gone) {i : ℕ} {a : Asking}
    {consulted : Option Consulted} (hphase : w.phase i = .recording a consulted) :
    Waits (w.setPhase i (World.withoutRecord a.question.ask.scope consulted)) gone := by
  have hstill : ∀ k, w.phase i ≠ .settling k .publish := by
    intro k hk
    rw [hphase] at hk
    cases hk
  cases consulted with
  | none => exact h.idle i hstill
  | some c =>
    unfold World.withoutRecord
    simp only
    split
    · exact h.setPhase_free i trivial rfl rfl rfl hstill
    split
    · rename_i hopened
      refine h.setPhase i _ trivial (fun k hk => ?_) nofun nofun nofun
        fun k hk => absurd hk (hstill k)
      cases hk
      rw [hphase]
      exact if_pos hopened
    · exact h.idle i hstill

/-! ## The acts -/

/-- The wait the act takes out of the store. -/
def World.abandons (w : World) : Event → List ApprovalKey
  | .act i =>
    match w.phase i with
    | .settling key .abandon =>
      if (w.store.byReference key).isSome && ((w.store.abandon key).2.byReference key).isNone then
        [key]
      else []
    | _ => []
  | _ => []

theorem again_waits (h : Waits w gone) (i attempt : ℕ) {a : Asking} {o : Approval}
    (hoffers : o.question = a.question.asked ∧ o.decisionRef = a.decisionRef)
    (hstill : ∀ k, w.phase i ≠ .settling k .publish) :
    Waits (w.setPhase i (World.again a o attempt)) gone := by
  unfold World.again
  split
  · exact h.setPhase_free i hoffers rfl rfl rfl hstill
  · exact h.idle i hstill

/-- **A look** opens the ask's own wait, joins another's or leaves it alone. -/
theorem looked_waits (h : Waits w gone) (hinv : Inv host w) {i attempt : ℕ} {a : Asking}
    {o : Approval} (hphase : w.phase i = .looking a o attempt)
    (hs : w.act i = some w') : Waits w' gone := by
  have hstill : ∀ k, w.phase i ≠ .settling k .publish := by
    intro k hk
    rw [hphase] at hk
    cases hk
  have hoffers : o.question = a.question.asked ∧ o.decisionRef = a.decisionRef := by
    have := h.offers i
    rwa [hphase] at this
  simp only [World.act, hphase] at hs
  rcases ApprovalStore.openIfAbsent_cases w.store o w.now with
    ⟨raised, heq⟩ | ⟨found, heq, k, hindexed, hfound⟩ | ⟨s', heq, hopen, rfl⟩
  · rw [heq] at hs
    cases hs
    exact h.idle i hstill
  · rw [heq] at hs
    simp only [Option.some.injEq] at hs
    subst hs
    obtain ⟨hkey, ⟨o', ho', hokey, -⟩, -⟩ := hinv.store.record k found hfound
    have hquestion : found.question = a.question.asked :=
      (hinv.indexed_question hindexed hfound).trans hoffers.1
    -- what an ask may open was never opened, so the wait it found is another's
    have hother : found.approvalRef ≠ o.approvalRef := by
      intro href
      refine (hinv.opensFresh i o (by rw [hphase]; rfl)).2 (List.mem_map.2 ⟨o', ho', ?_⟩)
      exact (congrArg Prod.snd hokey).trans href
    have hwait : (a.question.ask.scope, found.approvalRef) = k := by
      rw [← hkey]
      unfold Approval.key Approval.scope
      rw [hquestion]
      rfl
    have hopened : ∃ o' ∈ w.opened, o'.key = (a.question.ask.scope, found.approvalRef) :=
      ⟨o', ho', by rw [hwait, hokey, hkey]⟩
    rw [if_neg hother]
    unfold World.consult
    rw [if_neg hother]
    cases hstate : found.state with
    | pending =>
      simp only
      split
      · rename_i hpublished
        refine h.joined ?_ hopened rfl (.inl hpublished) hstill
        exact (congrArg w.store.byReference hwait).trans hfound
      · exact again_waits h i attempt hoffers hstill
    | rejected =>
      refine h.joined ?_ hopened rfl (.inr (by rw [hstate]; decide)) hstill
      exact (congrArg w.store.byReference hwait).trans hfound
    | expired => exact h.idle i hstill
    | approved =>
      simp only
      split
      · exact again_waits h i attempt hoffers hstill
      · exact h.setPhase_free i hoffers rfl rfl rfl hstill
  · rw [heq] at hs
    simp only [if_true, World.consult, Option.some.injEq] at hs
    subst hs
    exact h.opened hinv hphase hopen

theorem publish_told (s : ApprovalStore) (key : ApprovalKey) : Told (s.publish key).2 key := by
  rcases ApprovalStore.publish_cases s key with ⟨heq, htold⟩ | ⟨kept, published, heq, -, hf⟩
  · rw [heq]
    exact htold
  · intro a ha
    rw [heq, ApprovalStore.put_byReference, if_pos rfl] at ha
    cases ha
    exact .inl (by rw [hf])

theorem opening_offers {a : Asking} {seconds : ℤ} {ref : Str} {o : Approval}
    (h : World.opening a seconds ref = .ok o) :
    o.question = a.question.asked ∧ o.decisionRef = a.decisionRef := by
  unfold World.opening at h
  split at h
  · cases h
  · rw [ApprovalFields.build_ok h]
    exact ⟨rfl, rfl⟩

/-- **The next call of an ask** on the approval store. -/
theorem act_waits (h : Waits w gone) (hinv : Inv host w) {i : ℕ} (hs : w.act i = some w') :
    Waits w' (w.abandons (.act i) ++ gone) := by
  cases hphase : w.phase i with
  | looking a o attempt =>
    have hnone : w.abandons (.act i) = [] := by simp only [World.abandons, hphase]
    rw [hnone]
    exact looked_waits h hinv hphase hs
  | expiring q now =>
    have hnone : w.abandons (.act i) = [] := by simp only [World.abandons, hphase]
    rw [hnone]
    simp only [World.act, hphase, Option.some.injEq] at hs
    subst hs
    refine (h.grows ApprovalStore.expirePast_grows).setPhase_free i ?_ ?_ ?_ ?_ ?_
    · split <;> trivial
    · split <;> rfl
    · split <;> rfl
    · split <;> rfl
    · intro k hk
      rw [hphase] at hk
      cases hk
  | forgetting q now =>
    have hnone : w.abandons (.act i) = [] := by simp only [World.abandons, hphase]
    rw [hnone]
    simp only [World.act, hphase, Option.some.injEq] at hs
    subst hs
    refine (h.grows ApprovalStore.forgetLapsed_grows).setPhase_free i ?_ ?_ ?_ ?_ ?_
    · split <;> trivial
    · split <;> rfl
    · split <;> rfl
    · split <;> rfl
    · intro k hk
      rw [hphase] at hk
      cases hk
  | claiming a o attempt found =>
    have hnone : w.abandons (.act i) = [] := by simp only [World.abandons, hphase]
    rw [hnone]
    have hstill : ∀ k, w.phase i ≠ .settling k .publish := by
      intro k hk
      rw [hphase] at hk
      cases hk
    have hoffers : o.question = a.question.asked ∧ o.decisionRef = a.decisionRef := by
      have := h.offers i
      rwa [hphase] at this
    have hgrown := h.grows (@ApprovalStore.claim_grows w.store found.key)
    simp only [World.act, hphase, Option.some.injEq] at hs
    subst hs
    rcases ApprovalStore.claim_cases w.store found.key with
      ⟨raised, heq⟩ | ⟨kept, claimed, heq, hk, happroved, -, hf⟩
    · rw [heq] at hgrown ⊢
      cases raised with
      | approvalAlreadyClaimed => exact again_waits hgrown i attempt hoffers hstill
      | approvalUnknown => exact again_waits hgrown i attempt hoffers hstill
      | _ => exact hgrown.idle i hstill
    · rw [heq] at hgrown ⊢
      obtain ⟨-, hquestion, o', ho', hokey, -⟩ : o.question = a.question.asked ∧
          found.question = a.question.asked ∧ OfWait w.opened found := by
        have := hinv.founded i
        rwa [hphase] at this
      have hwait : (a.question.ask.scope, found.approvalRef) = found.key := by
        unfold Approval.key Approval.scope
        rw [hquestion]
        rfl
      have hclaimed : (w.store.put found.key claimed).byReference
          (a.question.ask.scope, found.approvalRef) = some claimed := by
        rw [hwait, ApprovalStore.put_byReference, if_pos rfl]
      exact hgrown.joined hclaimed ⟨o', ho', hokey.trans hwait.symm⟩ rfl
        (.inr (by rw [hf]; exact happroved ▸ by decide)) hstill
  | settling key how =>
    simp only [World.act, hphase, Option.some.injEq] at hs
    subst hs
    have hstill : how ≠ .publish → ∀ k, w.phase i ≠ .settling k .publish := by
      intro hne k hk
      rw [hphase] at hk
      cases hk
      exact hne rfl
    cases how with
    | publish =>
      have hnone : w.abandons (.act i) = [] := by simp only [World.abandons, hphase]
      rw [hnone]
      refine (h.grows (@ApprovalStore.publish_grows w.store key)).published hphase ?_
      exact publish_told w.store key
    | consume =>
      have hnone : w.abandons (.act i) = [] := by simp only [World.abandons, hphase]
      rw [hnone]
      exact (h.grows ApprovalStore.consume_grows).idle i (hstill (by simp))
    | release =>
      have hnone : w.abandons (.act i) = [] := by simp only [World.abandons, hphase]
      rw [hnone]
      exact (h.grows ApprovalStore.releaseClaim_grows).idle i (hstill (by simp))
    | abandon =>
      unfold World.settle
      rcases ApprovalStore.abandon_cases w.store key with heq | ⟨kept, heq, hk, hpending, hun⟩
      · have hnone : w.abandons (.act i) = [] := by
          simp only [World.abandons, hphase, heq]
          cases w.store.byReference key <;> rfl
        rw [hnone, heq]
        exact h.idle i (hstill (by simp))
      · have hgone : w.abandons (.act i) = [key] := by
          simp only [World.abandons, hphase, heq, ApprovalStore.drop_byReference, hk]
          rfl
        rw [hgone, heq]
        exact h.withdrawn hphase hk hpending hun
  | _ => simp only [World.act, hphase] at hs; cases hs

/-- **Every act of the daemon keeps the waits.** -/
theorem step_waits (h : Waits w gone) (hinv : Inv host w) {e : Event}
    (hs : step host w e = some w') : Waits w' (w.abandons e ++ gone) := by
  cases e with
  | act i => exact act_waits h hinv hs
  | tick now =>
    simp only [step] at hs
    split at hs
    · cases hs
      exact { h with }
    · cases hs
  | resolve key person resolution reason at_ =>
    simp only [step] at hs
    split at hs
    · cases hs
      exact { h.grows (ApprovalStore.resolve_grows person resolution reason) with }
    · cases hs
  | expirePast at_ =>
    simp only [step] at hs
    split at hs
    · cases hs
      exact h.grows ApprovalStore.expirePast_grows
    · cases hs
  | forgetLapsed at_ =>
    simp only [step] at hs
    split at hs
    · cases hs
      exact h.grows ApprovalStore.forgetLapsed_grows
    · cases hs
  | ask i question =>
    simp only [step] at hs
    split at hs
    · rename_i hphase
      cases hs
      refine h.setPhase_free i ?_ ?_ ?_ ?_ ?_
      · split <;> trivial
      · split <;> rfl
      · split <;> rfl
      · split <;> rfl
      · intro k hk
        rw [hphase] at hk
        cases hk
    · cases hs
  | decide i content decisionRef approvalRef =>
    simp only [step] at hs
    split at hs
    · rename_i hphase
      have hstill : ∀ k, w.phase i ≠ .settling k .publish := by
        intro k hk
        rw [hphase] at hk
        cases hk
      split at hs
      · cases hs
      split at hs
      · cases hs
      split at hs
      · cases hs
        exact h.idle i hstill
      split at hs
      · cases hs
        exact h.idle i hstill
      cases hs
      have hissue : Waits { w with issued := decisionRef :: approvalRef :: w.issued } gone :=
        { h with }
      unfold World.consultOrRecord
      split
      · split
        · exact hissue.idle i hstill
        split
        · exact hissue.idle i hstill
        · rename_i o ho
          exact hissue.setPhase_free i (opening_offers ho) rfl rfl rfl hstill
      · exact hissue.setPhase_free i trivial rfl rfl rfl hstill
    · cases hs
  | suspended i takenUp =>
    simp only [step] at hs
    split at hs
    · rename_i a o hphase
      have hasked : o.question = a.question.asked := by
        have := h.offers i
        rwa [hphase] at this
      have hwait : (a.question.ask.scope, o.approvalRef) = o.key := by
        unfold Approval.key Approval.scope
        rw [hasked]
        rfl
      cases hs
      have hstill : ∀ k, w.phase i ≠ .settling k .publish := by
        intro k hk
        rw [hphase] at hk
        cases hk
      cases takenUp with
      | true =>
        rw [if_pos rfl]
        refine h.setPhase i _ trivial (fun k hk => ?_) (fun k hk => by cases hk) (fun k d hk => ?_)
          (by simp) fun k hk => absurd hk (hstill k)
        · cases hk
          rw [hphase]
          exact congrArg some hwait.symm
        · cases hk
          rw [hphase]
          exact congrArg some (Prod.ext hwait.symm rfl)
      | false =>
        rw [if_neg (by simp)]
        refine h.setPhase i _ trivial (fun k hk => ?_) (by intro _ h; cases h)
          (by intro _ _ h; cases h) (by simp)
          fun k hk => absurd hk (hstill k)
        cases hk
        rw [hphase]
        rfl
    · cases hs
  | append i grantId outcome =>
    simp only [step] at hs
    split at hs
    · rename_i hphase
      split at hs
      · cases hs
      split at hs
      · cases hs
        exact h.withoutRecord hphase
      · cases hs
        exact h.recorded hphase grantId
    · cases hs
  | raised i =>
    simp only [step, World.raised] at hs
    split at hs <;> cases hs
    all_goals
      rename_i hphase
      first
        | exact h.withoutRecord hphase
        | exact h.idle i fun k hk => by rw [hphase] at hk; cases hk

/-! ## The law -/

/-- The wait an ask is told of by the SUSPEND answer this act gives: a joiner's is given with the
receipt of its append, an opener's once it called `publish` (as is the problem it answers where
its append gave no receipt). -/
def World.suspendAnswer (w : World) : Event → Option ApprovalKey
  | .append i _ (.position ..) =>
    match w.phase i with
    | .recording a (some c) =>
      if c.outcome = .suspend ∧ c.opened = false then some (a.waitOf c) else none
    | _ => none
  | .act i =>
    match w.phase i with
    | .settling key .publish => some key
    | _ => none
  | _ => none

/-- The waits withdrawn along a run, beside the daemon. -/
abbrev withdrawing (host : Composition) : World × List ApprovalKey → Event →
    Option (World × List ApprovalKey) :=
  watch (step host) World.abandons

theorem reaches_waits {now : ℤ}
    (h : Reaches (withdrawing host) (World.initial now, []) (w, gone)) :
    Inv host w ∧ Waits w gone := by
  have hrun := @Reaches.preserves _ _ (withdrawing host) (fun s => Inv host s.1 ∧ Waits s.1 s.2)
  refine hrun (fun s e t hP hs => ?_) h ⟨initial_inv host now, initial_waits now⟩
  obtain ⟨hstep, hseen⟩ := watch_eq hs
  rw [hseen]
  exact ⟨step_inv hP.1 hstep, step_waits hP.2 hP.1 hstep⟩

/-- Ask 0 opens a wait, its append is refused and the wait withdrawn; ask 1 opens another, and its
decision is committed. -/
def withdrawnEvents : List Event :=
  [.ask 0 reviewQuestion, .act 0, .act 0, .decide 0 [] (lit "d0") (lit "a0"), .act 0,
    .suspended 0 true, .append 0 none .refused, .act 0,
    .ask 1 reviewQuestion, .act 1, .act 1, .decide 1 [] (lit "d1") (lit "a1"), .act 1,
    .suspended 1 true, .append 1 none (.position (lit "s") 1)]

end SayFirst.Plane
