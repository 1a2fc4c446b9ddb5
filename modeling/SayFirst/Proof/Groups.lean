import SayFirst.Spec.Access

/-!
# No group of a caller is left out

The group ids the self-write checks are given are the peer's own and those the
directory could not name: a group it names is replaced by its name on the way.

* `writeAccess_grants` — a group the check is given is never answered past.
* `groups_checked` — every reported group is checked exactly when no named one,
  other than the peer's own, grants write.
-/

namespace SayFirst.Plane

open Py

variable {fs : FileSystem} {uid gid : ℕ} {gids : List ℕ}

/-- The group may write the file, or replace it through a component of this chain. -/
def grantsAlong (fs : FileSystem) (uid gid : ℕ) (entryUid : Option ℕ) (first : Bool) :
    List Path → Bool
  | [] => false
  | component :: above =>
    match fs.lstat component with
    | none => grantsAlong fs uid gid none false above
    | some metadata =>
      match aclUnlessALink fs component metadata with
      | none => grantsAlong fs uid gid (some metadata.uid) false above
      | some entries =>
        (reaches uid entryUid first metadata && !metadata.isLink &&
            groupWrites metadata entries gid) ||
          grantsAlong fs uid gid (some metadata.uid) false above

/-- The group grants write on the path, through some name of it. -/
def Grants (fs : FileSystem) (path : Path) (uid gid : ℕ) : Prop :=
  ∃ chains, namingChains fs path = some chains ∧
    ∃ chain ∈ chains, grantsAlong fs uid gid none true chain = true

/-- The group grants write on a path a store is graded by. -/
def GrantsStore (facts : List PathFacts) (gid : ℕ) : Prop :=
  ∃ fact ∈ facts, fact.ownerGid = some gid ∧ fact.mode.any (hasBit · 0o020) = true

/-! ## The walk -/

theorem groupWrites_cases {metadata : Metadata} {entries : List AclEntry} (hgid : gid ∈ gids)
    (h : groupWrites metadata entries gid = true) :
    (aclWriters entries 0x08).any gids.contains = true ∨
      (gids.contains metadata.gid && hasBit metadata.mode 0o020) = true := by
  unfold groupWrites at h
  rcases Bool.or_eq_true_iff.1 h with hacl | hmode
  · left
    rw [List.any_eq_true]
    exact ⟨gid, List.contains_iff_mem.1 hacl, List.contains_iff_mem.2 hgid⟩
  · right
    rw [Bool.and_eq_true] at hmode ⊢
    rw [beq_iff_eq.1 hmode.1]
    exact ⟨List.contains_iff_mem.2 hgid, hmode.2⟩

/-- A chain answered `not_writable` has no grant to a group the walk was given. -/
theorem writeAccessAlong_grants (hgid : gid ∈ gids) :
    ∀ {components : List Path} {entryUid : Option ℕ} {first : Bool},
      (writeAccessAlong fs uid gids entryUid first components).kind = .notWritable →
        grantsAlong fs uid gid entryUid first components = false := by
  intro components
  induction components with
  | nil => intro _ _ _; rfl
  | cons component above ih =>
    intro entryUid first h
    unfold writeAccessAlong at h
    unfold grantsAlong
    cases hstat : fs.lstat component with
    | none => rw [hstat] at h; cases h
    | some metadata =>
      rw [hstat] at h
      cases hacl : aclUnlessALink fs component metadata with
      | none => simp only [hacl] at h; cases h
      | some entries =>
        simp only [hacl] at h ⊢
        rw [Bool.or_eq_false_iff]
        by_cases hroot : uid = 0
        · rw [if_pos hroot] at h; cases h
        rw [if_neg hroot] at h
        by_cases hreach : (reaches uid entryUid first metadata && !metadata.isLink) = true
        · rw [if_pos hreach] at h
          rw [hreach, Bool.true_and]
          by_cases howner : uid = metadata.uid
          · rw [if_pos howner] at h; cases h
          rw [if_neg howner] at h
          split at h
          · cases h
          · rename_i hacls
            split at h
            · cases h
            · rename_i hgroup
              split at h
              · cases h
              · refine ⟨Bool.eq_false_iff.2 fun hwrites => ?_, ih h⟩
                rcases groupWrites_cases hgid hwrites with hone | hone
                · exact hacls (by rw [hone, Bool.or_true])
                · exact hgroup hone
        · rw [if_neg hreach] at h
          rw [Bool.eq_false_iff.2 hreach, Bool.false_and]
          exact ⟨rfl, ih h⟩

theorem writeAccessOver_unknown {v : AccessVerdict} (hv : v.kind = .unknown) :
    ∀ {chains : List (List Path)},
      (writeAccessOver fs uid gids (some v) chains).kind ≠ .notWritable := by
  intro chains
  induction chains with
  | nil =>
    intro h
    change v.kind = .notWritable at h
    rw [hv] at h
    cases h
  | cons chain rest ih =>
    simp only [writeAccessOver]
    split
    · rename_i hw
      rw [hw]
      decide
    · rw [if_neg (by simp)]
      exact ih

theorem writeAccessOver_grants (hgid : gid ∈ gids) : ∀ {chains : List (List Path)},
    (writeAccessOver fs uid gids none chains).kind = .notWritable →
      ∀ chain ∈ chains, grantsAlong fs uid gid none true chain = false := by
  intro chains
  induction chains with
  | nil => intro _ chain hchain; cases hchain
  | cons chain rest ih =>
    intro h
    simp only [writeAccessOver] at h
    split at h
    · rename_i hw
      rw [hw] at h
      cases h
    · rename_i hw
      by_cases hu : (writeAccessAlong fs uid gids none true chain).kind = .unknown
      · rw [if_pos ⟨hu, rfl⟩] at h
        exact absurd h (writeAccessOver_unknown hu)
      · rw [if_neg (fun hboth => hu hboth.1)] at h
        have hnot : (writeAccessAlong fs uid gids none true chain).kind = .notWritable := by
          cases hk : (writeAccessAlong fs uid gids none true chain).kind with
          | writable => exact absurd hk hw
          | unknown => exact absurd hk hu
          | notWritable => rfl
        intro chain' hchain'
        rcases List.mem_cons.1 hchain' with rfl | hchain'
        · exact writeAccessAlong_grants hgid hnot
        · exact ih h chain' hchain'

/-- **A group the check is given and that grants write is never answered `not_writable`.** -/
theorem writeAccess_grants {path : Path} (hgid : gid ∈ gids) (hgrants : Grants fs path uid gid) :
    (writeAccess fs path uid gids).kind ≠ .notWritable := by
  intro h
  obtain ⟨chains, hchains, chain, hchain, hgrant⟩ := hgrants
  unfold writeAccess at h
  rw [hchains] at h
  rw [writeAccessOver_grants hgid h chain hchain] at hgrant
  cases hgrant

/-! ## Which groups are given -/

variable {directory : AccountDirectory} {peer : PeerCredential} {kind : Str}

/-- The groups the checks are given: the peer's own and those without a name. -/
theorem mem_deciding : gid ∈ (decidingPrincipal (establish directory peer kind)).gids ↔
    gid = peer.gid ∨
      gid ∈ reportedGids directory peer.uid peer.gid ∧ directory.groupName gid = none := by
  simp only [decidingPrincipal, establish, buildPrincipal, resolveIdentity, List.mem_cons,
    List.mem_filter, Option.isNone_iff_eq_none]

theorem mem_caller : gid ∈ (callerAccess (establish directory peer kind)).gids ↔
    gid ∈ (decidingPrincipal (establish directory peer kind)).gids := Iff.rfl

/-- The self-write checks of one connection. -/
structure Checks where
  fs : FileSystem
  directory : AccountDirectory
  peer : PeerCredential
  kind : Str
  policy : Path
  /-- Whether the policy's name moved under the walk. -/
  moved : Bool
  configuration : Path
  store : List PathFacts

namespace Checks

variable (c : Checks)

def reported : List ℕ := reportedGids c.directory c.peer.uid c.peer.gid

def principal : Principal := decidingPrincipal (establish c.directory c.peer c.kind)

def caller : CallerAccess := callerAccess (establish c.directory c.peer c.kind)

def policyAnswer : AccessVerdict := policyAccess c.fs c.policy c.moved c.principal

def configurationAnswer : AccessVerdict := configurationAccess c.fs c.configuration c.principal

/-- A reported group that grants write is among those each check is computed with, and the
answers and the refusal show it. -/
structure Counted (gid : ℕ) : Prop where
  policy : Grants c.fs c.policy c.peer.uid gid →
    gid ∈ c.principal.gids ∧ c.policyAnswer.kind ≠ .notWritable ∧
      refusedAtAsk c.policyAnswer c.configurationAnswer = some .policyWritableByPrincipal
  configuration : Grants c.fs c.configuration c.peer.uid gid →
    gid ∈ c.principal.gids ∧ c.configurationAnswer.kind ≠ .notWritable ∧
      refusedAtAsk c.policyAnswer c.configurationAnswer ≠ none
  store : GrantsStore c.store gid → gid ∈ c.caller.gids

/-- The group has a name, and is not the peer's own. -/
def Named (gid : ℕ) : Prop := (c.directory.groupName gid).isSome = true ∧ gid ≠ c.peer.gid

def GrantsAny (gid : ℕ) : Prop :=
  Grants c.fs c.policy c.peer.uid gid ∨ Grants c.fs c.configuration c.peer.uid gid ∨
    GrantsStore c.store gid

variable {c}

theorem counted_of_mem (h : gid ∈ c.principal.gids) : c.Counted gid where
  policy hgrants := by
    have hanswer : c.policyAnswer.kind ≠ .notWritable := by
      unfold policyAnswer policyAccess
      split
      · intro h
        cases h
      · exact writeAccess_grants h hgrants
    refine ⟨h, hanswer, ?_⟩
    unfold refusedAtAsk
    rw [if_pos hanswer]
  configuration hgrants := by
    have hanswer : c.configurationAnswer.kind ≠ .notWritable := writeAccess_grants h hgrants
    refine ⟨h, hanswer, ?_⟩
    unfold refusedAtAsk
    rw [if_pos hanswer]
    split <;> simp
  store _ := mem_caller.2 h

/-- **Every reported group is checked exactly when no named group but the peer's own grants
write.** -/
theorem groups_checked (c : Checks) : (∀ gid ∈ c.reported, c.Counted gid) ↔
    ∀ gid ∈ c.reported, c.Named gid → ¬ c.GrantsAny gid := by
  have given : ∀ gid, gid ∈ c.principal.gids ↔
      gid = c.peer.gid ∨ gid ∈ c.reported ∧ c.directory.groupName gid = none :=
    fun gid => mem_deciding
  constructor
  · intro h gid hreported hnamed hgrants
    have hin : gid ∈ c.principal.gids := by
      obtain ⟨hpolicy, hconfiguration, hstore⟩ := h gid hreported
      rcases hgrants with hg | hg | hg
      · exact (hpolicy hg).1
      · exact (hconfiguration hg).1
      · exact mem_caller.1 (hstore hg)
    obtain ⟨hname, hne⟩ := hnamed
    rcases (given gid).1 hin with heq | ⟨-, hnone⟩
    · exact hne heq
    · rw [hnone] at hname
      cases hname
  · intro h gid hreported
    by_cases hin : gid ∈ c.principal.gids
    · exact counted_of_mem hin
    · -- a group that is not given has a name, so it grants nothing
      have hnamed : c.Named gid := by
        have hout := mt (given gid).2 hin
        rw [not_or] at hout
        refine ⟨?_, hout.1⟩
        cases hn : c.directory.groupName gid with
        | none => exact absurd ⟨hreported, hn⟩ hout.2
        | some name => rfl
      have hno := h gid hreported hnamed
      exact ⟨fun hg => absurd (.inl hg) hno, fun hg => absurd (.inr (.inl hg)) hno,
        fun hg => absurd (.inr (.inr hg)) hno⟩

/-- A peer in a group of the directory that may write the policy. -/
def policyWriter : Checks where
  fs :=
    { isSymlink := fun _ => some false
      readlink := fun _ => none
      lstat := fun path =>
        if path = [lit "policy"] then some ⟨0, 2000, 0o100664, false, false⟩
        else some ⟨0, 0, 0o40755, true, false⟩
      acl := fun _ => some [] }
  directory :=
    { account := fun _ => some ⟨lit "alice", 1000⟩
      groupIds := fun _ primary => [primary, 2000]
      groupName := fun gid => if gid = 2000 then some (lit "policy-admins") else none }
  peer := ⟨1000, 1000⟩
  kind := lit "user"
  policy := [lit "policy"]
  moved := false
  configuration := [lit "configuration"]
  store := []

/-- **A group left out**: the directory reports a group that may write the policy, and the
principal is answered `not_writable` and refused nothing. -/
theorem group_left_out :
    2000 ∈ policyWriter.reported ∧ Grants policyWriter.fs policyWriter.policy 1000 2000 ∧
      policyWriter.policyAnswer.kind = .notWritable ∧
      refusedAtAsk policyWriter.policyAnswer policyWriter.configurationAnswer = none := by
  refine ⟨by decide, ⟨_, rfl, chainOf [lit "policy"], ?_, ?_⟩, ?_, ?_⟩ <;> decide +kernel

end Checks

end SayFirst.Plane
