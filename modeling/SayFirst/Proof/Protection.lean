import SayFirst.Spec.Access

/-!
# A protected path is closed to everybody else

The start check walks the names of a path and asks who could write each; the
check of one principal walks them again. Where the first says `protected`, the
second says `not_writable` for whoever is not an administrator.

* `protectionAlong_cons` — what a component of a protected chain satisfies.
* `writeAccessAlong_cons` — such a component gives an outsider nothing.
* `protected_not_writable` — the two checks of a path.
-/

namespace SayFirst.Plane

variable {fs : FileSystem} {admins : Administrators} {uid : ℕ} {gids : List ℕ}

/-- Nobody but the administrators may write the component. -/
structure Closed (admins : Administrators) (metadata : Metadata) (entries : List AclEntry) :
    Prop where
  users : ∀ u ∈ aclWriters entries 0x02, u ∈ admins.allowedOwnerUids
  groups : ∀ g ∈ aclWriters entries 0x08, g ∈ admins.allowedWriteGids
  group : hasBit metadata.mode 0o020 = true → metadata.gid ∈ admins.allowedWriteGids
  others : hasBit metadata.mode 0o002 = false

/-- A principal that is no administrator, and in no group of theirs. -/
structure Outsider (admins : Administrators) (uid : ℕ) (gids : List ℕ) : Prop where
  notRoot : uid ≠ 0
  notOwner : uid ∉ admins.allowedOwnerUids
  disjoint : ∀ g ∈ gids, g ∉ admins.allowedWriteGids

/-! ## One component -/

/-- What the first component of a protected chain satisfies. -/
theorem protectionAlong_cons {first : Bool} {component : Path} {above : List Path}
    (h : (protectionAlong fs admins first (component :: above)).kind = .protected_) :
    ∃ metadata entries, fs.lstat component = some metadata ∧
      aclUnlessALink fs component metadata = some entries ∧
      metadata.uid ∈ admins.allowedOwnerUids ∧
      (metadata.isLink = false → entriesAreReplaceable metadata first = true →
        Closed admins metadata entries) ∧
      (protectionAlong fs admins false above).kind = .protected_ := by
  rw [protectionAlong] at h
  cases hm : fs.lstat component with
  | none => simp [hm] at h
  | some metadata =>
    simp only [hm] at h
    cases he : aclUnlessALink fs component metadata with
    | none => simp [he] at h
    | some entries =>
      simp only [he] at h
      refine ⟨metadata, entries, rfl, he, ?_⟩
      split at h
      · simp at h
      · rename_i howner
        have howner : metadata.uid ∈ admins.allowedOwnerUids := by simpa using howner
        refine ⟨howner, ?_⟩
        split at h
        · rename_i hlink
          exact ⟨fun hn => absurd hlink (by simp [hn]), h⟩
        · split at h
          · split at h
            · simp at h
            · rename_i hacl
              split at h
              · simp at h
              · rename_i hgroup
                split at h
                · simp at h
                · rename_i hother
                  simp only [Bool.or_eq_true, Bool.not_eq_true', not_or, Bool.not_eq_false,
                    List.all_eq_true, List.contains_iff_mem] at hacl
                  refine ⟨fun _ _ => ⟨hacl.1, hacl.2, fun hbit => ?_, ?_⟩, h⟩
                  · simpa [hbit] using hgroup
                  · simpa using hother
          · rename_i hreach
            exact ⟨fun _ hr => absurd hr hreach, h⟩

/-- A sticky directory keeps its entries from one who owns neither. -/
theorem reaches_outsider {first : Bool} {entryUid : Option ℕ} {metadata : Metadata}
    (hdir : uid ≠ metadata.uid) (hentry : entryUid ≠ some uid) :
    reaches uid entryUid first metadata = entriesAreReplaceable metadata first := by
  have hdir : (uid == metadata.uid) = false := beq_false_of_ne hdir
  have hentry : (entryUid == some uid) = false := beq_false_of_ne hentry
  rw [reaches, entriesAreReplaceable, hdir, hentry]

/-- A component owned by an administrator and closed where its entries are
replaceable gives an outsider nothing. -/
theorem writeAccessAlong_cons (ho : Outsider admins uid gids) {first : Bool}
    {entryUid : Option ℕ} {component : Path} {above : List Path} {metadata : Metadata}
    {entries : List AclEntry} (hm : fs.lstat component = some metadata)
    (he : aclUnlessALink fs component metadata = some entries)
    (howner : metadata.uid ∈ admins.allowedOwnerUids)
    (hentry : ∀ u, entryUid = some u → u ∈ admins.allowedOwnerUids)
    (hclosed : metadata.isLink = false → entriesAreReplaceable metadata first = true →
      Closed admins metadata entries) :
    writeAccessAlong fs uid gids entryUid first (component :: above) =
      writeAccessAlong fs uid gids (some metadata.uid) false above := by
  have hdir : uid ≠ metadata.uid := fun heq => ho.notOwner (heq ▸ howner)
  have hne : entryUid ≠ some uid := fun heq => ho.notOwner (hentry uid heq)
  rw [writeAccessAlong]
  simp only [hm, he, if_neg ho.notRoot, if_neg hdir, reaches_outsider hdir hne]
  split
  · rename_i hreach
    rw [Bool.and_eq_true, Bool.not_eq_true'] at hreach
    have hc := hclosed hreach.2 hreach.1
    have husers : (aclWriters entries 0x02).contains uid = false := by
      simpa using fun hmem => ho.notOwner (hc.users uid hmem)
    have hgroups : (aclWriters entries 0x08).any gids.contains = false := by
      simpa using fun g hg hmem => ho.disjoint g hmem (hc.groups g hg)
    have hgroup : (gids.contains metadata.gid && hasBit metadata.mode 0o020) = false := by
      cases hbit : hasBit metadata.mode 0o020 with
      | false => exact Bool.and_false _
      | true => simpa using fun hmem => ho.disjoint _ hmem (hc.group hbit)
    simp only [husers, hgroups, hgroup, hc.others, Bool.or_self, Bool.false_eq_true, if_false]
  · rfl

/-! ## A chain, and a path -/

theorem protected_along (ho : Outsider admins uid gids) {chain : List Path} :
    ∀ {first : Bool} {entryUid : Option ℕ},
      (∀ u, entryUid = some u → u ∈ admins.allowedOwnerUids) →
      (protectionAlong fs admins first chain).kind = .protected_ →
      (writeAccessAlong fs uid gids entryUid first chain).kind = .notWritable := by
  induction chain with
  | nil => intro first entryUid _ _; rfl
  | cons component above ih =>
    intro first entryUid hentry h
    obtain ⟨metadata, entries, hm, he, howner, hclosed, hrest⟩ := protectionAlong_cons h
    rw [writeAccessAlong_cons ho hm he howner hentry hclosed]
    refine ih (fun u hu => ?_) hrest
    rw [← Option.some.inj hu]
    exact howner

/-- What is carried past a chain is never an answer of `protected`. -/
theorem protectionOver_protected {chains : List (List Path)} :
    ∀ {unknown : Option ProtectionVerdict},
      (∀ v, unknown = some v → v.kind = .unknown) →
      (protectionOver fs admins unknown chains).kind = .protected_ →
      unknown = none ∧ ∀ chain ∈ chains, (protectionAlong fs admins true chain).kind = .protected_ := by
  induction chains with
  | nil =>
    intro unknown hu h
    cases unknown with
    | none => exact ⟨rfl, by simp⟩
    | some v => simp [protectionOver, hu v rfl] at h
  | cons chain rest ih =>
    intro unknown hu h
    rw [protectionOver] at h
    cases hk : (protectionAlong fs admins true chain).kind with
    | exposed => simp [hk] at h
    | protected_ =>
      simp only [hk, reduceCtorEq, if_false, false_and] at h
      obtain ⟨hnone, hall⟩ := ih hu h
      exact ⟨hnone, by simpa [hk] using hall⟩
    | unknown =>
      simp only [hk, reduceCtorEq, if_false, true_and] at h
      cases unknown with
      | none =>
        have hcarried := (ih (by rintro v ⟨⟩; exact hk) h).1
        simp at hcarried
      | some v => exact absurd (ih hu (by simpa using h)).1 (by simp)

theorem writeAccessOver_notWritable {chains : List (List Path)}
    (h : ∀ chain ∈ chains, (writeAccessAlong fs uid gids none true chain).kind = .notWritable) :
    (writeAccessOver fs uid gids none chains).kind = .notWritable := by
  induction chains with
  | nil => rfl
  | cons chain rest ih =>
    have hchain := h chain List.mem_cons_self
    simp only [writeAccessOver, hchain, reduceCtorEq, if_false, false_and]
    exact ih fun c hc => h c (List.mem_cons_of_mem _ hc)

/-- A path the start check calls protected is not writable by anybody but root
and the administrators. -/
theorem protected_not_writable (fs : FileSystem) (path : Path) (admins : Administrators)
    (uid : ℕ) (gids : List ℕ) (h : (protection fs path admins).kind = .protected_)
    (howner : uid ∉ admins.allowedOwnerUids) (hroot : uid ≠ 0)
    (hgids : ∀ g ∈ gids, g ∉ admins.allowedWriteGids) :
    (writeAccess fs path uid gids).kind = .notWritable := by
  rw [protection] at h
  rw [writeAccess]
  cases hchains : namingChains fs path with
  | none => simp [hchains] at h
  | some chains =>
    simp only [hchains] at h
    obtain ⟨-, hall⟩ := protectionOver_protected (by simp) h
    refine writeAccessOver_notWritable fun chain hchain => ?_
    exact protected_along ⟨hroot, howner, hgids⟩ (by simp) (hall chain hchain)

/-- A policy under a sticky directory anybody may write, both root's. -/
def stickyHost : FileSystem where
  isSymlink _ := some false
  readlink _ := none
  lstat path :=
    if path = [] then some ⟨0, 0, 0o1777, true, false⟩ else some ⟨0, 0, 0o100640, false, false⟩
  acl _ := some []

theorem protected_not_writable_sticky :
    (writeAccess stickyHost [Py.lit "policy"] 7 [8]).kind = .notWritable :=
  protected_not_writable stickyHost [Py.lit "policy"] ⟨[0], [0]⟩ 7 [8] (by decide) (by decide)
    (by decide) (by decide)

end SayFirst.Plane
