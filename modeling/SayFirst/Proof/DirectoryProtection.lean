import SayFirst.Proof.CannotWrite
import SayFirst.Spec.DirectoryProtection

/-!
# Who can bind an impostor

* `held_of_protected` — what the verdict holds along the path, place by place.
* `breach` — the place at which a path that is not held lets somebody else in.
* `protected_iff_unreached` — a directory is protected exactly where nobody else can reach it.
-/

namespace SayFirst.Plane

open Py
open SayFirst.Posix (Tree Attributes Caller Operation Guarded)

variable {daemonUid : ℕ} {platform : String} {t : Tree Str Bytes} {path : Path} {a : Attributes}
  {c : Caller}

/-! ## What is judged -/

/-- What `facts_of` shows of a place; there are no access lists in the tree. -/
def placeFacts (platform : String) (path : Path) (at_ : Tree Str Bytes) : DirectoryFacts where
  name := 47 :: [47].intercalate path
  mode := at_.attributes.mode
  uid := at_.attributes.owner
  isDirectory := !at_.isFile
  hasAccessAcl := if platform = "linux" then some false else none

/-- `ancestor_facts_of`: the places above a path, nearest first. -/
def ancestorFacts (platform : String) (t : Tree Str Bytes) (path : Path) : List DirectoryFacts :=
  path.inits.dropLast.reverse.filterMap fun above => (t.at_ above).map (placeFacts platform above)

/-- The directory at a path, as `protect_directory` judges it. -/
def isProtectedAt (daemonUid : ℕ) (platform : String) (t : Tree Str Bytes) (path : Path) : Bool :=
  match t.at_ path with
  | none => false
  | some at_ =>
    (directoryProtection daemonUid platform (placeFacts platform path at_)
      (ancestorFacts platform t path)).isProtected

/-! ## What the verdict holds -/

/-- The owner is the daemon's account, or root. -/
def Ours (daemonUid : ℕ) (a : Attributes) : Prop := a.owner = 0 ∨ a.owner = daemonUid

/-- Neither a group nor everybody writes. -/
def ClosedToOthers (a : Attributes) : Prop := a.mode.testBit 4 = false ∧ a.mode.testBit 1 = false

/-- A place above the directory is ours, and lets nobody else at its entries. -/
def HeldAbove (daemonUid : ℕ) (a : Attributes) : Prop :=
  Ours daemonUid a ∧ (a.sticky = true ∨ ClosedToOthers a)

/-- The directory at a path is ours and closed, and what is above it is held. -/
def HeldAlong (daemonUid : ℕ) : Tree Str Bytes → Path → Prop
  | t, [] => t.isFile = false ∧ Ours daemonUid t.attributes ∧ ClosedToOthers t.attributes
  | t, name :: rest => HeldAbove daemonUid t.attributes ∧
      ∃ below, t.child name = some below ∧ HeldAlong daemonUid below rest

theorem hasBit_or (n m k : ℕ) : hasBit n (m ||| k) = (hasBit n m || hasBit n k) := by
  unfold hasBit
  rw [Nat.and_or_distrib_left, Bool.eq_iff_iff]
  simp only [bne_iff_ne, ne_eq, Nat.or_eq_zero_iff, Bool.or_eq_true]
  exact not_and_or

theorem ours_iff : ¬(a.owner ≠ 0 ∧ a.owner ≠ daemonUid) ↔ Ours daemonUid a := by
  unfold Ours
  omega

theorem ancestorProtection_iff {above : Path} {at_ : Tree Str Bytes} :
    ancestorProtection daemonUid platform (placeFacts platform above at_) = none ↔
      HeldAbove daemonUid at_.attributes := by
  have hall : hasBit at_.attributes.mode 0o002 = at_.attributes.mode.testBit 1 := hasBit_testBit _ 1
  have hgroup : hasBit at_.attributes.mode 0o020 = at_.attributes.mode.testBit 4 :=
    hasBit_testBit _ 4
  have hsticky : writeReachesTheEntryBelow at_.attributes.mode true false false =
      !at_.attributes.sticky := by
    unfold writeReachesTheEntryBelow
    rw [show hasBit at_.attributes.mode 0o1000 = at_.attributes.sticky from hasBit_testBit _ 9]
    cases at_.attributes.sticky <;> rfl
  unfold ancestorProtection HeldAbove
  simp only [placeFacts, hall, hgroup, hsticky]
  by_cases howner : at_.attributes.owner ≠ 0 ∧ at_.attributes.owner ≠ daemonUid
  · rw [if_pos howner]
    have hnot : ¬Ours daemonUid at_.attributes := fun h => ours_iff.2 h howner
    simp [hnot]
  · rw [if_neg howner]
    have hours : Ours daemonUid at_.attributes := ours_iff.1 howner
    unfold ClosedToOthers
    cases at_.attributes.sticky <;> cases at_.attributes.mode.testBit 1 <;>
      cases at_.attributes.mode.testBit 4 <;> simp [hours]
    · by_cases hlinux : platform = "linux" <;> simp [hlinux]

/-- No place above is complained of. -/
theorem ancestorsProtection_iff :
    ancestorsProtection daemonUid platform (ancestorFacts platform t path) = none ↔
      ∀ above ∈ path.inits.dropLast, ∀ at_ ∈ t.at_ above, HeldAbove daemonUid at_.attributes := by
  unfold ancestorsProtection ancestorFacts
  rw [List.findSome?_eq_none_iff]
  constructor
  · intro h above habove at_ hat
    refine ancestorProtection_iff.1 (h (placeFacts platform above at_) ?_)
    refine List.mem_filterMap.2 ⟨above, List.mem_reverse.2 habove, ?_⟩
    rw [Option.mem_def.1 hat]
    rfl
  · intro h facts hfacts
    obtain ⟨above, habove, hsome⟩ := List.mem_filterMap.1 hfacts
    obtain ⟨at_, hat, rfl⟩ := Option.map_eq_some_iff.1 hsome
    exact ancestorProtection_iff.2 (h above (List.mem_reverse.1 habove) at_ hat)

theorem directoryProtection_iff {at_ : Tree Str Bytes} {ancestors : List DirectoryFacts} :
    (directoryProtection daemonUid platform (placeFacts platform path at_)
        ancestors).isProtected = true ↔
      (at_.isFile = false ∧ Ours daemonUid at_.attributes ∧ ClosedToOthers at_.attributes) ∧
        ancestorsProtection daemonUid platform ancestors = none := by
  have hbits : hasBit at_.attributes.mode (0o020 ||| 0o002) =
      (at_.attributes.mode.testBit 4 || at_.attributes.mode.testBit 1) := by
    rw [hasBit_or]
    exact congrArg₂ _ (hasBit_testBit _ 4) (hasBit_testBit _ 1)
  have hread : ¬(platform = "linux" ∧ (placeFacts platform path at_).hasAccessAcl = none) := by
    rintro ⟨hlinux, hnone⟩
    simp [placeFacts, hlinux] at hnone
  have hnone : ¬(platform = "linux" ∧ (placeFacts platform path at_).hasAccessAcl = some true) := by
    rintro ⟨hlinux, hsome⟩
    simp [placeFacts, hlinux] at hsome
  unfold directoryProtection
  simp only [if_neg hread, if_neg hnone]
  simp only [placeFacts, hbits, Bool.not_not]
  cases hfile : at_.isFile with
  | true => simp [DirectoryVerdict.isProtected, refusedDirectory]
  | false =>
    by_cases howner : at_.attributes.owner ≠ 0 ∧ at_.attributes.owner ≠ daemonUid
    · have hnot : ¬Ours daemonUid at_.attributes := fun h => ours_iff.2 h howner
      simp [howner, hnot, DirectoryVerdict.isProtected, refusedDirectory]
    · have hours : Ours daemonUid at_.attributes := ours_iff.1 howner
      unfold ClosedToOthers
      rw [if_neg Bool.false_ne_true, if_neg howner]
      cases at_.attributes.mode.testBit 4 <;> cases at_.attributes.mode.testBit 1 <;>
        cases ancestorsProtection daemonUid platform ancestors <;>
          simp [hours, DirectoryVerdict.isProtected, refusedDirectory]

/-- The places above a longer path. -/
theorem above_cons {name : Str} {rest : Path} {P : Path → Prop} :
    (∀ above ∈ (name :: rest).inits.dropLast, P above) ↔
      P [] ∧ ∀ above ∈ rest.inits.dropLast, P (name :: above) := by
  have hinits : (name :: rest).inits.dropLast = [] :: (rest.inits.dropLast).map (name :: ·) := by
    rw [List.inits_cons, List.dropLast_cons_of_ne_nil (by cases rest <;> simp),
      List.map_dropLast]
  rw [hinits, List.forall_mem_cons, List.forall_mem_map]

theorem heldAlong_iff : HeldAlong daemonUid t path ↔
    ∃ at_, t.at_ path = some at_ ∧
      (at_.isFile = false ∧ Ours daemonUid at_.attributes ∧ ClosedToOthers at_.attributes) ∧
        ∀ above ∈ path.inits.dropLast, ∀ at_ ∈ t.at_ above, HeldAbove daemonUid at_.attributes := by
  induction path generalizing t with
  | nil => simp [HeldAlong, Tree.at_]
  | cons name rest ih =>
    rw [HeldAlong]
    simp only [above_cons, Tree.at_, Option.mem_def]
    cases hchild : t.child name with
    | none => simp
    | some below =>
      simp only [Option.some.injEq, exists_eq_left', Option.bind_some, ih, Option.mem_def]
      constructor
      · rintro ⟨habove, at_, hat, hheld, hrest⟩
        exact ⟨at_, hat, hheld, fun at_' hat' => hat' ▸ habove, hrest⟩
      · rintro ⟨at_, hat, hheld, habove, hrest⟩
        exact ⟨habove t rfl, at_, hat, hheld, hrest⟩

/-- **What the verdict holds**: our directory, and the way to it. -/
theorem held_of_protected : isProtectedAt daemonUid platform t path = true ↔
    HeldAlong daemonUid t path := by
  rw [heldAlong_iff]
  unfold isProtectedAt
  cases hat : t.at_ path with
  | none => simp
  | some at_ =>
    simp only [directoryProtection_iff, ancestorsProtection_iff, Option.some.injEq, exists_eq_left']

/-! ## Nobody else reaches it -/

/-- Anybody but root and the daemon's account, in whatever groups. -/
def Stranger (daemonUid : ℕ) (c : Caller) : Prop := c.uid ≠ 0 ∧ c.uid ≠ daemonUid

/-- However strangers take turns, the path names the same directory, with the same entries. -/
def Unreached (daemonUid : ℕ) (t : Tree Str Bytes) (path : Path) : Prop :=
  ∀ operations : List (Caller × Operation Str Bytes), (∀ o ∈ operations, Stranger daemonUid o.1) →
    SameFile t (t.afterAll operations) path

theorem Stranger.ne_owner (hc : Stranger daemonUid c) (h : Ours daemonUid a) : c.uid ≠ a.owner := by
  intro heq
  rcases h with h | h
  · exact hc.1 (heq.trans h)
  · exact hc.2 (heq.trans h)

theorem class_bit (n i : ℕ) {j : ℕ} (hj : j < 3) :
    (n / 2 ^ i % 8).testBit j = n.testBit (i + j) := by
  have h8 : (8 : ℕ) = 2 ^ 3 := rfl
  rw [h8, Nat.testBit_mod_two_pow, Nat.testBit_div_two_pow, decide_eq_true hj, Bool.true_and,
    Nat.add_comm]

/-- What a class of callers may write, by the bit of the mode. -/
theorem mayWrite_of_ne (hne : c.uid ≠ a.owner) :
    a.mayWrite c = if a.group ∈ c.groups then a.mode.testBit 4 else a.mode.testBit 1 := by
  unfold Attributes.mayWrite Attributes.bits
  rw [if_neg hne]
  split
  · exact class_bit a.mode 3 (by omega)
  · have hothers := class_bit a.mode 0 (j := 1) (by omega)
    rw [Nat.pow_zero, Nat.div_one] at hothers
    exact hothers

theorem ClosedToOthers.not_mayWrite (h : ClosedToOthers a) (hne : c.uid ≠ a.owner) :
    a.mayWrite c = false := by
  rw [mayWrite_of_ne hne]
  split
  · exact h.1
  · exact h.2

theorem HeldAlong.ours (h : HeldAlong daemonUid t path) : Ours daemonUid t.attributes := by
  cases path with
  | nil => exact h.2.1
  | cons name rest => exact h.1.1

/-- A path that is held is guarded against every stranger. -/
theorem HeldAlong.guarded (h : HeldAlong daemonUid t path) (hc : Stranger daemonUid c) :
    (t.at_ path).isSome ∧ Guarded c t path := by
  induction path generalizing t with
  | nil =>
    obtain ⟨-, hours, hclosed⟩ := h
    have hne := hc.ne_owner hours
    exact ⟨rfl, by rw [hclosed.not_mayWrite hne]; simp, hne⟩
  | cons name rest ih =>
    obtain ⟨⟨hours, hheld⟩, below, hchild, hbelow⟩ := h
    obtain ⟨hthere, hguarded⟩ := ih hbelow
    have hne := hc.ne_owner hours
    have hentry := hc.ne_owner hbelow.ours
    refine ⟨?_, below, hchild, fun hwrites => ?_, fun _ => hguarded⟩
    · rw [Tree.at_, hchild]
      exact hthere
    · have hwrite := hwrites.resolve_right hne
      rcases hheld with hsticky | hclosed
      · -- the stranger owns neither the sticky directory nor the entry below it
        unfold Attributes.yields
        simp [hsticky, hne, hentry]
      · rw [hclosed.not_mayWrite hne] at hwrite
        cases hwrite

theorem unreached_of_held (h : HeldAlong daemonUid t path) : Unreached daemonUid t path := by
  intro operations hstrangers
  have hguarded : ∀ o ∈ operations, Guarded o.1 t path :=
    fun o ho => (h.guarded (hstrangers o ho)).2
  have hthere : (t.at_ path).isSome := by
    obtain ⟨at_, hat, -⟩ := heldAlong_iff.1 h
    rw [hat]
    rfl
  exact (Posix.guarded_afterAll hguarded hthere).at_end

/-! ## Somebody reaches the rest -/

/-- Every class may search. -/
def OpenToSearch (a : Attributes) : Prop :=
  a.mode.testBit 0 = true ∧ a.mode.testBit 3 = true ∧ a.mode.testBit 6 = true

/-- Everybody comes as far as the path leads. -/
def Searchable : Tree Str Bytes → Path → Prop
  | t, [] => OpenToSearch t.attributes
  | t, name :: rest => OpenToSearch t.attributes ∧ ∀ below ∈ t.child name, Searchable below rest

instance : Decidable (OpenToSearch a) :=
  inferInstanceAs (Decidable (a.mode.testBit 0 = true ∧ _ ∧ _))

instance decidableSearchable : ∀ (t : Tree Str Bytes) (path : Path), Decidable (Searchable t path)
  | t, [] => inferInstanceAs (Decidable (OpenToSearch t.attributes))
  | t, name :: rest =>
    haveI := fun below => decidableSearchable below rest
    inferInstanceAs (Decidable (OpenToSearch t.attributes ∧
      ∀ below ∈ t.child name, Searchable below rest))

theorem OpenToSearch.maySearch (h : OpenToSearch a) (c : Caller) : a.maySearch c = true := by
  unfold Attributes.maySearch Attributes.bits
  split
  · exact (class_bit a.mode 6 (by omega)).trans h.2.2
  split
  · exact (class_bit a.mode 3 (by omega)).trans h.2.1
  · have hothers := class_bit a.mode 0 (j := 0) (by omega)
    rw [Nat.pow_zero, Nat.div_one] at hothers
    exact hothers.trans h.1

theorem Searchable.reachable {directory rest : Path} {at_ : Tree Str Bytes}
    (h : Searchable t (directory ++ rest)) (hat : t.at_ directory = some at_) (c : Caller) :
    t.reachable c directory = true ∧ Searchable at_ rest := by
  induction directory generalizing t with
  | nil =>
    cases hat
    exact ⟨rfl, h⟩
  | cons name directory ih =>
    obtain ⟨hopen, hbelow⟩ := h
    unfold Tree.at_ at hat
    cases hchild : t.child name with
    | none =>
      rw [hchild] at hat
      cases hat
    | some below =>
      rw [hchild] at hat
      obtain ⟨hreach, hrest⟩ := ih (hbelow below hchild) hat
      refine ⟨?_, hrest⟩
      unfold Tree.reachable
      rw [hopen.maySearch c, hchild]
      exact hreach

theorem Searchable.opens (h : Searchable t path) : OpenToSearch t.attributes := by
  cases path with
  | nil => exact h
  | cons name rest => exact h.1

/-- A place that is not closed is written by some stranger. -/
theorem writer_of_not_closed (daemonUid : ℕ) (h : ¬ClosedToOthers a) :
    ∃ c : Caller, Stranger daemonUid c ∧ a.mayWrite c = true := by
  have hfresh : ∀ groups, Stranger daemonUid ⟨daemonUid + a.owner + 1, groups⟩ := by
    intro groups
    constructor
    · show daemonUid + a.owner + 1 ≠ 0
      omega
    · show daemonUid + a.owner + 1 ≠ daemonUid
      omega
  have hne : daemonUid + a.owner + 1 ≠ a.owner := by omega
  cases hgroup : a.mode.testBit 4 with
  | true =>
    refine ⟨⟨daemonUid + a.owner + 1, [a.group]⟩, hfresh _, ?_⟩
    rw [mayWrite_of_ne hne, if_pos (List.mem_singleton_self _), hgroup]
  | false =>
    have hall : a.mode.testBit 1 = true := by
      by_contra hall
      exact h ⟨hgroup, by simpa using hall⟩
    refine ⟨⟨daemonUid + a.owner + 1, []⟩, hfresh _, ?_⟩
    rw [mayWrite_of_ne hne, if_neg List.not_mem_nil, hall]

/-- A place of another's, or one that others write and that does not keep what is below it. -/
def Breached (daemonUid : ℕ) (a : Attributes) (rest : Path) : Prop :=
  ¬Ours daemonUid a ∨ ¬ClosedToOthers a ∧ (rest = [] ∨ a.sticky = false)

/-- **Where a path is not held, somebody else is let in at one place of it.** -/
theorem breach {entries : List (Str × Tree Str Bytes)} (hdir : t.at_ path = some (.dir a entries))
    (h : ¬HeldAlong daemonUid t path) :
    ∃ above rest, path = above ++ rest ∧ ∃ b entries, t.at_ above = some (.dir b entries) ∧
      Breached daemonUid b rest := by
  induction path generalizing t with
  | nil =>
    cases hdir
    refine ⟨[], [], rfl, a, entries, rfl, ?_⟩
    by_cases hours : Ours daemonUid a
    · exact .inr ⟨fun hclosed => h ⟨rfl, hours, hclosed⟩, .inl rfl⟩
    · exact .inl hours
  | cons name rest ih =>
    cases t with
    | file b content => cases hdir
    | dir b entries' =>
      unfold Tree.at_ at hdir
      cases hchild : Tree.child (.dir b entries') name with
      | none =>
        rw [hchild] at hdir
        cases hdir
      | some below =>
        rw [hchild] at hdir
        by_cases hheld : HeldAbove daemonUid b
        · -- nothing is let in here, so it is below
          have hbelow : ¬HeldAlong daemonUid below rest :=
            fun hrest => h ⟨hheld, below, hchild, hrest⟩
          obtain ⟨above, rest', rfl, b', entries'', hat, hbreached⟩ := ih hdir hbelow
          refine ⟨name :: above, rest', rfl, b', entries'', ?_, hbreached⟩
          rw [Tree.at_, hchild]
          exact hat
        · refine ⟨[], name :: rest, rfl, b, entries', rfl, ?_⟩
          by_cases hours : Ours daemonUid b
          · refine .inr ⟨fun hclosed => hheld ⟨hours, .inr hclosed⟩, .inr ?_⟩
            by_contra hsticky
            exact hheld ⟨hours, .inl (by simpa using hsticky)⟩
          · exact .inl hours

theorem fresh_name (a : Attributes) (entries : List (Str × Tree Str Bytes)) :
    ∃ name, (∀ entry ∈ entries, entry.1 ≠ name) ∧ Tree.child (.dir a entries) name = none := by
  have hlonger : ∃ n, ∀ entry ∈ entries, entry.1.length < n := by
    induction entries with
    | nil => exact ⟨0, fun entry hentry => by cases hentry⟩
    | cons first entries ih =>
      obtain ⟨n, hn⟩ := ih
      refine ⟨n + first.1.length + 1, fun entry hentry => ?_⟩
      rcases List.mem_cons.1 hentry with rfl | hentry
      · omega
      · have := hn entry hentry
        omega
  obtain ⟨n, hn⟩ := hlonger
  have hne : ∀ entry ∈ entries, entry.1 ≠ List.replicate n 0 := by
    intro entry hentry heq
    have := hn entry hentry
    rw [heq, List.length_replicate] at this
    omega
  exact ⟨List.replicate n 0, hne, Posix.child_of_ne hne⟩

theorem stranger_owner (h : ¬Ours daemonUid a) : Stranger daemonUid ⟨a.owner, []⟩ :=
  ⟨fun hroot => h (.inl hroot), fun hdaemon => h (.inr hdaemon)⟩

/-- The directory itself: another owner changes its mode, and whoever writes it adds an entry. -/
theorem reached_at_end {entries : List (Str × Tree Str Bytes)} (hsearch : Searchable t path)
    (hat : t.at_ path = some (.dir a entries)) (h : ¬Ours daemonUid a ∨ ¬ClosedToOthers a) :
    ¬Unreached daemonUid t path := by
  intro hunreached
  rw [← List.append_nil path] at hsearch
  have hreach := fun c => (hsearch.reachable hat c).1
  have hopen : OpenToSearch a := (hsearch.reachable hat ⟨0, []⟩).2
  by_cases hours : Ours daemonUid a
  · have hclosed : ¬ClosedToOthers a := h.resolve_left (not_not_intro hours)
    obtain ⟨c, hstranger, hwrite⟩ := writer_of_not_closed daemonUid hclosed
    obtain ⟨name, hnew, hfree⟩ := fresh_name a entries
    obtain ⟨last, last', hlast, hlast', -, hholds⟩ :=
      hunreached [(c, .create path name (.file a []))] (by simpa using hstranger)
    have hafter : (t.afterAll [(c, .create path name (.file a []))]).at_ path =
        some (Tree.putEntry name (.file a []) (.dir a entries)) := by
      rw [Posix.afterAll_one, Posix.step_create (hreach c) hat (hopen.maySearch c) hwrite hfree,
        Posix.at_modify_self, hat]
      rfl
    rw [hat] at hlast
    rw [hafter] at hlast'
    obtain rfl := Option.some.inj hlast
    obtain rfl := Option.some.inj hlast'
    -- the new entry is none of the old ones
    have hmem : (name, a.inode) ∈ entries.map fun entry => (entry.1, entry.2.attributes.inode) := by
      rw [Sum.inr.inj hholds]
      exact List.mem_cons_self
    obtain ⟨entry, hentry, heq⟩ := List.mem_map.1 hmem
    exact hnew entry hentry (Prod.mk.inj heq).1
  · obtain ⟨last, last', hlast, hlast', hattributes, -⟩ :=
      hunreached [(⟨a.owner, []⟩, .chmod path (a.mode + 1))] (by simpa using stranger_owner hours)
    have hafter : (t.afterAll [(⟨a.owner, []⟩, .chmod path (a.mode + 1))]).at_ path =
        some (.dir { a with mode := a.mode + 1 } entries) := by
      rw [Posix.afterAll_one, Posix.step_chmod (hreach _) hat rfl, Posix.at_modify_self, hat]
      rfl
    rw [hat] at hlast
    rw [hafter] at hlast'
    obtain rfl := Option.some.inj hlast
    obtain rfl := Option.some.inj hlast'
    have hmode : a.mode = a.mode + 1 := congrArg Attributes.mode hattributes
    omega

/-- A directory above it: whoever writes it takes the way away, and another owner may first make it
one that he writes. -/
theorem reached_above {above rest : Path} {name : Str} {entries : List (Str × Tree Str Bytes)}
    (hsearch : Searchable t (above ++ name :: rest)) (hat : t.at_ above = some (.dir a entries))
    (hthere : (t.at_ (above ++ name :: rest)).isSome)
    (h : ¬Ours daemonUid a ∨ ¬ClosedToOthers a ∧ a.sticky = false) :
    ¬Unreached daemonUid t (above ++ name :: rest) := by
  intro hunreached
  have hreach := fun c => (hsearch.reachable hat c).1
  have hopen : OpenToSearch a := (hsearch.reachable hat ⟨0, []⟩).2.opens
  obtain ⟨below, hbelow⟩ : ∃ below, Tree.child (.dir a entries) name = some below := by
    rw [Posix.at_append, hat, Option.bind_some, Tree.at_] at hthere
    cases hchild : Tree.child (.dir a entries) name with
    | some below => exact ⟨below, rfl⟩
    | none =>
      rw [hchild] at hthere
      cases hthere
  by_cases hours : Ours daemonUid a
  · obtain ⟨hclosed, hsticky⟩ := h.resolve_left (not_not_intro hours)
    obtain ⟨c, hstranger, hwrite⟩ := writer_of_not_closed daemonUid hclosed
    have hyields : a.yields c below.attributes.owner = true := by
      unfold Attributes.yields
      rw [hsticky]
      rfl
    obtain ⟨last, last', -, hlast', -⟩ :=
      hunreached [(c, .unlink above name)] (by simpa using hstranger)
    have hgone : (t.step c (.unlink above name)).at_ (above ++ name :: rest) = none :=
      Posix.unlinked (hreach c) hat (hopen.maySearch c) hwrite hbelow hyields
    rw [Posix.afterAll_one, hgone] at hlast'
    cases hlast'
  · obtain ⟨last, last', -, hlast', -⟩ :=
      hunreached [(⟨a.owner, []⟩, .chmod above 0o777), (⟨a.owner, []⟩, .unlink above name)]
        (by simpa using stranger_owner hours)
    have hchmod := Posix.step_chmod (hreach ⟨a.owner, []⟩) hat rfl 0o777
    have hat' : (t.modify (Tree.setMode 0o777) above).at_ above =
        some (.dir { a with mode := 0o777 } entries) := by
      rw [Posix.at_modify_self, hat]
      rfl
    have hreach' : (t.modify (Tree.setMode 0o777) above).reachable ⟨a.owner, []⟩ above = true := by
      rw [Posix.reachable_modify]
      exact hreach _
    have hbits : Attributes.bits { a with mode := 0o777 } ⟨a.owner, []⟩ = 7 := by
      unfold Attributes.bits
      rw [if_pos rfl]
      show 0o777 / 64 % 8 = 7
      omega
    have hsearch' : Attributes.maySearch { a with mode := 0o777 } ⟨a.owner, []⟩ = true := by
      unfold Attributes.maySearch
      rw [hbits]
      rfl
    have hwrite' : Attributes.mayWrite { a with mode := 0o777 } ⟨a.owner, []⟩ = true := by
      unfold Attributes.mayWrite
      rw [hbits]
      rfl
    have hyields : Attributes.yields { a with mode := 0o777 } ⟨a.owner, []⟩
        below.attributes.owner = true := by
      have hplain : Nat.testBit 0o777 9 = false := by decide
      unfold Attributes.yields Attributes.sticky
      simp only [hplain, Bool.not_false, Bool.true_or]
    have hgone : ((t.modify (Tree.setMode 0o777) above).step ⟨a.owner, []⟩
        (.unlink above name)).at_ (above ++ name :: rest) = none :=
      Posix.unlinked hreach' hat' hsearch' hwrite' hbelow hyields
    have hafter : ((t.step ⟨a.owner, []⟩ (.chmod above 0o777)).step ⟨a.owner, []⟩
        (.unlink above name)).at_ (above ++ name :: rest) = some last' := hlast'
    rw [hchmod, hgone] at hafter
    cases hafter

theorem directory_of_any (h : (t.at_ path).any (!·.isFile) = true) :
    ∃ a entries, t.at_ path = some (.dir a entries) := by
  cases hat : t.at_ path with
  | none =>
    rw [hat] at h
    cases h
  | some at_ =>
    rw [hat] at h
    cases at_ with
    | file a content => cases h
    | dir a entries => exact ⟨a, entries, rfl⟩

/-- **A protected directory is held against everybody else, and no other one is.** Whatever
strangers do, and in whatever order they do it, the path of a protected directory names the same
directory, with the same entries; and where everybody may search the way to a directory that is not
protected, some of them can change what is there. -/
theorem protected_iff_unreached (daemonUid : ℕ) (platform : String) (t : Tree Str Bytes)
    (path : Path) :
    (isProtectedAt daemonUid platform t path = true → Unreached daemonUid t path) ∧
      (Searchable t path → (t.at_ path).any (!·.isFile) = true → Unreached daemonUid t path →
        isProtectedAt daemonUid platform t path = true) := by
  refine ⟨fun h => unreached_of_held (held_of_protected.1 h), fun hsearch hdir hunreached => ?_⟩
  rw [held_of_protected]
  by_contra hheld
  obtain ⟨a, entries, hat⟩ := directory_of_any hdir
  obtain ⟨above, rest, rfl, b, entries', habove, hbreached⟩ := breach hat hheld
  cases rest with
  | nil =>
    rw [List.append_nil] at hsearch hunreached
    exact reached_at_end hsearch habove (hbreached.imp_right And.left) hunreached
  | cons name rest =>
    refine reached_above hsearch habove (by rw [hat]; rfl) ?_ hunreached
    exact hbreached.imp_right fun h => ⟨h.1, h.2.resolve_left (List.cons_ne_nil _ _)⟩

/-- The directory of a socket of the account 1001, with this mode. -/
def runTree (mode : ℕ) : Tree Str Bytes :=
  .dir ⟨2, 0, 0, 0o755⟩ [(lit "run", .dir ⟨3, 0, 0, 0o755⟩
    [(lit "sayfirst", .dir ⟨4, 1001, 1001, mode⟩
      [(lit "control.sock", .file ⟨5, 1001, 1001, 0o666⟩ [])])])]

/-- Two strangers, one of them in the group of the daemon, go for the socket and its directory; and
the group is enough where it may write. -/
theorem protected_iff_unreached_run :
    SameFile (runTree 0o755) ((runTree 0o755).afterAll
        [(⟨1000, [1001]⟩, .unlink [lit "run", lit "sayfirst"] (lit "control.sock")),
          (⟨1002, []⟩, .rename [lit "run"] (lit "sayfirst") [lit "run"] (lit "old"))])
        [lit "run", lit "sayfirst"] ∧
      ¬Unreached 1001 (runTree 0o775) [lit "run", lit "sayfirst"] := by
  constructor
  · have hprotected :
        isProtectedAt 1001 "linux" (runTree 0o755) [lit "run", lit "sayfirst"] = true := by decide
    refine (protected_iff_unreached 1001 "linux" (runTree 0o755) _).1 hprotected _ ?_
    simp [Stranger]
  · intro hunreached
    have hsearch : Searchable (runTree 0o775) [lit "run", lit "sayfirst"] := by decide
    have hprotected := (protected_iff_unreached 1001 "linux" (runTree 0o775) _).2 hsearch
      (by decide) hunreached
    revert hprotected
    decide

end SayFirst.Plane
