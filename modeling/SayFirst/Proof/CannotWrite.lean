import SayFirst.Lib.JsonText
import SayFirst.Lib.PosixTree
import SayFirst.Spec.Access

/-!
# Who cannot write

* `guarded_of_cannot_write` — a path graded `caller_cannot_write` is guarded against the caller.
* `weakestClaim_spec` — the claim over several chains, from the claims of each.
* `cannot_write_sound` — what the claim says of the files the chains lead to, behind any run of the
  caller's operations.
-/

namespace SayFirst.Plane

open Py
open SayFirst.Posix (Tree Attributes Operation Guarded)

variable {t : Tree Str Bytes} {caller : CallerAccess} {path : Path}

/-! ## What is inspected -/

/-- What a path of the tree shows; there are no access lists in it. -/
def factsOf (t : Tree Str Bytes) (path : Path) : PathFacts :=
  match t.at_ path with
  | none => ⟨false, none, none, none, none⟩
  | some at_ =>
    ⟨true, some at_.attributes.owner, some at_.attributes.group, some at_.attributes.mode, some false⟩

/-- The facts of a path and of every directory above it, the root first. -/
def chainFacts (t : Tree Str Bytes) (path : Path) : List PathFacts := path.inits.map (factsOf t)

/-- The caller, as the operating system sees it. -/
def CallerAccess.posix (caller : CallerAccess) : Posix.Caller := ⟨caller.uid, caller.gids⟩

def knownOf (a : Attributes) : KnownFacts := ⟨a.owner, a.group, a.mode⟩

theorem and_seven (n : ℕ) : n &&& 7 = n % 8 := Nat.and_two_pow_sub_one_eq_mod n 3

theorem classBits_knownOf (a : Attributes) : classBits caller (knownOf a) = a.bits caller.posix := by
  unfold classBits knownOf Attributes.bits CallerAccess.posix
  simp only [and_seven, Nat.shiftRight_eq_div_pow, List.contains_iff_mem]

theorem hasBit_testBit (n i : ℕ) : hasBit n (2 ^ i) = n.testBit i := by
  unfold hasBit
  cases hbit : n.testBit i with
  | true =>
    have hand : (n &&& 2 ^ i).testBit i = true := by simp [hbit]
    have hne : n &&& 2 ^ i ≠ 0 := by
      intro hzero
      rw [hzero, Nat.zero_testBit] at hand
      cases hand
    simpa using hne
  | false =>
    have hzero : n &&& 2 ^ i = 0 := by
      refine Nat.eq_of_testBit_eq fun j => ?_
      rw [Nat.testBit_and, Nat.testBit_two_pow, Nat.zero_testBit]
      by_cases hj : i = j
      · rw [← hj, hbit]
        rfl
      · simp [hj]
    rw [hzero]
    rfl

theorem writes_knownOf (a : Attributes) :
    hasBit (classBits caller (knownOf a)) 2 = a.mayWrite caller.posix := by
  rw [classBits_knownOf]
  exact hasBit_testBit _ 1

theorem searches_knownOf (a : Attributes) :
    hasBit (classBits caller (knownOf a)) 1 = a.maySearch caller.posix := by
  rw [classBits_knownOf]
  exact hasBit_testBit _ 0

theorem reaches_knownOf (a : Attributes) (entryOwner : ℕ) :
    writeReachesTheEntryBelow (knownOf a).mode true (caller.uid == a.owner)
      (entryOwner == caller.uid) = a.yields caller.posix entryOwner := by
  unfold writeReachesTheEntryBelow Attributes.yields Attributes.sticky
  rw [show hasBit (knownOf a).mode 0o1000 = a.mode.testBit 9 from hasBit_testBit _ 9,
    Bool.beq_comm (a := entryOwner)]
  cases a.mode.testBit 9 <;> simp [CallerAccess.posix]

/-! ## One chain -/

theorem factsOf_child {name : Str} {below : Tree Str Bytes} (h : t.child name = some below)
    (rest : Path) : factsOf t (name :: rest) = factsOf below rest := by
  have hat : t.at_ (name :: rest) = below.at_ rest := by
    rw [Tree.at_, h]
    rfl
  unfold factsOf
  rw [hat]

theorem chainFacts_cons {name : Str} {below : Tree Str Bytes} (h : t.child name = some below)
    (rest : Path) : chainFacts t (name :: rest) = factsOf t [] :: chainFacts below rest := by
  unfold chainFacts
  rw [List.inits_cons, List.map_cons, List.map_map]
  exact congrArg (factsOf t [] :: ·) (List.map_congr_left fun path _ => factsOf_child h path)

theorem known_factsOf : (factsOf t []).known = some (knownOf t.attributes) := rfl

/-- What a fact and the facts below it come to, where all of them are known. -/
theorem mapM_known_cons {fact : PathFacts} {facts : List PathFacts} {known : List KnownFacts} :
    (fact :: facts).mapM PathFacts.known = some known ↔
      ∃ first rest, fact.known = some first ∧ facts.mapM PathFacts.known = some rest ∧
        known = first :: rest := by
  rw [List.mapM_cons]
  simp only [Option.bind_eq_bind, Option.bind_eq_some_iff, Option.pure_def, Option.some.injEq]
  constructor
  · rintro ⟨first, hfirst, rest, hrest, rfl⟩
    exact ⟨first, rest, hfirst, hrest, rfl⟩
  · rintro ⟨first, rest, hfirst, hrest, rfl⟩
    exact ⟨first, hfirst, rest, hrest, rfl⟩

theorem known_of_mem {facts : List PathFacts} {known : List KnownFacts}
    (h : facts.mapM PathFacts.known = some known) {fact : PathFacts} (hmem : fact ∈ facts) :
    fact.known ≠ none := by
  induction facts generalizing known with
  | nil => cases hmem
  | cons first facts ih =>
    obtain ⟨known', rest, hfirst, hrest, -⟩ := mapM_known_cons.1 h
    rcases List.mem_cons.1 hmem with rfl | hmem
    · rw [hfirst]
      simp
    · exact ih hrest hmem

/-- The facts of a tree and of what stands below it, where all of them are known. -/
theorem known_cons {name : Str} {rest : Path} {known : List KnownFacts}
    (h : (chainFacts t (name :: rest)).mapM PathFacts.known = some known) :
    ∃ below known', t.child name = some below ∧ known = knownOf t.attributes :: known' ∧
      (chainFacts below rest).mapM PathFacts.known = some known' := by
  cases hchild : t.child name with
  | none =>
    exfalso
    have hmem : factsOf t (name :: rest) ∈ chainFacts t (name :: rest) :=
      List.mem_map_of_mem ((List.mem_inits _ _).2 List.prefix_rfl)
    have hnot : (factsOf t (name :: rest)).known = none := by
      unfold factsOf
      rw [Tree.at_, hchild]
      rfl
    exact known_of_mem h hmem hnot
  | some below =>
    rw [chainFacts_cons hchild] at h
    obtain ⟨first, known', hfirst, hknown', rfl⟩ := mapM_known_cons.1 h
    cases hfirst
    exact ⟨below, known', rfl, rfl, hknown'⟩

/-- The facts of a chain begin with those of its root. -/
theorem known_head {known : List KnownFacts}
    (h : (chainFacts t path).mapM PathFacts.known = some known) :
    ∃ rest, known = knownOf t.attributes :: rest := by
  cases path with
  | nil =>
    obtain ⟨first, rest, hfirst, -, rfl⟩ := mapM_known_cons.1 h
    cases hfirst
    exact ⟨rest, rfl⟩
  | cons name path =>
    obtain ⟨below, rest, -, hknown, -⟩ := known_cons h
    exact ⟨rest, hknown⟩

theorem there_of_known {known : List KnownFacts}
    (h : (chainFacts t path).mapM PathFacts.known = some known) : (t.at_ path).isSome := by
  induction path generalizing t known with
  | nil => rfl
  | cons name path ih =>
    obtain ⟨below, rest, hchild, -, hrest⟩ := known_cons h
    rw [Tree.at_, hchild]
    exact ih hrest

/-- A chain no path of which is writable is guarded. -/
theorem guarded_of_unwritable {known : List KnownFacts} {index : ℕ}
    (h : (chainFacts t path).mapM PathFacts.known = some known)
    (hnone : writableAt caller index known = none) : Guarded caller.posix t path := by
  induction path generalizing t known index with
  | nil =>
    have hknown : known = [knownOf t.attributes] := by
      obtain ⟨first, rest, hfirst, hrest, rfl⟩ := mapM_known_cons.1 h
      cases hfirst
      cases hrest
      rfl
    rw [hknown, writableAt] at hnone
    simp only [writes_knownOf, searches_knownOf, Bool.and_true] at hnone
    split at hnone
    · cases hnone
    · rename_i hnot
      simp only [Bool.or_eq_true, not_or, beq_iff_eq] at hnot
      exact ⟨hnot.2, hnot.1⟩
  | cons name path ih =>
    obtain ⟨below, rest, hchild, rfl, hrest⟩ := known_cons h
    obtain ⟨behind, rfl⟩ := known_head hrest
    rw [writableAt] at hnone
    simp only [writes_knownOf, searches_knownOf] at hnone
    split at hnone
    · cases hnone
    · rename_i hnot
      refine ⟨below, hchild, fun hmay hyields => hnot ?_, fun hsearch => ?_⟩
      · rw [Bool.and_eq_true, Bool.or_eq_true, beq_iff_eq]
        exact ⟨hmay.symm, (reaches_knownOf _ _).trans hyields⟩
      · rw [if_pos hsearch] at hnone
        exact ih hrest hnone

theorem guarded_of_cannot_write
    (h : (evaluateGrade caller (chainFacts t path)).basis = "caller_cannot_write") :
    (t.at_ path).isSome ∧ Guarded caller.posix t path := by
  unfold evaluateGrade at h
  split at h
  · simp at h
  · split at h
    · simp at h
    · rename_i known hknown
      split at h
      · simp at h
      · split at h
        · simp at h
        · rename_i hnone
          exact ⟨there_of_known hknown, guarded_of_unwritable hknown hnone⟩

/-! ## Several chains -/

/-- What a grade of one chain can be. -/
theorem evaluateGrade_cases (caller : CallerAccess) (facts : List PathFacts) :
    (evaluateGrade caller facts).basis = "caller_can_write" ∧
        (evaluateGrade caller facts).grade = .observability ∨
      ((evaluateGrade caller facts).basis = "access_not_established" ∨
        (evaluateGrade caller facts).basis = "caller_cannot_write") ∧
        (evaluateGrade caller facts).grade = .unverified := by
  unfold evaluateGrade
  split
  · exact Or.inl ⟨rfl, rfl⟩
  · split
    · exact Or.inr ⟨Or.inl rfl, rfl⟩
    · split
      · exact Or.inr ⟨Or.inl rfl, rfl⟩
      · split
        · exact Or.inl ⟨rfl, rfl⟩
        · exact Or.inr ⟨Or.inr rfl, rfl⟩

/-- The claim over several chains. -/
def gradeOf (caller : CallerAccess) (chains : List (List PathFacts)) : GradeEvaluation :=
  weakestClaim (chains.map (evaluateGrade caller))

theorem find_basis {evaluations : List GradeEvaluation} {basis : String} :
    (∃ item, evaluations.find? (·.basis == basis) = some item ∧ item ∈ evaluations ∧
      item.basis = basis) ∨
    evaluations.find? (·.basis == basis) = none ∧ ∀ item ∈ evaluations, item.basis ≠ basis := by
  cases hfind : evaluations.find? (·.basis == basis) with
  | some item =>
    exact Or.inl ⟨item, rfl, List.mem_of_find?_eq_some hfind, by
      simpa using List.find?_some hfind⟩
  | none =>
    refine Or.inr ⟨rfl, fun item hmem hbasis => ?_⟩
    simpa [hbasis] using List.find?_eq_none.1 hfind item hmem

/-- The claim has the basis of the first kind some chain has. -/
theorem weakestClaim_cases (evaluations : List GradeEvaluation) :
    (∃ item ∈ evaluations, item.basis = "caller_can_write" ∧
      (weakestClaim evaluations).basis = "caller_can_write" ∧
      (weakestClaim evaluations).grade = item.grade) ∨
    (∀ item ∈ evaluations, item.basis ≠ "caller_can_write") ∧
      ((∃ item ∈ evaluations, item.basis = "access_not_established" ∧
        (weakestClaim evaluations).basis = "access_not_established" ∧
        (weakestClaim evaluations).grade = item.grade) ∨
      (∀ item ∈ evaluations, item.basis ≠ "access_not_established") ∧
        ((∃ item ∈ evaluations, item.basis = "caller_cannot_write" ∧
          (weakestClaim evaluations).basis = "caller_cannot_write" ∧
          (weakestClaim evaluations).grade = item.grade) ∨
        (weakestClaim evaluations).basis = "access_not_established" ∧
          (weakestClaim evaluations).grade = .unverified)) := by
  unfold weakestClaim
  simp only [List.findSome?_cons, List.findSome?_nil]
  rcases find_basis with
    ⟨item, hfind, hmem, hbasis⟩ | ⟨hfind, hnone⟩
  · exact Or.inl ⟨item, hmem, hbasis, by rw [hfind]; exact ⟨rfl, rfl⟩⟩
  · refine Or.inr ⟨hnone, ?_⟩
    rcases find_basis with
      ⟨item, hfind', hmem, hbasis⟩ | ⟨hfind', hnone'⟩
    · exact Or.inl ⟨item, hmem, hbasis, by rw [hfind, hfind']; exact ⟨rfl, rfl⟩⟩
    · refine Or.inr ⟨hnone', ?_⟩
      rcases find_basis with
        ⟨item, hfind'', hmem, hbasis⟩ | ⟨hfind'', -⟩
      · exact Or.inl ⟨item, hmem, hbasis, by rw [hfind, hfind', hfind'']; exact ⟨rfl, rfl⟩⟩
      · exact Or.inr (by rw [hfind, hfind', hfind'']; exact ⟨rfl, rfl⟩)

/-- Where the claim is that the caller cannot write, it is the claim of every chain. -/
theorem every_cannot_write {chains : List (List PathFacts)}
    (h : (gradeOf caller chains).basis = "caller_cannot_write") :
    ∀ facts ∈ chains, (evaluateGrade caller facts).basis = "caller_cannot_write" := by
  intro facts hmem
  have hitem : evaluateGrade caller facts ∈ chains.map (evaluateGrade caller) :=
    List.mem_map_of_mem hmem
  unfold gradeOf at h
  rcases weakestClaim_cases (chains.map (evaluateGrade caller)) with ⟨_, -, -, hbasis, -⟩ |
    ⟨hwrite, ⟨_, -, -, hbasis, -⟩ | ⟨hunknown, -⟩⟩
  · rw [h] at hbasis
    simp at hbasis
  · rw [h] at hbasis
    simp at hbasis
  · rcases evaluateGrade_cases caller facts with ⟨hbasis, -⟩ | ⟨hbasis | hbasis, -⟩
    · exact absurd hbasis (hwrite _ hitem)
    · exact absurd hbasis (hunknown _ hitem)
    · exact hbasis

/-- The grade over several chains is observability where the caller can write one of them, and
unverified otherwise. -/
theorem gradeOf_grade (caller : CallerAccess) (chains : List (List PathFacts)) :
    (gradeOf caller chains).grade =
      if ∃ facts ∈ chains, (evaluateGrade caller facts).basis = "caller_can_write" then
        .observability
      else .unverified := by
  have hgrade : ∀ item ∈ chains.map (evaluateGrade caller), item.basis ≠ "caller_can_write" →
      item.grade = .unverified := by
    intro item hmem hbasis
    obtain ⟨facts, -, rfl⟩ := List.mem_map.1 hmem
    rcases evaluateGrade_cases caller facts with ⟨hwrite, -⟩ | ⟨-, hgrade⟩
    · exact absurd hwrite hbasis
    · exact hgrade
  unfold gradeOf
  rcases weakestClaim_cases (chains.map (evaluateGrade caller)) with ⟨item, hmem, hbasis, -, hsame⟩ |
    ⟨hwrite, hrest⟩
  · obtain ⟨facts, hfacts, rfl⟩ := List.mem_map.1 hmem
    rw [if_pos ⟨facts, hfacts, hbasis⟩, hsame]
    rcases evaluateGrade_cases caller facts with ⟨-, hgrade⟩ | ⟨hother | hother, -⟩
    · exact hgrade
    · rw [hbasis] at hother
      simp at hother
    · rw [hbasis] at hother
      simp at hother
  · rw [if_neg]
    · rcases hrest with ⟨item, hmem, -, -, hsame⟩ | ⟨-, ⟨item, hmem, -, -, hsame⟩ | ⟨-, hsame⟩⟩
      · rw [hsame, hgrade item hmem (hwrite item hmem)]
      · rw [hsame, hgrade item hmem (hwrite item hmem)]
      · exact hsame
    · rintro ⟨facts, hmem, hbasis⟩
      exact hwrite _ (List.mem_map_of_mem hmem) hbasis

/-! ## Soundness -/

/-- The path names the same file in both trees, and the file holds the same. -/
def SameFile (t t' : Tree Str Bytes) (path : Path) : Prop :=
  ∃ last last', t.at_ path = some last ∧ t'.at_ path = some last' ∧
    last.attributes = last'.attributes ∧ last.holds = last'.holds

/-- **What `caller_cannot_write` says is sound**, of one chain and of several: no run of operations
of the caller changes what the paths name or what that holds. The grade of several chains is
observability exactly where the caller can write one of them. -/
theorem cannot_write_sound (caller : CallerAccess) :
    (∀ (t : Tree Str Bytes) (path : Path) (operations : List (Operation Str Bytes)),
      (evaluateGrade caller (chainFacts t path)).basis = "caller_cannot_write" →
        SameFile t (t.after caller.posix operations) path) ∧
    (∀ (t : Tree Str Bytes) (paths : List Path) (operations : List (Operation Str Bytes)),
      (gradeOf caller (paths.map (chainFacts t))).basis = "caller_cannot_write" →
        ∀ path ∈ paths, SameFile t (t.after caller.posix operations) path) ∧
    ∀ chains : List (List PathFacts), (gradeOf caller chains).grade =
      if ∃ facts ∈ chains, (evaluateGrade caller facts).basis = "caller_can_write" then
        .observability
      else .unverified := by
  have hone : ∀ (t : Tree Str Bytes) (path : Path) (operations : List (Operation Str Bytes)),
      (evaluateGrade caller (chainFacts t path)).basis = "caller_cannot_write" →
        SameFile t (t.after caller.posix operations) path := by
    intro t path operations hbasis
    obtain ⟨hthere, hguarded⟩ := guarded_of_cannot_write hbasis
    exact (Posix.guarded_after hguarded hthere operations).at_end
  refine ⟨hone, fun t paths operations hbasis path hmem => ?_, gradeOf_grade caller⟩
  exact hone t path operations (every_cannot_write hbasis _ (List.mem_map_of_mem hmem))

/-- The store of root's under a sticky directory that everybody writes. -/
def stickyTree : Tree Str Bytes :=
  .dir ⟨2, 0, 0, 0o755⟩ [(lit "tmp", .dir ⟨3, 0, 0, 0o1777⟩ [(lit "store", .dir ⟨4, 0, 0, 0o755⟩ [])])]

example : (evaluateGrade ⟨1000, [1000]⟩ (chainFacts stickyTree [lit "tmp", lit "store"])).basis =
    "caller_cannot_write" := by decide

/-- A file of root's that nobody else may write, and one of the caller's own. -/
def rootOwned : PathFacts := ⟨true, some 0, some 0, some 0o600, some false⟩

def callerOwned : PathFacts := ⟨true, some 1000, some 1000, some 0o600, some false⟩

/-- The grade over two chains ranks above the grade of one of them. -/
theorem grade_of_two_ranks_above : ¬∀ (caller : CallerAccess) (chains : List (List PathFacts)),
    ∀ facts ∈ chains, (gradeOf caller chains).grade.rank ≤ (evaluateGrade caller facts).grade.rank := by
  intro h
  exact absurd (h ⟨1000, [1000]⟩ [[callerOwned], [rootOwned]] [rootOwned] (by simp)) (by decide)

end SayFirst.Plane
