import Mathlib.Data.List.Infix

/-!
# Files under POSIX permissions

A tree of files and directories with owners, groups and mode bits, no access lists and no second
names, and what one caller without privilege does in it: it writes, changes modes, creates, unlinks
and renames, anywhere, each time if the permissions let it.

* `Tree.step` — one operation, without effect where it is not permitted.
* `Guarded` — nowhere along a path may the caller write, but where a sticky bit keeps the entry.
* `guarded_after` — a guarded path names the same file, and the file holds the same, behind every
  run.
* `guarded_afterAll` — so does one that is guarded against several callers who take turns.
* `unlinked` — what a caller can do where it is not.
-/

namespace SayFirst.Posix

variable {Name Content : Type} [DecidableEq Name]

structure Caller where
  uid : ℕ
  groups : List ℕ

structure Attributes where
  inode : ℕ
  owner : ℕ
  group : ℕ
  mode : ℕ

/-- The three bits of the class the caller is in. -/
def Attributes.bits (a : Attributes) (c : Caller) : ℕ :=
  if c.uid = a.owner then a.mode / 64 % 8
  else if a.group ∈ c.groups then a.mode / 8 % 8
  else a.mode % 8

def Attributes.mayWrite (a : Attributes) (c : Caller) : Bool := (a.bits c).testBit 1

def Attributes.maySearch (a : Attributes) (c : Caller) : Bool := (a.bits c).testBit 0

def Attributes.sticky (a : Attributes) : Bool := a.mode.testBit 9

/-- Whether the caller, writing the directory, may remove or replace an entry of this owner. -/
def Attributes.yields (a : Attributes) (c : Caller) (entryOwner : ℕ) : Bool :=
  !a.sticky || c.uid == a.owner || c.uid == entryOwner

variable (Name Content) in
inductive Tree where
  | file (attributes : Attributes) (content : Content)
  | dir (attributes : Attributes) (entries : List (Name × Tree))

namespace Tree

def attributes : Tree Name Content → Attributes
  | file a _ => a
  | dir a _ => a

def child : Tree Name Content → Name → Option (Tree Name Content)
  | file _ _, _ => none
  | dir _ entries, name => entries.lookup name

def at_ : Tree Name Content → List Name → Option (Tree Name Content)
  | t, [] => some t
  | t, name :: rest => (t.child name).bind (·.at_ rest)

/-- What a file holds, and which files the entries of a directory name. -/
def holds : Tree Name Content → Content ⊕ List (Name × ℕ)
  | file _ content => .inl content
  | dir _ entries => .inr (entries.map fun entry => (entry.1, entry.2.attributes.inode))

/-- The tree with what stands at a path changed. -/
def modify (f : Tree Name Content → Tree Name Content) :
    Tree Name Content → List Name → Tree Name Content
  | t, [] => f t
  | file a content, _ :: _ => file a content
  | dir a entries, name :: rest =>
    dir a (entries.map fun entry => if entry.1 = name then (entry.1, modify f entry.2 rest) else entry)

def setContent (content : Content) : Tree Name Content → Tree Name Content
  | file a _ => file a content
  | dir a entries => dir a entries

def setMode (mode : ℕ) : Tree Name Content → Tree Name Content
  | file a content => file { a with mode } content
  | dir a entries => dir { a with mode } entries

def removeEntry (name : Name) : Tree Name Content → Tree Name Content
  | file a content => file a content
  | dir a entries => dir a (entries.filter fun entry => entry.1 ≠ name)

def putEntry (name : Name) (t : Tree Name Content) : Tree Name Content → Tree Name Content
  | file a content => file a content
  | dir a entries => dir a ((name, t) :: entries.filter fun entry => entry.1 ≠ name)

/-! ## What is permitted -/

variable (c : Caller)

/-- The caller may search every directory above the path. -/
def reachable : Tree Name Content → List Name → Bool
  | _, [] => true
  | t, name :: rest =>
    t.attributes.maySearch c &&
      match t.child name with
      | none => false
      | some below => below.reachable rest

/-- The caller may change what stands at a path. -/
def mayChange (t : Tree Name Content) (path : List Name)
    (allowed : Tree Name Content → Bool) : Bool :=
  t.reachable c path && (t.at_ path).any allowed

/-- The caller may change the entries of a directory, an entry that is there among them. -/
def mayEdit (name : Name) (existing : Option (Tree Name Content) → Bool) :
    Tree Name Content → Bool
  | file _ _ => false
  | dir a entries =>
    a.maySearch c && a.mayWrite c && existing (entries.lookup name) &&
      (entries.lookup name).all fun entry => a.yields c entry.attributes.owner

end Tree

variable (Name Content) in
inductive Operation where
  | write (path : List Name) (content : Content)
  | chmod (path : List Name) (mode : ℕ)
  | create (directory : List Name) (name : Name) (new : Tree Name Content)
  | unlink (directory : List Name) (name : Name)
  | rename (directory : List Name) (name : Name) (directory' : List Name) (name' : Name)

namespace Tree

def isFile : Tree Name Content → Bool
  | file _ _ => true
  | dir _ _ => false

variable (c : Caller)

/-- An operation of the caller. -/
def step (t : Tree Name Content) : Operation Name Content → Tree Name Content
  | .write path content =>
    if t.mayChange c path fun at_ => at_.isFile && at_.attributes.mayWrite c then
      t.modify (setContent content) path
    else t
  | .chmod path mode =>
    if t.mayChange c path fun at_ => at_.attributes.owner == c.uid then t.modify (setMode mode) path
    else t
  | .create directory name new =>
    if t.mayChange c directory (mayEdit c name (·.isNone)) then
      t.modify (putEntry name new) directory
    else t
  | .unlink directory name =>
    if t.mayChange c directory (mayEdit c name (·.isSome)) then
      t.modify (removeEntry name) directory
    else t
  | .rename directory name directory' name' =>
    match t.at_ (directory ++ [name]) with
    | none => t
    | some moved =>
      if t.mayChange c directory (mayEdit c name (·.isSome)) &&
          t.mayChange c directory' (mayEdit c name' fun _ => true) &&
          !(directory ++ [name]).isPrefixOf directory' then
        (t.modify (removeEntry name) directory).modify (putEntry name' moved) directory'
      else t

/-- The tree behind a run of operations. -/
def after (t : Tree Name Content) (operations : List (Operation Name Content)) :
    Tree Name Content := operations.foldl (step c) t

end Tree

/-! ## Along a path -/

variable {c : Caller} {t t' t'' : Tree Name Content} {path directory : List Name} {name : Name}

/-- Along the path both trees have the same attributes, and at its end they hold the same. -/
def Kept : Tree Name Content → Tree Name Content → List Name → Prop
  | t, t', [] => t.attributes = t'.attributes ∧ t.holds = t'.holds
  | t, t', name :: rest => t.attributes = t'.attributes ∧
      ∃ below below', t.child name = some below ∧ t'.child name = some below' ∧ Kept below below' rest

variable (c) in
/-- As far as the caller comes along the path, it may not write, nor owns, what would let it change
what stands below. -/
def Guarded : Tree Name Content → List Name → Prop
  | t, [] => ¬t.attributes.mayWrite c ∧ c.uid ≠ t.attributes.owner
  | t, name :: rest => ∃ below, t.child name = some below ∧
      ((t.attributes.mayWrite c ∨ c.uid = t.attributes.owner) →
        ¬t.attributes.yields c below.attributes.owner) ∧
      (t.attributes.maySearch c → Guarded below rest)

theorem at_append (t : Tree Name Content) (path rest : List Name) :
    t.at_ (path ++ rest) = (t.at_ path).bind (·.at_ rest) := by
  induction path generalizing t with
  | nil => rfl
  | cons name path ih =>
    change (t.child name).bind (·.at_ (path ++ rest)) = ((t.child name).bind _).bind _
    rw [Option.bind_assoc]
    exact Option.bind_congr fun below _ => ih below

theorem Kept.refl (h : (t.at_ path).isSome) : Kept t t path := by
  induction path generalizing t with
  | nil => exact ⟨rfl, rfl⟩
  | cons name rest ih =>
    unfold Tree.at_ at h
    cases hchild : t.child name with
    | none =>
      rw [hchild] at h
      cases h
    | some below =>
      rw [hchild] at h
      exact ⟨rfl, below, below, hchild, hchild, ih h⟩

theorem Kept.trans (h : Kept t t' path) (h' : Kept t' t'' path) : Kept t t'' path := by
  induction path generalizing t t' t'' with
  | nil => exact ⟨h.1.trans h'.1, h.2.trans h'.2⟩
  | cons name rest ih =>
    obtain ⟨hattributes, below, below', hchild, hchild', hrest⟩ := h
    obtain ⟨hattributes', other, other', hother, hother', hrest'⟩ := h'
    rw [hchild'] at hother
    cases hother
    exact ⟨hattributes.trans hattributes', below, other', hchild, hother', ih hrest hrest'⟩

theorem Kept.attributes_eq (h : Kept t t' path) : t.attributes = t'.attributes := by
  cases path with
  | nil => exact h.1
  | cons name rest => exact h.1

/-- What stands at the end of the path is there in the second tree. -/
theorem Kept.there (h : Kept t t' path) : (t'.at_ path).isSome := by
  induction path generalizing t t' with
  | nil => rfl
  | cons name rest ih =>
    obtain ⟨-, below, below', -, hchild', hrest⟩ := h
    unfold Tree.at_
    rw [hchild']
    exact ih hrest

/-- The end of the path names the same file, and the file holds the same. -/
theorem Kept.at_end (h : Kept t t' path) : ∃ last last', t.at_ path = some last ∧
    t'.at_ path = some last' ∧ last.attributes = last'.attributes ∧ last.holds = last'.holds := by
  induction path generalizing t t' with
  | nil => exact ⟨t, t', rfl, rfl, h.1, h.2⟩
  | cons name rest ih =>
    obtain ⟨-, below, below', hchild, hchild', hrest⟩ := h
    obtain ⟨last, last', hlast, hlast', hsame⟩ := ih hrest
    refine ⟨last, last', ?_, ?_, hsame⟩
    · unfold Tree.at_
      rw [hchild]
      exact hlast
    · unfold Tree.at_
      rw [hchild']
      exact hlast'

theorem Guarded.kept (h : Guarded c t path) (hkept : Kept t t' path) : Guarded c t' path := by
  induction path generalizing t t' with
  | nil => exact ⟨hkept.1 ▸ h.1, hkept.1 ▸ h.2⟩
  | cons name rest ih =>
    obtain ⟨below, hchild, hguard, hbelow⟩ := h
    obtain ⟨hattributes, other, below', hother, hchild', hrest⟩ := hkept
    rw [hchild] at hother
    cases hother
    refine ⟨below', hchild', ?_, fun hsearch => ?_⟩
    · rw [← hattributes, ← hrest.attributes_eq]
      exact hguard
    · exact ih (hbelow (hattributes ▸ hsearch)) hrest

/-- A guarded path is guarded from wherever the caller comes to on it. -/
theorem Guarded.from (h : Guarded c t (directory ++ path)) (hreach : t.reachable c directory) :
    ∃ at_, t.at_ directory = some at_ ∧ Guarded c at_ path := by
  induction directory generalizing t with
  | nil => exact ⟨t, rfl, h⟩
  | cons name rest ih =>
    obtain ⟨below, hchild, -, hbelow⟩ := h
    unfold Tree.reachable at hreach
    rw [hchild] at hreach
    obtain ⟨hsearch, hreach⟩ := Bool.and_eq_true_iff.1 hreach
    obtain ⟨at_, hat, hguarded⟩ := ih (hbelow hsearch) hreach
    refine ⟨at_, ?_, hguarded⟩
    unfold Tree.at_
    rw [hchild]
    exact hat

/-! ## What a change leaves -/

/-- The change leaves the file the same one. -/
def KeepsInode (f : Tree Name Content → Tree Name Content) : Prop :=
  ∀ t, (f t).attributes.inode = t.attributes.inode

theorem inode_modify {f : Tree Name Content → Tree Name Content} (hf : KeepsInode f)
    (t : Tree Name Content) (path : List Name) :
    (t.modify f path).attributes.inode = t.attributes.inode := by
  cases path with
  | nil => exact hf t
  | cons name rest => cases t <;> rfl

theorem lookup_cons_self (entries : List (Name × Tree Name Content)) (below : Tree Name Content) :
    ((name, below) :: entries).lookup name = some below := by
  simp

theorem lookup_cons_ne {other : Name} (h : other ≠ name) (entries : List (Name × Tree Name Content))
    (below : Tree Name Content) : ((name, below) :: entries).lookup other = entries.lookup other := by
  rw [List.lookup_cons, show (other == name) = false by simpa using h]

theorem lookup_map_entry (g : Tree Name Content → Tree Name Content) (other : Name)
    (entries : List (Name × Tree Name Content)) :
    (entries.map fun entry => if entry.1 = name then (entry.1, g entry.2) else entry).lookup other =
      if other = name then (entries.lookup other).map g else entries.lookup other := by
  induction entries with
  | nil => split <;> rfl
  | cons entry entries ih =>
    obtain ⟨first, below⟩ := entry
    rw [List.map_cons]
    by_cases hother : other = first
    · subst hother
      by_cases hname : other = name
      · rw [if_pos hname, if_pos hname, lookup_cons_self, lookup_cons_self]
        rfl
      · rw [if_neg hname, if_neg hname, lookup_cons_self, lookup_cons_self]
    · rw [lookup_cons_ne hother, ← ih]
      split
      · exact lookup_cons_ne hother _ _
      · exact lookup_cons_ne hother _ _

theorem lookup_filter_ne {other : Name} (h : other ≠ name)
    (entries : List (Name × Tree Name Content)) :
    (entries.filter fun entry => entry.1 ≠ name).lookup other = entries.lookup other := by
  induction entries with
  | nil => rfl
  | cons entry entries ih =>
    obtain ⟨first, below⟩ := entry
    by_cases hname : first = name
    · rw [List.filter_cons_of_neg (by simpa using hname), lookup_cons_ne (by rw [hname]; exact h), ih]
    · rw [List.filter_cons_of_pos (by simpa using hname)]
      by_cases hother : other = first
      · subst hother
        rw [lookup_cons_self, lookup_cons_self]
      · rw [lookup_cons_ne hother, lookup_cons_ne hother, ih]

theorem child_modify {f : Tree Name Content → Tree Name Content} {other : Name} {rest : List Name} :
    (t.modify f (name :: rest)).child other =
      if other = name then (t.child other).map (·.modify f rest) else t.child other := by
  cases t with
  | file a content => split <;> rfl
  | dir a entries => exact lookup_map_entry (·.modify f rest) other entries

theorem attributes_modify {f : Tree Name Content → Tree Name Content} {rest : List Name} :
    (t.modify f (name :: rest)).attributes = t.attributes := by
  cases t <;> rfl

theorem holds_modify {f : Tree Name Content → Tree Name Content} (hf : KeepsInode f)
    {rest : List Name} : (t.modify f (name :: rest)).holds = t.holds := by
  cases t with
  | file a content => rfl
  | dir a entries =>
    refine congrArg Sum.inr ?_
    rw [List.map_map]
    refine List.map_congr_left fun entry _ => ?_
    simp only [Function.comp]
    split
    · rw [inode_modify hf]
    · rfl

/-- A change off the path keeps it. -/
theorem kept_modify {f : Tree Name Content → Tree Name Content} (hf : KeepsInode f)
    (hthere : (t.at_ path).isSome) (hoff : ¬directory <+: path) :
    Kept t (t.modify f directory) path := by
  induction directory generalizing t path with
  | nil => exact absurd List.nil_prefix hoff
  | cons name rest ih =>
    cases path with
    | nil => exact ⟨attributes_modify.symm, (holds_modify hf).symm⟩
    | cons first path =>
      cases hchild : t.child first with
      | none =>
        unfold Tree.at_ at hthere
        rw [hchild] at hthere
        cases hthere
      | some below =>
        unfold Tree.at_ at hthere
        rw [hchild] at hthere
        refine ⟨attributes_modify.symm, below, ?_⟩
        by_cases hsame : first = name
        · subst hsame
          refine ⟨below.modify f rest, hchild, ?_, ih hthere fun hprefix => hoff ?_⟩
          · rw [child_modify, if_pos rfl, hchild]
            rfl
          · exact List.cons_prefix_cons.2 ⟨rfl, hprefix⟩
        · refine ⟨below, hchild, ?_, Kept.refl hthere⟩
          rw [child_modify, if_neg hsame, hchild]

/-- A change at a place of the path keeps it where it keeps the rest of it. -/
theorem kept_modify_at {f : Tree Name Content → Tree Name Content} {at_ : Tree Name Content} (hat : t.at_ directory = some at_) (hkept : Kept at_ (f at_) path) :
    Kept t (t.modify f directory) (directory ++ path) := by
  induction directory generalizing t with
  | nil =>
    cases hat
    exact hkept
  | cons name rest ih =>
    unfold Tree.at_ at hat
    cases hchild : t.child name with
    | none =>
      rw [hchild] at hat
      cases hat
    | some below =>
      rw [hchild] at hat
      refine ⟨attributes_modify.symm, below, below.modify f rest, hchild, ?_, ih hat⟩
      rw [child_modify, if_pos rfl, hchild]
      rfl

/-- The entry is none of the path, and its directory is not the end of it. -/
structure Clear (path directory : List Name) (name : Name) : Prop where
  entry : ¬directory ++ [name] <+: path
  directory : directory ≠ path

/-- The edit leaves the attributes and every other entry as they are. -/
structure Edits (f : Tree Name Content → Tree Name Content) (name : Name) : Prop where
  attributes : ∀ t, (f t).attributes = t.attributes
  child : ∀ t other, other ≠ name → (f t).child other = t.child other

theorem edits_removeEntry (name : Name) :
    Edits (fun t : Tree Name Content => t.removeEntry name) name where
  attributes := fun t => by cases t <;> rfl
  child := by
    intro t other hne
    cases t with
    | file a content => rfl
    | dir a entries => exact lookup_filter_ne hne entries

theorem edits_putEntry (name : Name) (new : Tree Name Content) :
    Edits (Tree.putEntry name new) name where
  attributes := fun t => by cases t <;> rfl
  child := by
    intro t other hne
    cases t with
    | file a content => rfl
    | dir a entries => exact (lookup_cons_ne hne _ new).trans (lookup_filter_ne hne entries)

theorem kept_edit {f : Tree Name Content → Tree Name Content} (hf : Edits f name)
    (hthere : (t.at_ path).isSome) (hclear : Clear path directory name) :
    Kept t (t.modify f directory) path := by
  have hinode : KeepsInode f := fun t => congrArg Attributes.inode (hf.attributes t)
  by_cases hprefix : directory <+: path
  · obtain ⟨rest, rfl⟩ := hprefix
    cases rest with
    | nil => exact absurd (List.append_nil _).symm hclear.directory
    | cons first rest =>
      have hne : first ≠ name := by
        rintro rfl
        exact hclear.entry ⟨rest, by simp⟩
      obtain ⟨at_, hat, hbelow⟩ : ∃ at_, t.at_ directory = some at_ ∧
          (at_.at_ (first :: rest)).isSome := by
        rw [at_append, Option.isSome_iff_exists] at hthere
        obtain ⟨last, hlast⟩ := hthere
        obtain ⟨at_, hat, hlast⟩ := Option.bind_eq_some_iff.1 hlast
        exact ⟨at_, hat, by rw [hlast]; rfl⟩
      refine kept_modify_at hat ?_
      unfold Tree.at_ at hbelow
      cases hchild : at_.child first with
      | none =>
        rw [hchild] at hbelow
        cases hbelow
      | some below =>
        rw [hchild] at hbelow
        exact ⟨(hf.attributes at_).symm, below, below, hchild,
          (hf.child at_ first hne).trans hchild, Kept.refl hbelow⟩
  · exact kept_modify hinode hthere hprefix

/-! ## What is permitted on a guarded path -/

theorem Tree.mayChange_iff {allowed : Tree Name Content → Bool} :
    t.mayChange c directory allowed ↔
      t.reachable c directory ∧ ∃ at_, t.at_ directory = some at_ ∧ allowed at_ := by
  unfold mayChange
  rw [Bool.and_eq_true, Option.any_eq_true]

/-- On a guarded path the caller changes no file and no mode. -/
theorem Guarded.off (h : Guarded c t path) {allowed : Tree Name Content → Bool}
    (hallowed : ∀ at_, allowed at_ → at_.isFile ∧ at_.attributes.mayWrite c ∨
      c.uid = at_.attributes.owner) (hmay : t.mayChange c directory allowed) :
    ¬directory <+: path := by
  rintro ⟨rest, rfl⟩
  obtain ⟨hreach, at_, hat, hallow⟩ := Tree.mayChange_iff.1 hmay
  obtain ⟨at', hat', hguarded⟩ := h.from hreach
  rw [hat] at hat'
  cases hat'
  cases rest with
  | nil =>
    rcases hallowed at_ hallow with ⟨-, hwrite⟩ | howns
    · exact hguarded.1 hwrite
    · exact hguarded.2 howns
  | cons first rest =>
    obtain ⟨below, hchild, hguard, -⟩ := hguarded
    rcases hallowed at_ hallow with ⟨hfile, -⟩ | howns
    · cases at_ with
      | file a content => cases hchild
      | dir a entries => cases hfile
    · refine hguard (Or.inr howns) ?_
      unfold Attributes.yields
      simp [howns]

/-- On a guarded path the caller edits no entry. -/
theorem Guarded.clear (h : Guarded c t path) {existing : Option (Tree Name Content) → Bool}
    (hmay : t.mayChange c directory (Tree.mayEdit c name existing)) : Clear path directory name := by
  obtain ⟨hreach, at_, hat, hedit⟩ := Tree.mayChange_iff.1 hmay
  cases at_ with
  | file a content => cases hedit
  | dir a entries =>
    simp only [Tree.mayEdit, Bool.and_eq_true] at hedit
    obtain ⟨⟨⟨-, hwrite⟩, -⟩, hyields⟩ := hedit
    constructor
    · rintro ⟨rest, rfl⟩
      rw [List.append_assoc] at h
      obtain ⟨at', hat', below, hchild, hguard, -⟩ := h.from hreach
      rw [hat] at hat'
      cases hat'
      refine hguard (Or.inl hwrite) ?_
      rw [show entries.lookup name = some below from hchild] at hyields
      exact hyields
    · rintro rfl
      have hself : Guarded c t (directory ++ []) := by rwa [List.append_nil]
      obtain ⟨at', hat', hguard⟩ := hself.from hreach
      rw [hat] at hat'
      cases hat'
      exact hguard.1 hwrite

omit [DecidableEq Name] in
theorem keepsInode_setContent (content : Content) :
    KeepsInode (fun t : Tree Name Content => t.setContent content) := fun t => by cases t <;> rfl

omit [DecidableEq Name] in
theorem keepsInode_setMode (mode : ℕ) :
    KeepsInode (fun t : Tree Name Content => t.setMode mode) := fun t => by cases t <;> rfl

/-- **No operation of the caller reaches what stands at the end of a guarded path.** -/
theorem kept_step (h : Guarded c t path) (hthere : (t.at_ path).isSome)
    (operation : Operation Name Content) : Kept t (t.step c operation) path := by
  have hrefl : Kept t t path := Kept.refl hthere
  cases operation with
  | write place content =>
    unfold Tree.step
    simp only
    split
    · rename_i hmay
      refine kept_modify (keepsInode_setContent content) hthere (h.off (fun at_ hallow => ?_) hmay)
      exact Or.inl (Bool.and_eq_true_iff.1 hallow)
    · exact hrefl
  | chmod place mode =>
    unfold Tree.step
    simp only
    split
    · rename_i hmay
      refine kept_modify (keepsInode_setMode mode) hthere (h.off (fun at_ hallow => ?_) hmay)
      exact Or.inr (by simpa using (beq_iff_eq.1 hallow).symm)
    · exact hrefl
  | create directory name new =>
    unfold Tree.step
    simp only
    split
    · rename_i hmay
      exact kept_edit (edits_putEntry name new) hthere (h.clear hmay)
    · exact hrefl
  | unlink directory name =>
    unfold Tree.step
    simp only
    split
    · rename_i hmay
      exact kept_edit (edits_removeEntry name) hthere (h.clear hmay)
    · exact hrefl
  | rename directory name directory' name' =>
    unfold Tree.step
    simp only
    split
    · exact hrefl
    · rename_i moved hmoved
      split
      · rename_i hmay
        simp only [Bool.and_eq_true] at hmay
        obtain ⟨⟨hmay, hmay'⟩, -⟩ := hmay
        have hremoved := kept_edit (edits_removeEntry name) hthere (h.clear hmay)
        exact hremoved.trans (kept_edit (edits_putEntry name' moved) hremoved.there (h.clear hmay'))
      · exact hrefl

/-- **Behind every run of operations of the caller a guarded path names the same file, and the file
holds the same.** -/
theorem guarded_after (h : Guarded c t path) (hthere : (t.at_ path).isSome)
    (operations : List (Operation Name Content)) : Kept t (t.after c operations) path := by
  induction operations generalizing t with
  | nil => exact Kept.refl hthere
  | cons operation operations ih =>
    have hstep := kept_step h hthere operation
    exact hstep.trans (ih (h.kept hstep) hstep.there)

/-! ## Several callers -/

/-- The tree behind a run of operations, each of a caller of its own. -/
def Tree.afterAll (t : Tree Name Content) (operations : List (Caller × Operation Name Content)) :
    Tree Name Content := operations.foldl (fun t o => t.step o.1 o.2) t

theorem afterAll_one (c : Caller) (operation : Operation Name Content) :
    t.afterAll [(c, operation)] = t.step c operation := rfl

/-- A path that is guarded against every caller of a run is kept, however they take turns. -/
theorem guarded_afterAll {operations : List (Caller × Operation Name Content)}
    (h : ∀ o ∈ operations, Guarded o.1 t path) (hthere : (t.at_ path).isSome) :
    Kept t (t.afterAll operations) path := by
  induction operations generalizing t with
  | nil => exact Kept.refl hthere
  | cons o operations ih =>
    have hstep := kept_step (h o List.mem_cons_self) hthere o.2
    -- what one of them leaves is guarded against the others as it was
    have hrest : ∀ o' ∈ operations, Guarded o'.1 (t.step o.1 o.2) path :=
      fun o' ho' => (h o' (List.mem_cons_of_mem _ ho')).kept hstep
    exact hstep.trans (ih hrest hstep.there)

/-! ## What is not guarded -/

theorem child_of_ne {a : Attributes} {entries : List (Name × Tree Name Content)}
    (h : ∀ entry ∈ entries, entry.1 ≠ name) : (Tree.dir a entries).child name = none := by
  have hnone : entries.lookup name = none := by
    rw [List.lookup_eq_none_iff]
    intro entry hentry
    simpa using (h entry hentry).symm
  exact hnone

/-- What stands where a change was made, and below it. -/
theorem at_modify {f : Tree Name Content → Tree Name Content} (t : Tree Name Content) :
    (t.modify f directory).at_ (directory ++ path) =
      (t.at_ directory).bind fun at_ => (f at_).at_ path := by
  induction directory generalizing t with
  | nil => cases t <;> rfl
  | cons name rest ih =>
    show ((t.modify f (name :: rest)).child name).bind (·.at_ (rest ++ path)) =
      ((t.child name).bind (·.at_ rest)).bind _
    rw [child_modify, if_pos rfl]
    cases t.child name with
    | none => rfl
    | some below => exact ih below

theorem at_modify_self {f : Tree Name Content → Tree Name Content} (t : Tree Name Content) :
    (t.modify f directory).at_ directory = (t.at_ directory).map f := by
  have hwhole := @at_modify _ _ _ [] directory f t
  rw [List.append_nil] at hwhole
  rw [hwhole]
  cases t.at_ directory <;> rfl

/-- A change does not close the way to where it was made. -/
theorem reachable_modify {f : Tree Name Content → Tree Name Content} (t : Tree Name Content) :
    (t.modify f directory).reachable c directory = t.reachable c directory := by
  induction directory generalizing t with
  | nil => rfl
  | cons name rest ih =>
    unfold Tree.reachable
    rw [attributes_modify, child_modify, if_pos rfl]
    cases t.child name with
    | none => rfl
    | some below =>
      simp only [Option.map_some]
      rw [ih below]

/-- The owner of what it reaches changes its mode. -/
theorem step_chmod {at_ : Tree Name Content} (hreach : t.reachable c directory = true)
    (hat : t.at_ directory = some at_) (howner : at_.attributes.owner = c.uid) (mode : ℕ) :
    t.step c (.chmod directory mode) = t.modify (Tree.setMode mode) directory := by
  have hmay : t.mayChange c directory (fun at_ => at_.attributes.owner == c.uid) = true := by
    unfold Tree.mayChange
    rw [hreach, hat]
    simpa using howner
  unfold Tree.step
  simp only [hmay, if_true]

/-- A caller that writes and searches a directory creates what is not there. -/
theorem step_create {a : Attributes} {entries : List (Name × Tree Name Content)}
    (hreach : t.reachable c directory = true) (hat : t.at_ directory = some (.dir a entries))
    (hsearch : a.maySearch c = true) (hwrite : a.mayWrite c = true)
    (hfree : Tree.child (.dir a entries) name = none) (new : Tree Name Content) :
    t.step c (.create directory name new) = t.modify (Tree.putEntry name new) directory := by
  have hlookup : entries.lookup name = none := hfree
  have hmay : t.mayChange c directory (Tree.mayEdit c name (·.isNone)) = true := by
    unfold Tree.mayChange
    rw [hreach, hat]
    simp [Tree.mayEdit, hsearch, hwrite, hlookup]
  unfold Tree.step
  simp only [hmay, if_true]

/-- A caller that writes and searches a directory that yields an entry takes away what stands below
it. -/
theorem unlinked {a : Attributes} {entries : List (Name × Tree Name Content)}
    {below : Tree Name Content} (hreach : t.reachable c directory = true)
    (hat : t.at_ directory = some (.dir a entries)) (hsearch : a.maySearch c = true)
    (hwrite : a.mayWrite c = true) (hbelow : Tree.child (.dir a entries) name = some below)
    (hyields : a.yields c below.attributes.owner = true) :
    (t.step c (.unlink directory name)).at_ (directory ++ name :: path) = none := by
  have hlookup : entries.lookup name = some below := hbelow
  have hmay : t.mayChange c directory (Tree.mayEdit c name (·.isSome)) = true := by
    unfold Tree.mayChange
    rw [hreach, hat]
    simp [Tree.mayEdit, hsearch, hwrite, hlookup, hyields]
  have hgone : (Tree.removeEntry name (.dir a entries)).child name = none := by
    refine child_of_ne fun entry hentry => ?_
    simpa using (List.mem_filter.1 hentry).2
  unfold Tree.step
  simp only [hmay, if_true]
  rw [at_modify, hat]
  show ((Tree.removeEntry name (.dir a entries)).child name).bind (·.at_ path) = none
  rw [hgone]
  rfl

end SayFirst.Posix
