import Mathlib.Data.List.Infix
import SayFirst.Spec.PathResolution

/-!
# The naming chains cover the resolution

* `listed_extendFrom` — the chains from a place on cover the place and the directories above it.
* `chains_follow` — the chains and the kernel from one place on, over the same components.
* `naming_chains_cover` — what the chains of a path owe of its resolution.
-/

namespace SayFirst.Plane

open Py

variable {fs : FileSystem} {root : Node} {place : Path} {links : ℕ} {parts : List Str}
  {chains : List (List Path)}

/-! ## The chains from a place on -/

/-- `_extend`, from a place on. -/
def extendFrom (fs : FileSystem) (links : ℕ) (place : Path) (parts : List Str) :
    Option (List (List Path)) := segmentChains fs (extend fs links) place parts

theorem extend_succ (path : Path) : extend fs (links + 1) path = extendFrom fs links [] path := rfl

/-- Some chain holds the path. -/
def Lists (chains : List (List Path)) (path : Path) : Prop := ∃ chain ∈ chains, path ∈ chain

theorem Lists.tail {chain : List Path} {path : Path} (h : Lists chains path) :
    Lists (chain :: chains) path := by
  obtain ⟨other, hmem, hpath⟩ := h
  exact ⟨other, List.mem_cons_of_mem _ hmem, hpath⟩

theorem Lists.head {current path : Path} (h : path <+: current) :
    Lists (chainOf current :: chains) path :=
  ⟨chainOf current, List.mem_cons_self, List.mem_reverse.2 ((List.mem_inits _ _).2 h)⟩

/-- The chains from a place on cover the place and the directories above it. -/
theorem listed_extendFrom (h : extendFrom fs links place parts = some chains) {path : Path}
    (hpath : path <+: place) : Lists chains path := by
  induction parts generalizing place chains with
  | nil =>
    cases h
    exact Lists.head hpath
  | cons part rest ih =>
    unfold extendFrom segmentChains at h
    have hbelow : path <+: place ++ [part] := hpath.trans (List.prefix_append _ _)
    split at h
    · obtain ⟨behind, -, rfl⟩ := Option.map_eq_some_iff.1 h
      exact Lists.head hpath
    · split at h
      · cases h
      · exact ih h hbelow
      · split at h
        · cases h
        · obtain ⟨behind, -, rfl⟩ := Option.map_eq_some_iff.1 h
          exact Lists.head hbelow

/-! ## The tree -/

theorem at_append (node : Node) (path rest : Path) :
    node.at_ (path ++ rest) = (node.at_ path).bind (·.at_ rest) := by
  induction path generalizing node with
  | nil => rfl
  | cons name path ih =>
    change (node.child name).bind (·.at_ (path ++ rest)) = ((node.child name).bind _).bind _
    rw [Option.bind_assoc]
    exact Option.bind_congr fun below _ => ih below

theorem at_child {entries : List (Str × Node)} (h : root.at_ place = some (.dir entries))
    (name : Str) : root.at_ (place ++ [name]) = entries.lookup name := by
  rw [at_append, h]
  change (entries.lookup name).bind some = _
  cases entries.lookup name <;> rfl

theorem isSymlink_link (hshows : Shows fs root) {path : Path} {target : Str}
    (h : root.at_ path = some (.link target)) : fs.isSymlink path = some true := by
  rw [hshows.isSymlink, h]

theorem isSymlink_other (hshows : Shows fs root) {path : Path}
    (h : ∀ target, root.at_ path ≠ some (.link target)) : fs.isSymlink path = some false := by
  rw [hshows.isSymlink]
  split
  · rename_i target hlink
    exact absurd hlink (h target)
  · rfl

/-- Below a link there is nothing. -/
theorem at_ne_link {path rest : Path} {entries : List (Str × Node)}
    (h : root.at_ (path ++ rest) = some (.dir entries)) (target : Str) :
    root.at_ path ≠ some (.link target) := by
  intro hlink
  rw [at_append, hlink] at h
  cases rest with
  | nil => cases h
  | cons name rest => cases h

/-- The components of a directory of the tree are walked without a chain. -/
theorem extendFrom_directory (hshows : Shows fs root) {below : Path} {entries : List (Str × Node)}
    (hdir : root.at_ (place ++ below) = some (.dir entries)) (hnames : ∀ name ∈ below, name ≠ lit "..") :
    extendFrom fs links place (below ++ parts) = extendFrom fs links (place ++ below) parts := by
  induction below generalizing place with
  | nil => rw [List.append_nil, List.nil_append]
  | cons name below ih =>
    have hplace : place ++ name :: below = place ++ [name] ++ below := by simp
    rw [hplace] at hdir ⊢
    have hstep : extendFrom fs links place (name :: (below ++ parts)) =
        extendFrom fs links (place ++ [name]) (below ++ parts) := by
      rw [extendFrom, segmentChains, if_neg (hnames name List.mem_cons_self),
        isSymlink_other hshows (at_ne_link hdir)]
      rfl
    rw [List.cons_append, hstep]
    exact ih hdir fun other hmem => hnames other (List.mem_cons_of_mem _ hmem)

theorem extendFrom_root (hshows : Shows fs root) {below : Path} {entries : List (Str × Node)}
    (hdir : root.at_ below = some (.dir entries)) (hnames : ∀ name ∈ below, name ≠ lit "..") :
    extendFrom fs links [] (below ++ parts) = extendFrom fs links below parts := by
  have hplace : root.at_ ([] ++ below) = some (.dir entries) := hdir
  exact extendFrom_directory hshows hplace hnames

/-! ## The chains and the kernel -/

/-- The chains hold what the kernel visits. -/
def Listed (chains : List (List Path)) : Visit → Prop
  | .directory path | .link path => Lists chains path

/-- What chains owe of a resolution: the last of them is of what is reached, they hold what is
visited, and there are none where too many links are met. -/
structure Follow (r : Resolution) (answer : Option (List (List Path))) : Prop where
  reached : ∀ object, r.outcome = .ok object →
    ∃ chains, answer = some chains ∧ chains.getLast? = some (chainOf object)
  loop : r.outcome = .error .loop → answer = none
  listed : ∀ chains, answer = some chains → ∀ visit ∈ r.visits, Listed chains visit

variable {r : Resolution} {answer : Option (List (List Path))} {visits : List Visit}

theorem Follow.behind (h : Follow r answer)
    (hvisits : ∀ chains, answer = some chains → ∀ visit ∈ visits, Listed chains visit) :
    Follow (r.behind visits) answer where
  reached := h.reached
  loop := h.loop
  listed := fun chains hchains visit hmem => (List.mem_append.1 hmem).elim
    (hvisits chains hchains visit) (h.listed chains hchains visit)

theorem Listed.tail {chain : List Path} {visit : Visit} (h : Listed chains visit) :
    Listed (chain :: chains) visit := by
  cases visit <;> exact Lists.tail h

/-- One more chain in front, and what it holds visited before. -/
theorem Follow.chain (h : Follow r answer) {current : Path}
    (hvisits : ∀ chains, ∀ visit ∈ visits, Listed (chainOf current :: chains) visit) :
    Follow (r.behind visits) (answer.map (chainOf current :: ·)) where
  reached := by
    intro object hobject
    obtain ⟨chains, rfl, hlast⟩ := h.reached object hobject
    exact ⟨_, rfl, by rw [List.getLast?_cons, hlast]; rfl⟩
  loop := fun hloop => by rw [h.loop hloop]; rfl
  listed := by
    intro all hall visit hmem
    obtain ⟨chains, hchains, rfl⟩ := Option.map_eq_some_iff.1 hall
    rcases List.mem_append.1 hmem with hmem | hmem
    · exact hvisits chains visit hmem
    · exact (h.listed chains hchains visit hmem).tail

/-- The components `pathlib` keeps. -/
def pathParts (comps : List Str) : List Str := comps.filter fun name => !stays name

theorem pathParts_append (comps rest : List Str) : pathParts (comps ++ rest) = pathParts comps ++ pathParts rest :=
  List.filter_append ..

/-- The parts from a place on, where they agree on every link they come to. -/
theorem lookups_follow (hshows : Shows fs root) {follow : Path → List Str → Resolution}
    (hfollow : ∀ place target rest entries, root.at_ place = some (.dir entries) →
      (∀ name ∈ place, name ≠ lit "..") →
      Follow (follow (if isAbsolute target then [] else place) (components target ++ rest))
        (extend fs links (fromCwd place (purePath target) ++ pathParts rest)))
    (comps : List Str) (hnames : ∀ name ∈ place, name ≠ lit "..") :
    Follow (root.lookups follow place comps) (extendFrom fs links place (pathParts comps)) := by
  induction comps generalizing place with
  | nil =>
    refine ⟨fun object hobject => ⟨_, rfl, ?_⟩, fun hloop => (by cases hloop),
      fun _ _ _ hmem => (by cases hmem)⟩
    cases hobject
    rfl
  | cons name rest ih =>
    have hplace : ∀ chains, extendFrom fs links place (pathParts (name :: rest)) = some chains →
        ∀ visit ∈ [Visit.directory place], Listed chains visit := by
      intro chains hchains visit hmem
      rw [List.mem_singleton.1 hmem]
      exact listed_extendFrom hchains List.prefix_rfl
    unfold Node.lookups
    split
    · rename_i entries hdir
      by_cases hstays : stays name = true
      · rw [if_pos hstays, show pathParts (name :: rest) = pathParts rest from
          List.filter_cons_of_neg (by rw [hstays]; decide)]
        exact ih hnames
      · have hparts : pathParts (name :: rest) = name :: pathParts rest :=
          List.filter_cons_of_pos (by simpa using hstays)
        rw [if_neg hstays]
        by_cases hup : name = lit ".."
        · rw [if_pos hup, hparts, extendFrom, segmentChains, if_pos hup]
          refine (ih fun other hmem => hnames other (List.mem_of_mem_dropLast hmem)).chain ?_
          intro chains visit hmem
          rw [List.mem_singleton.1 hmem]
          exact Lists.head List.prefix_rfl
        · rw [if_neg hup]
          have hbelow : root.at_ (place ++ [name]) = entries.lookup name := at_child hdir name
          have hstep : ∀ other, other ∈ place ++ [name] → other ≠ lit ".." := by
            intro other hmem
            rcases List.mem_append.1 hmem with hmem | hmem
            · exact hnames other hmem
            · rw [List.mem_singleton.1 hmem]
              exact hup
          split
          · exact ⟨fun _ h => (by cases h), fun h => (by cases h), hplace⟩
          · rename_i target hlink
            rw [hlink] at hbelow
            rw [hparts, extendFrom, segmentChains, if_neg hup, isSymlink_link hshows hbelow]
            simp only [hshows.readlink _ _ hbelow]
            refine (hfollow place target rest entries hdir hnames).chain ?_
            intro chains visit hmem
            rcases List.mem_cons.1 hmem with rfl | hmem
            · exact Lists.head (List.prefix_append _ _)
            · rw [List.mem_singleton.1 hmem]
              exact Lists.head List.prefix_rfl
          · rename_i node hnot hnode
            have hwalk : extendFrom fs links place (pathParts (name :: rest)) =
                extendFrom fs links (place ++ [name]) (pathParts rest) := by
              rw [hparts, extendFrom, segmentChains, if_neg hup, isSymlink_other hshows]
              · rfl
              · intro target hlink
                rw [hbelow] at hlink
                exact hnot target (hlink.symm.trans hnode |> Option.some.inj).symm
            have hrest := (ih hstep).behind
              (by rw [← hwalk]; exact hplace)
            rwa [← hwalk] at hrest
    · exact ⟨fun _ h => (by cases h), fun h => (by cases h), fun _ _ _ hmem => (by cases hmem)⟩

/-- **The chains and the kernel from one place on**, with so many links to follow. -/
theorem chains_follow (hshows : Shows fs root) (links : ℕ) (place : Path) (comps : List Str)
    (hnames : ∀ name ∈ place, name ≠ lit "..") :
    Follow (root.resolve links place comps) (extendFrom fs links place (pathParts comps)) := by
  induction links generalizing place comps with
  | zero =>
    refine lookups_follow hshows (fun _ _ _ _ _ _ => ?_) comps hnames
    exact ⟨fun _ h => (by cases h), fun _ => rfl, fun _ h => (by cases h)⟩
  | succ links ih =>
    refine lookups_follow hshows (fun place target rest entries hdir hnames => ?_) comps hnames
    rw [extend_succ]
    have hparts : pathParts (components target ++ rest) = (purePath target).parts ++ pathParts rest :=
      pathParts_append _ _
    by_cases habsolute : isAbsolute target = true
    · rw [if_pos habsolute, fromCwd, if_pos (show (purePath target).absolute = true from habsolute),
        ← hparts]
      exact ih _ _ fun _ hmem => (by cases hmem)
    · rw [if_neg habsolute, fromCwd,
        if_neg (show ¬(purePath target).absolute = true from habsolute), List.append_assoc, ← hparts,
        extendFrom_root hshows hdir hnames]
      exact ih _ _ hnames

/-- A link that steps back over the directory it is in. -/
def sampleTree : Node :=
  .dir [(lit "etc", .dir [(lit "policy", .link (lit "../srv/./policy"))]),
    (lit "srv", .dir [(lit "policy", .file)])]

/-- The links of the tree, and no answer about anything else. -/
def sampleSystem : FileSystem where
  isSymlink path := some (match sampleTree.at_ path with | some (.link _) => true | _ => false)
  readlink path :=
    match sampleTree.at_ path with
    | some (.link target) => some (purePath target)
    | _ => none
  lstat _ := none
  acl _ := none

example : namingChains sampleSystem (fromCwd [] (purePath (lit "/etc/policy"))) =
    some [chainOf [lit "etc", lit "policy"], chainOf [lit "etc"],
      chainOf [lit "srv", lit "policy"]] := by decide +kernel

end SayFirst.Plane
