import SayFirst.Spec.Access

/-!
# How a path is resolved

A finite tree of files, directories and symbolic links, and the resolution of a path in it as a
POSIX kernel makes it: component by component, a link replaced by what it names, at most forty of
them. The tree has no bound on the length of a name.

* `Node.resolve` — the directories a name is looked up in, the links that are followed, and what is
  reached.
* `Shows` — what `access/effective_access.py` sees of the tree.
-/

namespace SayFirst.Plane

open Py

inductive Node where
  | file
  | link (target : Str)
  | dir (entries : List (Str × Node))

/-- What a directory holds under a name. -/
def Node.child : Node → Str → Option Node
  | .dir entries, name => entries.lookup name
  | _, _ => none

/-- What stands at a path, no component of which is followed. -/
def Node.at_ : Node → Path → Option Node
  | node, [] => some node
  | node, name :: rest => (node.child name).bind (·.at_ rest)

/-- The components of a text, the empty ones and the dots among them. -/
def components (text : Str) : List Str := text.splitOn 47

def isAbsolute (text : Str) : Bool := text.head? == some 47

/-- A component that names no lookup. -/
def stays (name : Str) : Bool := name == [] || name == lit "."

/-- `Path(text)`: `pathlib` drops the empty components and the dots. -/
def purePath (text : Str) : LinkTarget :=
  ⟨isAbsolute text, (components text).filter fun name => !stays name⟩

/-- `Path.cwd() / path` -/
def fromCwd (cwd : Path) (path : LinkTarget) : Path :=
  if path.absolute then path.parts else cwd ++ path.parts

/-! ## The kernel -/

inductive Errno where
  | noEntry
  | notDirectory
  | loop
  deriving DecidableEq, Repr

inductive Visit where
  /-- A name is looked up in the directory. -/
  | directory (path : Path)
  /-- The link is followed. -/
  | link (path : Path)
  deriving DecidableEq

structure Resolution where
  visits : List Visit
  outcome : Except Errno Path

def Resolution.behind (r : Resolution) (visits : List Visit) : Resolution :=
  { r with visits := visits ++ r.visits }

/-- The components from a place on, to the first link. -/
def Node.lookups (root : Node) (follow : Path → List Str → Resolution) (place : Path) :
    List Str → Resolution
  | [] => ⟨[], .ok place⟩
  | name :: rest =>
    match root.at_ place with
    | some (.dir entries) =>
      if stays name then root.lookups follow place rest
      else if name = lit ".." then
        (root.lookups follow place.dropLast rest).behind [.directory place]
      else
        match entries.lookup name with
        | none => ⟨[.directory place], .error .noEntry⟩
        | some (.link target) =>
          (follow (if isAbsolute target then [] else place) (components target ++ rest)).behind
            [.directory place, .link (place ++ [name])]
        | some _ => (root.lookups follow (place ++ [name]) rest).behind [.directory place]
    | _ => ⟨[], .error .notDirectory⟩

/-- The resolution of components from a place on; so many links may still be followed. -/
def Node.resolve (root : Node) : ℕ → Path → List Str → Resolution
  | 0 => root.lookups fun _ _ => ⟨[], .error .loop⟩
  | links + 1 => root.lookups (root.resolve links)

/-- The resolution of a path by a process in a directory. -/
def Node.resolvePath (root : Node) (cwd : Path) (path : LinkTarget) : Resolution :=
  root.resolve maxLinks (if path.absolute then [] else cwd) path.parts

/-! ## What the control plane sees -/

/-- Which paths are links, and what they name. -/
structure Shows (fs : FileSystem) (root : Node) : Prop where
  isSymlink : ∀ path, fs.isSymlink path =
    some (match root.at_ path with | some (.link _) => true | _ => false)
  readlink : ∀ path target, root.at_ path = some (.link target) →
    fs.readlink path = some (purePath target)

/-- The directory of a process: it is in the tree, under names that are no `..`. -/
structure WorkingDirectory (root : Node) (cwd : Path) : Prop where
  entries : ∃ entries, root.at_ cwd = some (.dir entries)
  names : ∀ name ∈ cwd, name ≠ lit ".."

end SayFirst.Plane
