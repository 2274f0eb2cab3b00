import Holdfast.Sorting
import Holdfast.Utf8

/-!
# The disk

A disk is a tree of folders and files together with the log of the effects that made it.
Every change goes through `Disk.perform`, which carries out one indivisible effect or
refuses it, so a crash can be placed between any two effects of an operation by cutting
the log.

* `Path` lists the names from a place up to the root;
* `Disk.look` finds what stands at a path;
* `Disk.Effect` and `Disk.perform` are the indivisible changes;
* `Disk.readFile`, `Disk.makeFolders`, `Disk.replaceFile`, `Disk.appendFile` and
  `Disk.removeFile` are what the rest of the engine uses.
-/

namespace Holdfast

/-- A place on the disk: its name, the name of its folder and so on up to the root. -/
abbrev Path := List String

namespace Path

/-- The place of the given name inside a folder. -/
def child (p : Path) (name : String) : Path := name :: p

/-- Take one more step of a written path. -/
def step (p : Path) (name : String) : Path :=
  if name = "" || name = "." then p
  else if name = ".." then p.tail
  else name :: p

/-- Cut a text at every slash. -/
def splitSlash (cs : List Char) : List (List Char) :=
  match cs with
  | [] => [[]]
  | c :: rest =>
    if c = '/' then [] :: splitSlash rest
    else match splitSlash rest with
      | [] => [[c]]
      | part :: parts => (c :: part) :: parts

/-- A path in writing. -/
def text (p : Path) : String := "/".intercalate p.reverse

/-- A written path with another one after it. An absolute path stands for itself. -/
def joinText (base name : String) : String :=
  if name.toList.head? = some '/' then name
  else if base = "" || base.toList.getLast? = some '/' then base ++ name
  else base ++ "/" ++ name

end Path

/-- What stands at a place. -/
inductive Node where
  | file (content : Bytes)
  | folder
  deriving DecidableEq, Repr

/-- What one finds when looking for a path. -/
inductive Sight where
  | file (content : Bytes)
  | folder
  /-- Nothing is there. -/
  | missing
  /-- The path leads through a file, or a name in it is not a possible name. -/
  | blocked
  deriving DecidableEq, Repr

/-- Why an effect is refused. -/
inductive Refusal where
  | notFound
  | denied
  deriving DecidableEq, Repr

namespace Disk

/-- The indivisible changes. -/
inductive Effect where
  | makeFolder (path : Path)
  /-- Make an empty file, or empty an existing one. -/
  | createFile (path : Path)
  /-- Add octets to the end of a file. -/
  | extendFile (path : Path) (content : Bytes)
  /-- Move a file, replacing a file that stands at its new place. -/
  | rename (source target : Path)
  | unlink (path : Path)
  deriving DecidableEq, Repr

end Disk

/-- A tree of folders and files with its history. -/
structure Disk where
  /-- What stands where; the root is a folder without being listed. -/
  nodes : List (Path × Node) := []
  /-- The effects carried out so far, newest first. -/
  log : List Disk.Effect := []
  /-- How many made-up names have been handed out. -/
  serial : Nat := 0
  deriving Repr

namespace Disk

instance : Inhabited Disk := ⟨{}⟩

/-- Longest possible name, in octets. -/
def maxName : Nat := 255

/-- Whether a file or folder can have this name. -/
def isName (name : String) : Bool :=
  Utf8.size name ≤ maxName && !name.toList.contains (Char.ofNat 0)

/-- What is listed at a path. -/
def node? (nodes : List (Path × Node)) (path : Path) : Option Node :=
  nodes.lookup path

/-- Look for a path, folder by folder. -/
def sight (nodes : List (Path × Node)) : Path → Sight
  | [] => .folder
  | name :: up =>
    match sight nodes up with
    | .folder =>
      if isName name then
        match node? nodes (name :: up) with
        | some (.file content) => .file content
        | some .folder => .folder
        | none => .missing
      else .blocked
    | .missing => .missing
    | .file _ => .blocked
    | .blocked => .blocked

/-- What stands at a path. -/
def look (d : Disk) (path : Path) : Sight := sight d.nodes path

/-- The listing without a path. -/
def without (nodes : List (Path × Node)) (path : Path) : List (Path × Node) :=
  nodes.filter (fun entry => entry.1 ≠ path)

/-- The listing with something new at a path. -/
def withNode (nodes : List (Path × Node)) (path : Path) (node : Node) : List (Path × Node) :=
  (path, node) :: without nodes path

/-- The refusal of a path at which something else was needed. -/
def refusal : Sight → Refusal
  | .missing => .notFound
  | .file _ | .folder | .blocked => .denied

/-- The listing after an effect, or why the effect cannot happen. -/
def after (nodes : List (Path × Node)) : Effect → Except Refusal (List (Path × Node))
  | .makeFolder path =>
    match sight nodes path, sight nodes path.tail with
    | .missing, .folder => .ok (withNode nodes path .folder)
    | .missing, other => .error (refusal other)
    | _, _ => .error .denied
  | .createFile path =>
    match sight nodes path, sight nodes path.tail with
    | .file _, _ => .ok (withNode nodes path (.file []))
    | .missing, .folder => .ok (withNode nodes path (.file []))
    | .missing, other => .error (refusal other)
    | _, _ => .error .denied
  | .extendFile path content =>
    match sight nodes path with
    | .file old => .ok (withNode nodes path (.file (old ++ content)))
    | other => .error (refusal other)
  | .rename source target =>
    match sight nodes source with
    | .file content =>
      match sight nodes target, sight nodes target.tail with
      | .file _, _ => .ok (withNode (without nodes source) target (.file content))
      | .missing, .folder => .ok (withNode (without nodes source) target (.file content))
      | .missing, other => .error (refusal other)
      | _, _ => .error .denied
    | other => .error (refusal other)
  | .unlink path =>
    match sight nodes path with
    | .file _ => .ok (without nodes path)
    | other => .error (refusal other)

/-- Carry out one effect, or refuse it and leave the disk alone. -/
def perform (d : Disk) (effect : Effect) : Except Refusal Unit × Disk :=
  match after d.nodes effect with
  | .ok nodes => (.ok (), { d with nodes, log := effect :: d.log })
  | .error refusal => (.error refusal, d)

/-! ## Reading -/

/-- The content of a file, `none` when nothing is there. -/
def readFile (d : Disk) (path : Path) : Except Refusal (Option Bytes) :=
  match d.look path with
  | .file content => .ok (some content)
  | .missing => .ok none
  | .folder | .blocked => .error .denied

/-- What a folder holds, with the names in increasing order. -/
def children (d : Disk) (folder : Path) : List (String × Node) :=
  let inside := d.nodes.filterMap fun entry =>
    match entry.1 with
    | name :: up => if up = folder then some (name, entry.2) else none
    | [] => none
  sortBy (fun a b => decide (a.1 ≤ b.1)) inside

/-! ## Changing -/

/-- Make a folder and the folders around it, unless they exist. -/
def makeFolders (d : Disk) : Path → Except Refusal Unit × Disk
  | [] => (.ok (), d)
  | name :: up =>
    match d.look (name :: up) with
    | .folder => (.ok (), d)
    | .file _ | .blocked => (.error .denied, d)
    | .missing =>
      match makeFolders d up with
      | (.error refusal, d) => (.error refusal, d)
      | (.ok (), d) => d.perform (.makeFolder (name :: up))

/-- The place at which a replacement is prepared. -/
def preparing : Path → Path
  | [] => []
  | name :: up => (name ++ ".tmp") :: up

/-- Replace a whole file: the new content is written beside it and moved over it, so the
file reads as before or as the new content at any time. -/
def replaceFile (d : Disk) (path : Path) (content : Bytes) : Except Refusal Unit × Disk :=
  match d.makeFolders path.tail with
  | (.error refusal, d) => (.error refusal, d)
  | (.ok (), d) =>
    match d.perform (.createFile (preparing path)) with
    | (.error refusal, d) => (.error refusal, d)
    | (.ok (), d) =>
      match d.perform (.extendFile (preparing path) content) with
      | (.error refusal, d) => (.error refusal, d)
      | (.ok (), d) =>
        match d.perform (.rename (preparing path) path) with
        | (.ok (), d) => (.ok (), d)
        -- the replacement must not stay behind
        | (.error refusal, d) => (.error refusal, (d.perform (.unlink (preparing path))).2)

/-- Add octets to the end of a file, which is made if it is missing. -/
def appendFile (d : Disk) (path : Path) (content : Bytes) : Except Refusal Unit × Disk :=
  match d.look path with
  | .missing =>
    match d.perform (.createFile path) with
    | (.error refusal, d) => (.error refusal, d)
    | (.ok (), d) => d.perform (.extendFile path content)
  | _ => d.perform (.extendFile path content)

/-- Delete a file; one that is gone already counts as deleted. -/
def removeFile (d : Disk) (path : Path) : Except Refusal Unit × Disk :=
  match d.perform (.unlink path) with
  | (.error .notFound, d) => (.ok (), d)
  | (outcome, d) => (outcome, d)

end Disk

end Holdfast
