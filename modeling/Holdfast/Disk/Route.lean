import Holdfast.Disk

/-!
# Routes

A written path is a route: it is walked name by name, and each folder on the way has to be
there, also where the route leaves it again by `..`. A route may end in a slash or a point, as
only the path of a folder can.

* `Route.ofText` reads a written path, `Route.place` is where it leads if it can be walked;
* `Disk.lookAlong` walks a route;
* `Disk.readAlong`, `Disk.makeWay`, `Disk.replaceAlong`, `Disk.appendAlong` and
  `Disk.removeAlong` do along a route what is done elsewhere at a path.
-/

namespace Holdfast

/-- How a written path ends. -/
inductive Ending where
  /-- In a name. -/
  | plain
  /-- In a slash. -/
  | slash
  /-- In a point that stands for the folder itself. -/
  | dot
  deriving DecidableEq, Repr

/-- A written path, from the root. -/
structure Route where
  /-- The names on the way, from the last to the first. The name `..` leads to the folder
  around. -/
  names : Path
  ending : Ending := .plain
  deriving DecidableEq, Repr

namespace Route

/-- Whether a part of a written path stays where it is. -/
def isIdle (part : String) : Bool := part = "" || part = "."

/-- The route of a written path. -/
def ofText (text : String) : Route :=
  let parts := ((Path.splitSlash text.toList).map String.ofList).reverse
  let tail := parts.takeWhile isIdle
  { names := parts.filter fun part => !isIdle part
    ending := if tail.contains "." then .dot else if tail.isEmpty then .plain else .slash }

/-- Where names lead: `..` takes the name before it away. -/
def placeOf : Path → Path
  | [] => []
  | name :: up => (placeOf up).step name

/-- Where a route leads. -/
def place (r : Route) : Path := placeOf r.names

/-- The route to something in the folder at the end of a route. -/
def child (r : Route) (name : String) : Route := ⟨name :: r.names, .plain⟩

/-- Whether only a file can be meant: the route ends in the name of something. -/
def namesFile (r : Route) : Bool :=
  match r.names with
  | [] => false
  | name :: _ => name ≠ ".." && r.ending = .plain

/-- The names of the place at which a replacement is prepared. -/
def preparing : Path → Path
  | [] => [".tmp"]
  | name :: up => if name = ".." then ".tmp" :: name :: up else (name ++ ".tmp") :: up

/-- Longest possible written path, in octets. -/
def maxText : Nat := 4095

/-- Whether names can be passed to the disk at all. -/
def isWalkable (names : Path) : Bool :=
  names.foldl (fun octets name => octets + Utf8.size name + 1) 0 ≤ maxText &&
    names.all fun name => !name.toList.contains (Char.ofNat 0)

end Route

namespace Disk

/-- What one finds at the end of some names, each step of which has to be possible. -/
def walk (d : Disk) : Path → Sight
  | [] => .folder
  | name :: up =>
    match d.walk up with
    | .folder => d.look (Route.placeOf (name :: up))
    | .missing => .missing
    | .file _ | .blocked => .blocked

/-- What one finds at the end of a route. -/
def lookAlong (d : Disk) (names : Path) : Sight :=
  if Route.isWalkable names then d.walk names else .blocked

/-- Whether anything stands at the end of a route. -/
def existsAlong (d : Disk) (names : Path) : Bool :=
  match d.lookAlong names with
  | .file _ | .folder => true
  | .missing | .blocked => false

/-- What the folder at the end of a route holds, if there is one. -/
def childrenAlong (d : Disk) (r : Route) : List (String × Node) :=
  match d.lookAlong r.names with
  | .folder => d.children r.place
  | .file _ | .missing | .blocked => []

/-- The content of the file at the end of a route, `none` when nothing is there. -/
def readAlong (d : Disk) (r : Route) : Except Refusal (Option Bytes) :=
  match d.lookAlong r.names with
  | .file content => if r.ending = .plain then .ok (some content) else .error .denied
  | .missing => .ok none
  | .folder | .blocked => .error .denied

/-- Make the folders that some names lead through, unless they exist. -/
def makeFoldersAlong (d : Disk) : Path → Except Refusal Unit × Disk
  | [] => (.ok (), d)
  | name :: up =>
    match d.lookAlong (name :: up) with
    | .folder => (.ok (), d)
    | .file _ | .blocked => (.error .denied, d)
    | .missing =>
      match d.makeFoldersAlong up with
      | (.error refusal, d) => (.error refusal, d)
      | (.ok (), d) =>
        -- only the way was missing where the names lead back to a folder
        match d.lookAlong (name :: up) with
        | .folder => (.ok (), d)
        | _ => d.perform (.makeFolder (Route.placeOf (name :: up)))

/-- Make the folder at the end of a route and those on the way, unless they exist. A point
asks for a folder that is there already. -/
def makeWay (d : Disk) (r : Route) : Except Refusal Unit × Disk :=
  match r.ending with
  | .plain | .slash => d.makeFoldersAlong r.names
  | .dot =>
    match d.lookAlong r.names with
    | .missing =>
      match d.makeFoldersAlong r.names.tail with
      | (.error refusal, d) => (.error refusal, d)
      | (.ok (), d) =>
        match d.lookAlong r.names with
        | .folder => (.ok (), d)
        | _ => (.error .notFound, d)
    | _ => d.makeFoldersAlong r.names

/-- Replace the file at the end of a route. The replacement is prepared also where it cannot
be moved to its place. -/
def replaceAlong (d : Disk) (r : Route) (content : Bytes) : Except Refusal Unit × Disk :=
  match d.makeFoldersAlong r.names.tail with
  | (.error refusal, d) => (.error refusal, d)
  | (.ok (), d) =>
    if !Route.isWalkable (Route.preparing r.names) then (.error .denied, d)
    else if r.namesFile then d.replaceFile r.place content
    else
      match d.perform (.createFile (Route.placeOf (Route.preparing r.names))) with
      | (.error refusal, d) => (.error refusal, d)
      | (.ok (), d) =>
        match d.perform (.extendFile (Route.placeOf (Route.preparing r.names)) content) with
        | (.error refusal, d) => (.error refusal, d)
        | (.ok (), d) =>
          (.error .denied, (d.perform (.unlink (Route.placeOf (Route.preparing r.names)))).2)

/-- Add octets to the end of the file at the end of a route, which is made if it is
missing. -/
def appendAlong (d : Disk) (r : Route) (content : Bytes) : Except Refusal Unit × Disk :=
  if !r.namesFile then (.error .denied, d)
  else match d.lookAlong r.names.tail, d.lookAlong r.names with
    | .folder, .file _ | .folder, .missing => d.appendFile r.place content
    | .missing, .missing => (.error .notFound, d)
    | _, _ => (.error .denied, d)

/-- Delete the file at the end of a route; one that is gone already counts as deleted. -/
def removeAlong (d : Disk) (r : Route) : Except Refusal Unit × Disk :=
  match d.lookAlong r.names with
  | .missing => (.ok (), d)
  | .file _ => if r.ending = .plain then d.removeFile r.place else (.error .denied, d)
  | .folder | .blocked => (.error .denied, d)

/-! ## Routes without detours -/

/-- Names that only lead onwards lead to the place that they list. -/
theorem placeOf_eq_self {names : Path} (h : ∀ name ∈ names, !Route.isIdle name && name ≠ "..") :
    Route.placeOf names = names := by
  induction names with
  | nil => rfl
  | cons name up ih =>
    have hname := h name List.mem_cons_self
    have hup := ih fun other hother => h other (List.mem_cons_of_mem _ hother)
    simp only [Route.isIdle, Bool.and_eq_true, Bool.not_eq_true', Bool.or_eq_false_iff,
      decide_eq_false_iff_not, decide_eq_true_eq] at hname
    simp [Route.placeOf, Path.step, hup, hname.1.1, hname.1.2, hname.2]

/-- Walking along names that only lead onwards is looking at the place that they list. -/
theorem walk_eq_look {names : Path} (h : ∀ name ∈ names, !Route.isIdle name && name ≠ "..")
    (d : Disk) : d.walk names = d.look names := by
  induction names with
  | nil => rfl
  | cons name up ih =>
    have hup := ih fun other hother => h other (List.mem_cons_of_mem _ hother)
    have hplace := placeOf_eq_self h
    simp only [walk, hup, hplace]
    simp only [look, sight]
    split <;> simp_all

end Disk

end Holdfast
