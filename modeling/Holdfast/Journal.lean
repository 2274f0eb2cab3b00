import Holdfast.Store

/-!
# Change journals

A journal is a file that lists the packages whose data changed, in the order in which they
announced it. Each generation is a file of its own in the journal folder; what is left there
at a start belongs to passes that never finished.

* `Journal.create` makes a new, empty generation under a name not in use;
* `Journal.add` appends a package, `Journal.packages` lists them;
* `Journal.list` finds every generation in a folder.
-/

namespace Holdfast

/-- One generation of the change journal. -/
structure Journal where
  path : Path
  deriving DecidableEq, Repr

namespace Journal

/-- Beginning of the name of every journal file. -/
def lead : String := "journal-"

/-- The made-up name of a given number. -/
def nameOf (n : Nat) : String := lead ++ String.ofList (hexDigits 32 n)

/-- The first number from `n` on whose name is not taken, looking at no more than `fuel`
of them. -/
def firstFree (taken : List String) (n : Nat) : Nat → Nat
  | 0 => n
  | fuel + 1 => if taken.contains (nameOf n) then firstFree taken (n + 1) fuel else n

/-- Make a new, empty generation. -/
def create (d : Disk) (folder : Path) : Except Fault Journal × Disk :=
  match Store.makeFolders d folder with
  | (.error e, d) => (.error e, d)
  | (.ok (), d) =>
    -- numbers are never handed out twice, even after their files are gone
    let taken := (d.children folder).map (·.1)
    let n := firstFree taken d.serial (taken.length + 1)
    let d := { d with serial := n + 1 }
    let path := folder.child (nameOf n)
    match d.perform (.createFile path) with
    | (.error _, d) => (.error .io, d)
    | (.ok (), d) => (.ok ⟨path⟩, d)

/-- Append a package. -/
def add (j : Journal) (package : String) (d : Disk) : Except Fault Unit × Disk :=
  Store.append d j.path (Record.putText package)

/-- The packages of a generation, in the order in which they were written. -/
def packages (j : Journal) (d : Disk) : Except Fault (List String) :=
  Store.texts d j.path

/-- Delete a generation. -/
def delete (j : Journal) (d : Disk) : Except Fault Unit × Disk :=
  Store.remove d j.path

/-- Whether a file of this name is a journal. -/
def isJournalName (name : String) : Bool := lead.toList.isPrefixOf name.toList

/-- Whether a name has the form of a made-up one. -/
def isMadeUp (name : String) : Bool :=
  let digits := name.toList.drop lead.length
  isJournalName name && digits.length == 32 && digits.all fun c => (hexValue? c).isSome

/-- Every generation in a folder, by increasing name. A folder that cannot be listed has
none. -/
def list (d : Disk) (folder : Path) : List Journal :=
  match d.look folder with
  | .folder =>
    (d.children folder).filterMap fun entry =>
      match entry.2 with
      | .file _ => if isJournalName entry.1 then some ⟨folder.child entry.1⟩ else none
      | .folder => none
  | .file _ | .missing | .blocked => []

end Journal

end Holdfast
