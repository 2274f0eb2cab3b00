import Holdfast.Journal

/-!
# Journals by written paths

A journal that is known by a written path rather than by its place. The two differ where the
path leads through folders that are missing.

* `WrittenJournal.create`, `WrittenJournal.add`, `WrittenJournal.packages` and
  `WrittenJournal.delete` do what those of `Journal` do;
* `WrittenJournal.list` finds every generation in a folder.
-/

namespace Holdfast

/-- One generation of the change journal, by its path. -/
structure WrittenJournal where
  route : Route
  deriving DecidableEq, Repr

namespace WrittenJournal

/-- The journal of a given name in a folder. -/
def ofPath (path : String) : WrittenJournal := ⟨Route.ofText path⟩

/-- The name of the file. -/
def name (j : WrittenJournal) : String := j.route.names.headD ""

/-- Whether two paths name the same file; a slash at the end does not matter. -/
def same (j k : WrittenJournal) : Bool := j.route.names = k.route.names

/-- Make a new, empty generation. -/
def create (d : Disk) (folder : Route) : Except Fault WrittenJournal × Disk :=
  match Store.makeWay d folder with
  | (.error e, d) => (.error e, d)
  | (.ok (), d) =>
    match Journal.create d folder.place with
    | (.error e, d) => (.error e, d)
    | (.ok j, d) => (.ok ⟨folder.child (j.path.headD "")⟩, d)

/-- Append a package. -/
def add (j : WrittenJournal) (package : String) (d : Disk) : Except Fault Unit × Disk :=
  Store.appendAlong d j.route (Record.putText package)

/-- The packages of a generation, in the order in which they were written. -/
def packages (j : WrittenJournal) (d : Disk) : Except Fault (List String) :=
  Store.textsIn (Store.readAlong d j.route)

/-- Delete a generation. -/
def delete (j : WrittenJournal) (d : Disk) : Except Fault Unit × Disk :=
  Store.removeAlong d j.route

/-- Every generation in a folder, by increasing name. -/
def list (d : Disk) (folder : Route) : List WrittenJournal :=
  match d.lookAlong folder.names with
  | .folder => (Journal.list d folder.place).map fun j => ⟨folder.child (j.path.headD "")⟩
  | .file _ | .missing | .blocked => []

end WrittenJournal

end Holdfast
