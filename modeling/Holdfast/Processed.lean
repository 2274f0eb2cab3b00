import Holdfast.NameSet
import Holdfast.Package
import Holdfast.Store

/-!
# Processed packages

The packages that have been backed up at least once into the current dataset: a set in
memory and an append-only file that is read once, when the journal is opened.

* `Processed.openAt` reads what survived on disk;
* `Processed.add` records a package, in memory even when the file cannot be written;
* `Processed.reset` forgets everything.
-/

namespace Holdfast

/-- The packages backed up so far. -/
structure Processed where
  path : Path
  packages : NameSet

namespace Processed

/-- Name of the file inside the state folder. -/
def fileName : String := "processed"

/-- Open the journal of a state folder. -/
def openAt (folder : Path) (d : Disk) : Processed :=
  let path := folder.child fileName
  match Store.texts d path with
  | .ok names => ⟨path, NameSet.ofList names⟩
  | .error _ => ⟨path, .empty⟩

/-- Whether a package has been backed up. -/
def has (p : Processed) (package : String) : Bool := p.packages.contains package

/-- Record a package as backed up. -/
def add (p : Processed) (package : String) (d : Disk) : Except Fault Unit × Processed × Disk :=
  if package = metadataPackage || p.has package then (.ok (), p, d)
  else
    let (outcome, d) := Store.append d p.path (Record.putText package)
    -- memory knows the package even when the file does not
    (outcome, { p with packages := p.packages.insert package }, d)

/-- Forget every package and delete the file. -/
def reset (p : Processed) (d : Disk) : Except Fault Unit × Processed × Disk :=
  let (outcome, d) := Store.remove d p.path
  (outcome, { p with packages := .empty }, d)

end Processed

end Holdfast
