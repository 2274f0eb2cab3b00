import Holdfast.Disk.Route

/-!
# Changes from outside

What a person or another program does to the disk of an engine, and what they see there.

* `Disk.place` and `Disk.removeAt` write and remove, as far as the disk lets them;
* `Disk.below` lists everything inside a folder.
-/

namespace Holdfast.Disk

/-- Write a whole file, with the folders around it. Where that is impossible, nothing is
written. -/
def place (d : Disk) (r : Route) (content : Bytes) : Disk :=
  match d.makeFoldersAlong r.names.tail with
  | (.error _, d) => d
  | (.ok (), d) =>
    match d.lookAlong r.names, r.namesFile with
    | .file _, true | .missing, true =>
      match d.perform (.createFile r.place) with
      | (.error _, d) => d
      | (.ok (), d) => (d.perform (.extendFile r.place content)).2
    | _, _ => d

/-- Remove what stands at a path, with everything in it. -/
def removeTree (d : Disk) (path : Path) : Disk :=
  { d with nodes := d.nodes.filter fun entry => !path.isSuffixOf entry.1 }

/-- Remove what a route leads to, with everything in it. A folder that is named by a point
stays behind empty. -/
def removeAt (d : Disk) (r : Route) : Disk :=
  match d.lookAlong r.names, r.ending with
  | .file _, .plain | .folder, .plain | .folder, .slash => d.removeTree r.place
  | .folder, .dot =>
    { d with
      nodes := d.nodes.filter fun entry => entry.1 = r.place || !r.place.isSuffixOf entry.1 }
  | _, _ => d

/-- Everything inside a folder, by the path from there. -/
def below (d : Disk) (folder : Path) : List (Path × Node) :=
  (d.nodes.filter fun entry =>
    folder.isSuffixOf entry.1 && folder.length < entry.1.length).map fun entry =>
      (entry.1.take (entry.1.length - folder.length), entry.2)

end Holdfast.Disk
