import Holdfast.Disk.Route
import Holdfast.Record

/-!
# Storing records

Files seen as holders of encoded records. An encoding that fails leaves the disk alone; a
refused file operation is the fault `Fault.io`.

* `Store.read`, `Store.replace`, `Store.append`, `Store.remove` act on whole files;
* `Store.readAlong`, `Store.replaceAlong`, `Store.appendAlong`, `Store.removeAlong` do so at
  the end of a route;
* `Store.texts` reads a file of texts up to its first torn record.
-/

namespace Holdfast.Store

/-- A refused file operation as a fault. -/
def toFault {α : Type} : Except Refusal α → Except Fault α
  | .ok a => .ok a
  | .error _ => .error .io

/-- The content of a file, `none` when nothing is there. -/
def read (d : Disk) (path : Path) : Except Fault (Option Bytes) :=
  toFault (d.readFile path)

/-- Replace a file by an encoding. -/
def replace (d : Disk) (path : Path) (content : Except Fault Bytes) : Except Fault Unit × Disk :=
  match content with
  | .error e => (.error e, d)
  | .ok bytes =>
    let (outcome, d) := d.replaceFile path bytes
    (toFault outcome, d)

/-- Add an encoding to the end of a file. -/
def append (d : Disk) (path : Path) (content : Except Fault Bytes) : Except Fault Unit × Disk :=
  match content with
  | .error e => (.error e, d)
  | .ok bytes =>
    let (outcome, d) := d.appendFile path bytes
    (toFault outcome, d)

/-- Delete a file, which may be gone already. -/
def remove (d : Disk) (path : Path) : Except Fault Unit × Disk :=
  let (outcome, d) := d.removeFile path
  (toFault outcome, d)

/-- Make a folder and the folders around it. -/
def makeFolders (d : Disk) (path : Path) : Except Fault Unit × Disk :=
  let (outcome, d) := d.makeFolders path
  (toFault outcome, d)

/-- The texts that a file holds, up to its first torn record; a missing file holds none. -/
def textsIn : Except Fault (Option Bytes) → Except Fault (List String)
  | .error e => .error e
  | .ok none => .ok []
  | .ok (some bytes) => .ok (Record.textsOf bytes)

/-- The texts of a file, up to its first torn record. -/
def texts (d : Disk) (path : Path) : Except Fault (List String) := textsIn (read d path)

/-! ## Along routes -/

/-- The content of the file at the end of a route, `none` when nothing is there. -/
def readAlong (d : Disk) (r : Route) : Except Fault (Option Bytes) := toFault (d.readAlong r)

/-- Replace the file at the end of a route by an encoding. -/
def replaceAlong (d : Disk) (r : Route) (content : Except Fault Bytes) :
    Except Fault Unit × Disk :=
  match content with
  | .error e => (.error e, d)
  | .ok bytes =>
    let (outcome, d) := d.replaceAlong r bytes
    (toFault outcome, d)

/-- Add an encoding to the file at the end of a route. -/
def appendAlong (d : Disk) (r : Route) (content : Except Fault Bytes) :
    Except Fault Unit × Disk :=
  match content with
  | .error e => (.error e, d)
  | .ok bytes =>
    let (outcome, d) := d.appendAlong r bytes
    (toFault outcome, d)

/-- Delete the file at the end of a route, which may be gone already. -/
def removeAlong (d : Disk) (r : Route) : Except Fault Unit × Disk :=
  let (outcome, d) := d.removeAlong r
  (toFault outcome, d)

/-- Make the folder at the end of a route and those on the way. -/
def makeWay (d : Disk) (r : Route) : Except Fault Unit × Disk :=
  let (outcome, d) := d.makeWay r
  (toFault outcome, d)

end Holdfast.Store
