import Holdfast.NameSet
import Holdfast.Store

/-!
# Dataset tokens

A token names a dataset on a transport, zero stands for none. The device remembers the
dataset it was once restored from and the dataset it is writing now.

* `Datasets.encode` writes the record; it depends on the set of packages alone, since a
  `NameSet` lists its members in one order;
* `Datasets.decode` reads it back;
* `Datasets.load` and `Datasets.save` keep it in a file. An absent, foreign or damaged file
  loads as the empty record.
-/

namespace Holdfast

/-- The datasets that a device knows of. -/
structure Datasets where
  /-- The dataset from which the device was restored. -/
  ancestral : UInt64 := 0
  /-- The dataset that the device is writing on the selected transport. -/
  current : UInt64 := 0
  /-- The packages of the ancestral dataset, `none` when unknown. -/
  packages : Option NameSet := none
  deriving DecidableEq

namespace Datasets

instance : Inhabited Datasets := ⟨{}⟩

/-- Name of the file inside the state folder. -/
def fileName : String := "ancestral"

/-- The version of the record that is written and understood. -/
def version : Int := 1

/-- A token as the record holds it. -/
def putToken (token : UInt64) : Bytes := beBytes 8 token.toNat

/-- The token that stands as a signed word in the record. -/
def tokenOfInt (i : Int) : UInt64 := UInt64.ofNat (wordOfInt 8 i)

/-- The packages with their number in front, or a negative number for none. -/
def putPackages : Option NameSet → Except Fault Bytes
  | none => .ok (Record.putInt32 (-1))
  | some packages =>
    if packages.size < Nat.pow 2 31 then do
      let texts ← Record.putTexts packages.toList
      return Record.putInt32 packages.size ++ texts
    else .error (.tooMany "too many ancestral packages")

/-- The record of the datasets. -/
def encode (t : Datasets) : Except Fault Bytes := do
  let packages ← putPackages t.packages
  return Record.putInt32 version ++ putToken t.ancestral ++ putToken t.current ++ packages

/-- Read the packages of a record. -/
def readPackages (r : Record.Reader) : Except Fault (Option NameSet) :=
  match r.int32 with
  | (.error e, _) => .error e
  | (.ok count, r) =>
    if count < 0 then .ok none
    else match r.textList count.toNat with
      | (.error e, _) => .error e
      | (.ok names, _) => .ok (some (NameSet.ofList names))

/-- Read the record of a file. Octets after the record are ignored. -/
def decode (bytes : Bytes) (file : String) : Except Fault Datasets :=
  let r : Record.Reader := ⟨file, bytes⟩
  match r.int32 with
  | (.error e, _) => .error e
  | (.ok found, r) =>
    if found ≠ version then .error (r.fault (.version found))
    else match r.int64 with
      | (.error e, _) => .error e
      | (.ok ancestral, r) =>
        match r.int64 with
        | (.error e, _) => .error e
        | (.ok current, r) =>
          match readPackages r with
          | .error e => .error e
          | .ok packages => .ok ⟨tokenOfInt ancestral, tokenOfInt current, packages⟩

/-- The record of a file, empty unless it can be read. -/
def load (d : Disk) (path : Path) : Datasets :=
  match Store.read d path with
  | .ok (some bytes) =>
    match decode bytes fileName with
    | .ok t => t
    | .error _ => {}
  | .ok none | .error _ => {}

/-- Write the record to a file. -/
def save (t : Datasets) (d : Disk) (path : Path) : Except Fault Unit × Disk :=
  Store.replace d path t.encode

end Datasets

end Holdfast
