import Holdfast.NameSet
import Holdfast.Package
import Holdfast.Store
import Holdfast.Transport

/-!
# The transport registry

The registered transports, the one that is selected, the transports that must be wiped
before their next backup, and the leases that are out.

* `TransportRegistry.register` and `TransportRegistry.unregister` change the set;
* `TransportRegistry.lease` and `TransportRegistry.dispose` hand out and take back leases;
* `TransportRegistry.setInitPending` marks a transport for wiping, in memory and by a file
  in the transport's own folder, so that the mark survives a restart.
-/

namespace Holdfast

/-- A registered transport as callers see it. -/
structure TransportState where
  name : String
  component : String
  selected : Bool
  /-- The transport's own folder, as written. -/
  folder : String
  pendingInit : Bool
  deriving DecidableEq, Repr

/-- The registered transports. -/
structure TransportRegistry where
  /-- The state folder, as written. -/
  root : String
  /-- Registered transports by name, in the order of registration. -/
  transports : List (String × TransportDescription) := []
  selected : Option String := none
  /-- Transports that must be wiped before their next backup. -/
  pendingInits : NameSet := .empty
  /-- Leases that are out. -/
  leases : List Lease := []
  /-- Number of the next lease. -/
  nextLease : Nat := 0

namespace TransportRegistry

/-- Name of the file that marks a transport for wiping. -/
def initMark : String := "_need_init_"

/-- The description registered under a name. -/
def get? (r : TransportRegistry) (name : String) : Option TransportDescription :=
  r.transports.lookup name

/-- Whether a transport of this name is registered. -/
def isRegistered (r : TransportRegistry) (name : String) : Bool := (r.get? name).isSome

/-- The registered names, in increasing order. -/
def names (r : TransportRegistry) : List String :=
  (NameSet.ofList (r.transports.map (·.1))).toList

/-- A folder inside the state folder, as written. -/
def folderText (r : TransportRegistry) (folderName : String) : String :=
  Path.joinText r.root folderName

/-- The way to a folder inside the state folder. -/
def folderRoute (r : TransportRegistry) (folderName : String) : Route :=
  Route.ofText (r.folderText folderName)

/-- Enter a description under its name, keeping the place of an earlier one. -/
def enter (transports : List (String × TransportDescription)) (t : TransportDescription) :
    List (String × TransportDescription) :=
  match transports with
  | [] => [(t.name, t)]
  | entry :: rest =>
    if entry.1 = t.name then (t.name, t) :: rest else entry :: enter rest t

/-- Register a transport and make its folder; whether it must be wiped first. -/
def register (r : TransportRegistry) (t : TransportDescription) (d : Disk) :
    Except Fault Bool × TransportRegistry × Disk :=
  let folder := r.folderRoute t.folderName
  match Store.makeWay d folder with
  | (.error e, d) => (.error e, r, d)
  | (.ok (), d) =>
    let pending := d.existsAlong (folder.child initMark).names
    let marks := if pending then r.pendingInits.insert t.name else r.pendingInits
    (.ok pending, { r with transports := enter r.transports t, pendingInits := marks }, d)

/-- Drop a transport; whether it was registered. -/
def unregister (r : TransportRegistry) (name : String) : Bool × TransportRegistry :=
  if r.isRegistered name then
    (true,
      { r with
        transports := r.transports.filter (fun entry => entry.1 ≠ name)
        pendingInits := r.pendingInits.erase name })
  else (false, r)

/-- Select a transport, registered or not. -/
def select (r : TransportRegistry) (name : String) : TransportRegistry :=
  { r with selected := some name }

/-- Lease a registered transport. -/
def lease (r : TransportRegistry) (name caller : String) : Option Lease × TransportRegistry :=
  if r.isRegistered name then
    let lease : Lease := ⟨r.nextLease, name, caller⟩
    (some lease, { r with leases := lease :: r.leases, nextLease := r.nextLease + 1 })
  else (none, r)

/-- Lease the selected transport. -/
def leaseCurrent (r : TransportRegistry) (caller : String) : Option Lease × TransportRegistry :=
  match r.selected with
  | some name => r.lease name caller
  | none => (none, r)

/-- Give a lease back; whether it was out. -/
def dispose (r : TransportRegistry) (lease : Lease) : Bool × TransportRegistry :=
  (r.leases.any (·.number == lease.number),
    { r with leases := r.leases.filter (fun other => other.number ≠ lease.number) })

/-- The folder name of a registered transport. -/
def folderName (r : TransportRegistry) (name : String) : Except Fault String :=
  match r.get? name with
  | some t => .ok t.folderName
  | none => .error (.unknownTransport name)

/-- The folder of a registered transport, as written. -/
def stateFolder (r : TransportRegistry) (name : String) : Except Fault String :=
  (r.folderName name).map r.folderText

/-- The file that records what the metadata backup sent to a transport, as written. -/
def metadataFile (r : TransportRegistry) (name : String) : Except Fault String :=
  (r.stateFolder name).map (Path.joinText · metadataPackage)

/-- Whether the metadata backup has run on a transport: its file is there and not empty. -/
def hasMetadata (r : TransportRegistry) (name : String) (d : Disk) : Bool :=
  match r.metadataFile name with
  | .error _ => false
  | .ok file =>
    match d.lookAlong (Route.ofText file).names with
    | .file content => !content.isEmpty
    | .folder => true
    | .missing | .blocked => false

/-- The name under which a component is registered. -/
def nameOfComponent? (r : TransportRegistry) (component : String) : Option String :=
  (r.transports.find? (·.2.component == component)).map (·.1)

/-- The names of the transports that a package hosts. -/
def hostedBy (r : TransportRegistry) (package : String) : List String :=
  (r.transports.filter (·.2.hostPackage == package)).map (·.1)

/-- Mark a transport for wiping, or take the mark away. Memory changes even when the file
cannot be changed. -/
def setInitPending (r : TransportRegistry) (pending : Bool) (name folderName : String)
    (d : Disk) : Except Fault Unit × TransportRegistry × Disk :=
  let mark := (r.folderRoute folderName).child initMark
  if pending then
    let (outcome, d) := Store.replaceAlong d mark (.ok [])
    (outcome, { r with pendingInits := r.pendingInits.insert name }, d)
  else
    let (outcome, d) := Store.removeAlong d mark
    (outcome, { r with pendingInits := r.pendingInits.erase name }, d)

/-- Whether a transport must be wiped before its next backup. -/
def isInitPending (r : TransportRegistry) (name : String) : Bool := r.pendingInits.contains name

/-- A registered transport as callers see it. -/
def stateOf (r : TransportRegistry) (t : TransportDescription) : TransportState where
  name := t.name
  component := t.component
  selected := r.selected == some t.name
  folder := r.folderText t.folderName
  pendingInit := r.isInitPending t.name

/-- Every registered transport, by increasing name. -/
def states (r : TransportRegistry) : List TransportState :=
  r.names.filterMap fun name => (r.get? name).map r.stateOf

end TransportRegistry

end Holdfast
