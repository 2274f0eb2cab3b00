import Holdfast.Package
import Holdfast.Transport

/-!
# The device around the engine

What the engine drives but does not own: the catalog of installed packages, the agents of
the packages, the remote ends of the transports, the wall clock, the wake lock, the job
scheduler, observers and the installer. Here they follow a script, and everything they are
told is noted in order.

* `Device.Notice` is one thing that a collaborator was told;
* `Device.Station` is the scripted remote end of a transport: `Device.Station.answer` picks
  its reply to a call;
* `Device.Behaviour` says what a package's agent does when it is bound and given work;
* `Device` holds it all.
-/

namespace Holdfast

/-- The calls that a transport understands. -/
inductive TransportMethod where
  | currentRestoreSet
  | restoreSets
  | initializeDevice
  | performBackup
  | performFullBackup
  | finishBackup
  | clearBackupData
  | startRestore
  | finishRestore
  deriving DecidableEq, Repr

namespace TransportMethod

/-- Spelling of a method. -/
def name : TransportMethod → String
  | .currentRestoreSet => "current_restore_set"
  | .restoreSets => "restore_sets"
  | .initializeDevice => "initialize_device"
  | .performBackup => "perform_backup"
  | .performFullBackup => "perform_full_backup"
  | .finishBackup => "finish_backup"
  | .clearBackupData => "clear_backup_data"
  | .startRestore => "start_restore"
  | .finishRestore => "finish_restore"

/-- Every method. -/
def all : List TransportMethod :=
  [.currentRestoreSet, .restoreSets, .initializeDevice, .performBackup, .performFullBackup,
    .finishBackup, .clearBackupData, .startRestore, .finishRestore]

/-- The method of a given spelling. -/
def ofName? (s : String) : Option TransportMethod := all.find? (·.name == s)

end TransportMethod

/-- A call to a transport. -/
inductive TransportCall where
  /-- Which dataset is being written? -/
  | currentRestoreSet
  /-- Which datasets are there? -/
  | restoreSets
  /-- Wipe the dataset of this device. -/
  | initializeDevice
  | performBackup (package : String) (nonIncremental : Bool)
  | performFullBackup (package : String)
  /-- Commit everything sent since the last call. -/
  | finishBackup
  | clearBackupData (package : String)
  | startRestore (token : UInt64) (packages : List String)
  | finishRestore
  deriving DecidableEq, Repr

namespace TransportCall

/-- The method that a call uses. -/
def method : TransportCall → TransportMethod
  | .currentRestoreSet => .currentRestoreSet
  | .restoreSets => .restoreSets
  | .initializeDevice => .initializeDevice
  | .performBackup _ _ => .performBackup
  | .performFullBackup _ => .performFullBackup
  | .finishBackup => .finishBackup
  | .clearBackupData _ => .clearBackupData
  | .startRestore _ _ => .startRestore
  | .finishRestore => .finishRestore

/-- The package whose own reply a call asks for. -/
def package? : TransportCall → Option String
  | .performBackup package _ | .performFullBackup package | .clearBackupData package =>
    some package
  | .currentRestoreSet | .restoreSets | .initializeDevice | .finishBackup
  | .startRestore _ _ | .finishRestore => none

end TransportCall

/-- What an agent is told. -/
inductive AgentNotice where
  | bind (mode : AgentMode)
  | backup (nonIncremental : Bool)
  | fullBackup
  | restore (token : UInt64)
  | unbind
  | kill
  deriving DecidableEq, Repr

namespace Device

/-- One thing that a collaborator was told. -/
inductive Notice where
  | agent (package : String) (notice : AgentNotice)
  /-- The host of the agents was told to forget a bind. -/
  | clearPending
  | transport (name : String) (call : TransportCall)
  /-- The key-value job was scheduled after a delay. -/
  | keyValueJob (delay : Nat)
  | keyValueJobCanceled
  /-- The full-backup job was scheduled after a delay. -/
  | fullJob (delay : Nat)
  | result (observer package : String) (status : Status)
  | finished (observer : String) (status : Status)
  /-- The installer was told whether a restore was launched. -/
  | installed (token : Int) (launched : Bool)
  deriving DecidableEq, Repr

/-- What a transport answers to a call that moves data. -/
abbrev Reply := Except TransportFault TransportStatus

/-- The scripted remote end of a transport. -/
structure Station where
  /-- Replies to use first, by method. -/
  once : List (TransportMethod × List Reply) := []
  /-- Replies to calls for single packages. -/
  packages : List (String × Reply) := []
  /-- Replies otherwise, by method. -/
  usual : List (TransportMethod × Reply) := []
  /-- The dataset being written. -/
  restoreSet : Except TransportFault UInt64 := .ok 77
  restoreSets : Except TransportFault (List RestoreSet) := .ok []
  /-- Methods whose calls do not come back for now. -/
  held : List TransportMethod := []

/-- Replace what is listed under a key. -/
def setKey {α β : Type} [DecidableEq α] (key : α) (value : β) (entries : List (α × β)) :
    List (α × β) :=
  (key, value) :: entries.filter (fun entry => entry.1 ≠ key)

namespace Station

/-- The reply to a call when none is left to use first. -/
def usualReply (s : Station) (call : TransportCall) : Reply :=
  match call.package?.bind (fun package => s.packages.lookup package) with
  | some reply => reply
  | none => (s.usual.lookup call.method).getD (.ok .ok)

/-- The reply to a call: the first of the replies to use first, else the package's own, else
the method's, else success. -/
def answer (s : Station) (call : TransportCall) : Reply × Station :=
  match s.once.lookup call.method with
  | some (reply :: rest) => (reply, { s with once := setKey call.method rest s.once })
  | some [] | none => (s.usualReply call, s)

end Station

/-- What a package's agent does. -/
inductive Behaviour where
  /-- Connects at once and acknowledges work at once. -/
  | normal
  /-- Connects at once and acknowledges work twice. -/
  | double
  /-- Connects at once and never acknowledges. -/
  | silent
  /-- Never connects. -/
  | unreachable
  /-- Refuses to be bound. -/
  | refuse
  /-- Goes away while it is being bound. -/
  | disconnect
  /-- Another package's agent connects in its place. -/
  | wrong
  deriving DecidableEq, Repr

/-- Spelling of a behaviour. -/
def Behaviour.name : Behaviour → String
  | .normal => "normal"
  | .double => "double"
  | .silent => "silent"
  | .unreachable => "unreachable"
  | .refuse => "refuse"
  | .disconnect => "disconnect"
  | .wrong => "wrong"

/-- Every behaviour. -/
def Behaviour.all : List Behaviour :=
  [.normal, .double, .silent, .unreachable, .refuse, .disconnect, .wrong]

/-- The behaviour of a given spelling. -/
def Behaviour.ofName? (s : String) : Option Behaviour := Behaviour.all.find? (·.name == s)

end Device

/-- Everything around the engine. -/
structure Device where
  /-- Installed packages, in the order of their first installation. -/
  catalog : List Package := []
  /-- Identities with visible windows. -/
  foreground : List Nat := []
  behaviours : List (String × Device.Behaviour) := []
  stations : List (String × Device.Station) := []
  /-- The wall clock, in milliseconds since the epoch. -/
  now : Int := 0
  /-- Upcoming random draws; without one, every draw is zero. -/
  chance : List Nat := []
  /-- Upcoming random words for tokens. -/
  words : List UInt32 := []
  /-- What the collaborators were told, newest first. -/
  log : List Device.Notice := []
  wakeAcquired : Nat := 0
  wakeReleased : Nat := 0

namespace Device

instance : Inhabited Device := ⟨{}⟩

/-- Note one thing. -/
def note (d : Device) (notice : Notice) : Device := { d with log := notice :: d.log }

/-- Take the wake lock. -/
def acquireWake (d : Device) : Device := { d with wakeAcquired := d.wakeAcquired + 1 }

/-- Release the wake lock. -/
def releaseWake (d : Device) : Device := { d with wakeReleased := d.wakeReleased + 1 }

/-- Draw a number below `bound`, zero when there is none. -/
def draw (d : Device) (bound : Nat) : Nat × Device :=
  match bound, d.chance with
  | 0, _ => (0, d)
  | _, [] => (0, d)
  | bound, drawn :: rest => (drawn % bound, { d with chance := rest })

/-- Draw a random word, `other` when none is left. -/
def drawWord (d : Device) (other : UInt32) : UInt32 × Device :=
  match d.words with
  | [] => (other, d)
  | word :: rest => (word, { d with words := rest })

/-- Set the wall clock. -/
def setClock (d : Device) (now : Int) : Device := { d with now }

/-- Move the wall clock, which is a signed 64-bit word. -/
def advanceClock (d : Device) (ms : Int) : Device := { d with now := wrapI64 (d.now + ms) }

/-- What the collaborators were told since the last look, oldest first. -/
def takeNotices (d : Device) : List Notice × Device := (d.log.reverse, { d with log := [] })

/-- The installed package of a name. -/
def package? (d : Device) (name : String) : Option Package :=
  d.catalog.find? (·.name == name)

/-- Whether an identity has visible windows. -/
def isForeground (d : Device) (uid : Nat) : Bool := d.foreground.contains uid

/-- List a package, in place of an earlier one of its name. -/
def listPackage (p : Package) : List Package → List Package
  | [] => [p]
  | q :: rest => if q.name = p.name then p :: rest else q :: listPackage p rest

/-- Install a package. -/
def install (d : Device) (p : Package) : Device :=
  { d with catalog := listPackage p d.catalog }

/-- Uninstall a package. -/
def uninstall (d : Device) (name : String) : Device :=
  { d with catalog := d.catalog.filter (fun p => p.name ≠ name) }

/-- Bring an identity to the foreground or take it away. -/
def setForeground (d : Device) (uid : Nat) (on : Bool) : Device :=
  let others := d.foreground.filter (fun other => other ≠ uid)
  { d with foreground := if on then uid :: others else others }

/-- What the agent of a package does. -/
def behaviour (d : Device) (package : String) : Behaviour :=
  (d.behaviours.lookup package).getD .normal

/-- Script the agent of a package. -/
def setBehaviour (d : Device) (package : String) (b : Behaviour) : Device :=
  { d with behaviours := setKey package b d.behaviours }

/-- The remote end of a transport. -/
def station (d : Device) (name : String) : Station := (d.stations.lookup name).getD {}

/-- Script the remote end of a transport. -/
def setStation (d : Device) (name : String) (s : Station) : Device :=
  { d with stations := setKey name s d.stations }

/-- Let calls of a method come back again. -/
def release (d : Device) (name : String) (method : TransportMethod) : Device :=
  let station := d.station name
  d.setStation name { station with held := station.held.filter (fun other => other ≠ method) }

/-- Whether calls of a method do not come back for now. -/
def isHeld (d : Device) (name : String) (method : TransportMethod) : Bool :=
  (d.station name).held.contains method

/-- The reply of a transport to a call. -/
def answer (d : Device) (name : String) (call : TransportCall) : Reply × Device :=
  let (reply, station) := (d.station name).answer call
  (reply, d.setStation name station)

end Device

end Holdfast
