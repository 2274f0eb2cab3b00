import Holdfast.Engine.Full

/-!
# Calls into the engine

What callers, agents, the installer and administrators can ask of the engine, apart from
restores. A call either acts at once or posts a command.

* `System.dataChanged`, `System.requestBackup`, `System.backupNow`, `System.cancelBackups`;
* `System.registerTransport`, `System.selectTransport`, `System.clearData`;
* `System.setEnabled`, `System.setProvisioned`;
* `System.packageAdded`, `System.packageRemoved`, `System.packageChanged`;
* `System.agentConnected`, `System.agentDisconnected`, `System.complete`.
-/

namespace Holdfast.System

/-! ## Changes and backups -/

/-- The packages that a caller may announce as changed. -/
def changeTargets (s : System) (caller : Caller) (package : String) : NameSet :=
  if !caller.privileged then (s.engine.participants.lookup caller.uid).getD .empty
  else if package = metadataPackage then NameSet.ofList [metadataPackage]
  else s.allParticipants

/-- A package reports that its data changed. -/
def dataChanged (s : System) (caller : Caller) (package : String) : Except Fault Unit × System :=
  let targets := s.changeTargets caller package
  if targets.isEmpty then (.ok (), s) else s.send (.dataChanged package targets)

/-- Sort the packages of a request: key-value, full, or neither, of which the observer is
told. -/
def classify (s : System) (observer : Option String) :
    List String → List String × List String × System
  | [] => ([], [], s)
  | package :: rest =>
    if package = metadataPackage then
      let (keyValue, full, s) := s.classify observer rest
      (package :: keyValue, full, s)
    else match s.device.package? package with
      | none =>
        (s.tellResult observer package .packageNotFound).classify observer rest
      | some p =>
        if p.isParticipant then
          let (keyValue, full, s) := s.classify observer rest
          (package :: keyValue, full, s)
        else if p.getsFullBackup then
          let (keyValue, full, s) := s.classify observer rest
          (keyValue, package :: full, s)
        else (s.tellResult observer package .packageNotEligible).classify observer rest

/-- Back up a list of packages now. -/
def requestBackup (s : System) (caller : Caller) (packages : List String)
    (observer : Option String) (nonIncremental : Bool) : Status × System :=
  if packages.isEmpty then (.noPackages, s)
  else if !caller.privileged then (.notAllowed, s)
  else if !s.engine.policy.allows then (.notAllowed, s)
  else match s.engine.transports.leaseCurrent "request-backup" with
    | (none, _) => (.transportAborted, s)
    | (some lease, transports) =>
      let s := s.onEngine fun e => { e with transports }
      let (keyValue, full, s) := s.classify observer packages
      match s.send (.requestBackup ⟨lease, keyValue, full, observer, nonIncremental⟩) with
      | (.ok (), s) => (.success, s)
      | (.error _, s) => (.transportAborted, s)

/-- The key-value job: back up everything pending. -/
def runPass (s : System) : Except Fault Unit × System := s.send .runKeyValue

/-- Back up everything pending now, unless battery saver is on. -/
def backupNow (s : System) : Except Fault Unit × System :=
  if s.engine.policy.batterySaver then (.ok (), s.scheduleKeyValueJob) else s.runPass

/-- Cancel every pass that runs and push both jobs back. -/
def cancelBackups (s : System) : System :=
  let s := s.engine.ops.pendingTasks.foldl cancelOperation s
  let busy := s.engine.settings.busyMin
  (s.note (.keyValueJob busy)).note (.fullJob (min (busy * 2) maxU64))

/-! ## Transports -/

/-- Register a transport. One that is marked for wiping is wiped after a short delay. -/
def registerTransport (s : System) (t : TransportDescription) : Except Fault Unit × System :=
  match s.engine.transports.register t s.disk with
  | (.error e, transports, disk) =>
    (.error e, { s with disk }.onEngine fun e => { e with transports })
  | (.ok pendingInit, transports, disk) =>
    let s := { s with disk }.onEngine fun e => { e with transports }
    let s :=
      if pendingInit then
        (s.postDelayed (.wipe [t.name] none) s.engine.settings.transportInitDelay).2
      else s
    (.ok (), s)

/-- Drop a transport; whether it was registered. -/
def unregisterTransport (s : System) (name : String) : Bool × System :=
  let (removed, transports) := s.engine.transports.unregister name
  (removed, s.onEngine fun e => { e with transports })

/-- Ask a transport which dataset it is writing, under a lease for as long as that takes;
`none` when it is not registered. -/
def askDataset (s : System) (name : String) : Option Lease × System :=
  match s.engine.transports.lease name "select-transport" with
  | (none, _) => (none, s)
  | (some lease, transports) =>
    (some lease, (s.onEngine fun e => { e with transports }).note
      (.transport name .currentRestoreSet))

/-- Select a transport and ask for its dataset; `none` when another one is prescribed. -/
def beginSelect (s : System) (name : String) : Option (Option Lease) × System :=
  if s.engine.policy.isTransportAllowed name s.engine.transports then
    let (lease, s) :=
      (s.onEngine fun e => { e with transports := e.transports.select name }).askDataset name
    (some lease, s)
  else (none, s)

/-- The dataset that a transport says it is writing, zero when it cannot say. -/
def datasetOf (s : System) (lease : Option Lease) : UInt64 :=
  match lease with
  | none => 0
  | some lease =>
    match (s.device.station lease.transport).restoreSet with
    | .ok token => token
    | .error _ => 0

/-- The transport answered which dataset it is writing. -/
def endSelect (s : System) (lease : Option Lease) : System :=
  let token := s.datasetOf lease
  ((s.dispose lease).setCurrentDataset token).2

/-- Select a transport, unless another one is prescribed; the selection before the call. -/
def selectTransport (s : System) (name : String) : Option String × System :=
  let before := s.engine.transports.selected
  match s.beginSelect name with
  | (none, s) => (before, s)
  | (some lease, s) => (before, s.endSelect lease)

/-- Wipe transports. -/
def initializeTransports (s : System) (transports : List String) (observer : Option String) :
    Except Fault Unit × System :=
  s.send (.wipe transports observer)

/-- Clear the data of a package on a transport. -/
def clearData (s : System) (caller : Caller) (transport package : String) :
    Except Fault Unit × System :=
  match s.device.package? package with
  | none => (.error (.unknownPackage package), s)
  | some p =>
    if !caller.privileged && caller.uid != p.uid then
      (.error (.denied (.clearData caller.uid package)), s)
    else s.send (.clearData transport package)

/-! ## Switches -/

/-- Mark several transports for wiping. -/
def markAll (s : System) (names : List String) : System :=
  names.foldl (fun s name =>
    match s.engine.transports.folderName name with
    | .ok folderName => s.setInitPending true name folderName
    | .error _ => s) s

/-- Switch backup on or off. Switching it off has every transport wiped. -/
def setEnabled (s : System) (on : Bool) : Except Fault Unit × System :=
  match s.engine.policy.setEnabled on s.disk with
  | (.error rejection, _, _) => (.error (.rejected rejection), s)
  | (.ok before, policy, disk) =>
    let s := { s with disk }.onEngine fun e => { e with policy }
    match on, before with
    | true, false => (.ok (), s.scheduleKeyValueJob.scheduleNextFullJob 0)
    | false, true =>
      let s := s.note .keyValueJobCanceled
      let names := s.engine.transports.names
      let s := s.markAll names
      (.ok (), (s.postDelayed (.wipe names none) s.engine.settings.initDelay).2)
    | true, true | false, false => (.ok (), s)

/-- Change the policy. -/
def onPolicy (s : System) (f : Policy → Policy) : System :=
  s.onEngine fun e => { e with policy := f e.policy }

/-- The setup of the device is complete, or is not any more. -/
def setProvisioned (s : System) (on : Bool) : System :=
  let before := s.engine.policy.provisioned
  let s := s.onPolicy fun p => { p with provisioned := on }
  if on && !before && s.engine.policy.enabled then s.scheduleKeyValueJob.scheduleNextFullJob 0
  else s

/-- Switch automatic restore. -/
def setAutoRestore (s : System) (on : Bool) : System :=
  s.onPolicy fun p => { p with autoRestore := on }

/-- Switch battery saver. -/
def setBatterySaver (s : System) (on : Bool) : System :=
  s.onPolicy fun p => { p with batterySaver := on }

/-- Prescribe a transport by its component, or none. -/
def setMandatory (s : System) (component : Option String) : System :=
  s.onPolicy fun p => { p with mandatory := component }

/-! ## Packages -/

/-- Take a package out of every identity's participants. -/
def withoutParticipant (participants : List (Nat × NameSet)) (package : String) :
    List (Nat × NameSet) :=
  participants.map fun entry => (entry.1, entry.2.erase package)

/-- Enter a package among the participants of an identity. -/
def withParticipant (participants : List (Nat × NameSet)) (uid : Nat) (package : String) :
    List (Nat × NameSet) :=
  match participants with
  | [] => [(uid, NameSet.ofList [package])]
  | entry :: rest =>
    if entry.1 = uid then (uid, entry.2.insert package) :: rest
    else entry :: withParticipant rest uid package

/-- The list of installed packages changed. -/
def stageMetadata (s : System) : System :=
  s.post (.dataChanged metadataPackage (NameSet.ofList [metadataPackage]))

/-- A package was installed, or installed anew. -/
def packageAdded (s : System) (package : String) (replacing : Bool) : System :=
  match s.device.package? package with
  | none => s
  | some p =>
    let s :=
      if replacing then
        s.onEngine fun e => { e with participants := withoutParticipant e.participants package }
      else s
    let s :=
      if p.isParticipant then
        (s.onEngine fun e =>
          { e with participants := withParticipant e.participants p.uid package }).post
          (.dataChanged package (NameSet.ofList [package]))
      else s
    if p.getsFullBackup then
      let s := (s.enqueueFull package s.now).scheduleNextFullJob 0
      if s.nextDueFits then s.stageMetadata else s
    else
      ((s.onEngine fun e =>
        { e with schedule := e.schedule.dequeue package }).requestScheduleWrite).stageMetadata

/-- A package was uninstalled; when it is being replaced, an installation follows. -/
def packageRemoved (s : System) (package : String) (replacing : Bool) : System :=
  let s :=
    if replacing then s
    else
      (s.onEngine fun e =>
        { e with
          participants :=
            (withoutParticipant e.participants package).filter (fun entry => !entry.2.isEmpty)
          pending := (e.pending.remove package).2 }).stageMetadata
  (s.engine.transports.hostedBy package).foldl
    (fun s transport => (s.unregisterTransport transport).2) s

/-- The components of a package changed. -/
def packageChanged (s : System) (package : String) : System :=
  match s.device.package? package with
  | some _ => s.packageAdded package true
  | none => s

/-- Whether a package is backed up in some way. -/
def isEligible (s : System) (package : String) : Bool :=
  match s.device.package? package with
  | some p => p.isEligible
  | none => false

/-! ## Agents -/

/-- An agent reports the result of its work. -/
def complete (s : System) (token : OpToken) (result : Int) : System :=
  s.onEngine fun e => { e with ops := e.ops.complete token result }

/-- The system reports that an agent connected; whether it was awaited. -/
def agentConnected (s : System) (caller : Caller) (package : String) :
    Except Fault Bool × System :=
  if caller.isSystem then
    let (awaited, binder) := s.engine.binder.connected package ()
    (.ok awaited, s.onEngine fun e => { e with binder })
  else (.error (.denied .reportConnection), s)

/-- The system reports that an agent went away. -/
def agentDisconnected (s : System) (caller : Caller) (package : String) :
    Except Fault Unit × System :=
  if caller.isSystem then
    (.ok (), s.onEngine fun e => { e with binder := e.binder.disconnected package })
  else (.error (.denied .reportDisconnection), s)

end Holdfast.System
