import Holdfast.Engine.Restore

/-!
# Starting and stopping

* `System.start` reads the stored state, replays what earlier runs left behind and starts
  the control loop;
* `System.shutdown` stops the loop after everything already queued;
* `System.snapshot` is the engine's bookkeeping at a moment.
-/

namespace Holdfast

/-- The engine's bookkeeping at a moment. -/
structure Snapshot where
  pendingPackages : List String
  fullQueue : List ScheduleEntry
  runningFull : Option String
  backupRunning : Bool
  /-- Requested backups that wait for the running pass. -/
  queuedRequests : Nat
  operations : Nat
  currentTransport : Option String
  outstandingLeases : Nat
  sessionActive : Bool
  restoreInProgress : Bool
  ancestralToken : UInt64
  currentToken : UInt64
  deriving DecidableEq, Repr

namespace System

/-- The key-value participants among installed packages, by identity. -/
def participantsOf (installed : List Package) : List (Nat × NameSet) :=
  (installed.filter (·.isParticipant)).foldl
    (fun participants p => withParticipant participants p.uid p.name) []

/-- The engine that a start makes of the stored state; whether the schedule changed. -/
def load (settings : Settings) (disk : Disk) (device : Device) : Bool × System :=
  let folder := settings.folder
  let participants := participantsOf device.catalog
  let everyone := participants.foldl (fun all entry => all.union entry.2) NameSet.empty
  let pending : Pending := { folder := folder.child Pending.folderName }
  -- packages that take part no longer are left out of the replay
  let (_, pending, disk) := pending.replay (everyone.insert metadataPackage) disk
  let eligible := (device.catalog.filter (·.getsFullBackup)).map (·.name)
  let (loaded, disk) :=
    Schedule.load disk (folder.child Schedule.fileName) settings.fullInterval eligible
  let engine : Engine :=
    { settings
      policy := Policy.load folder disk
      transports := { root := settings.baseStateDir }
      pending
      schedule := loaded.queue
      participants
      datasets := Datasets.load disk (folder.child Datasets.fileName)
      processed := Processed.openAt folder disk }
  (loaded.changed, ⟨disk, device, engine⟩)

/-- Arm the jobs of a new engine. -/
def wakeUp (s : System) (scheduleChanged : Bool) : System :=
  let hasPending := !s.engine.pending.packages.isEmpty
  let s := if scheduleChanged then s.requestScheduleWrite else s
  let s := if hasPending then s.scheduleKeyValueJob else s
  s.scheduleNextFullJob 0

/-- Start an engine. A failed start leaves the folders that it made. -/
def start (settings : Settings) (disk : Disk) (device : Device) :
    Except (Fault × Disk) System :=
  match settings.validate with
  | .error fault => .error (.settings fault, disk)
  | .ok () =>
    match Store.makeFolders disk settings.folder with
    | (.error fault, disk) => .error (fault, disk)
    | (.ok (), disk) =>
      match Store.makeFolders disk (settings.folder.child Pending.folderName) with
      | (.error fault, disk) => .error (fault, disk)
      | (.ok (), disk) =>
        let (changed, s) := load settings disk device
        .ok (s.wakeUp changed)

/-- Stop the control loop after everything already queued. -/
def shutdown (s : System) : Except Fault Unit × System := s.send .shutdown

/-- The bookkeeping of a running engine. -/
def snapshot (s : System) : Except Fault Snapshot :=
  if s.engine.looping then
    let e := s.engine
    .ok
      { pendingPackages := e.pending.packages.toList
        fullQueue := e.schedule.entries
        runningFull := e.runningFull.map (·.2)
        backupRunning := s.isBackupRunning
        queuedRequests := e.waitingRequests.length
        operations := e.ops.size
        currentTransport := e.transports.selected
        outstandingLeases := e.transports.leases.length
        sessionActive := e.session.isSome
        restoreInProgress := e.restoring
        ancestralToken := e.datasets.ancestral
        currentToken := e.datasets.current }
  else .error .loopStopped

end System

end Holdfast
