import Holdfast.Engine.State

/-!
# Upkeep

What passes and calls share: arming the jobs, writing the schedule, remembering what was
backed up, marking transports for wiping, and starting over with a wiped transport.

* `System.scheduleKeyValueJob`, `System.scheduleNextFullJob` arm the jobs;
* `System.requestScheduleWrite` asks for at most one write of the schedule at a time;
* `System.markForInit` marks a transport and has it wiped later;
* `System.resetBackupState` forgets all about a wiped transport and stages every
  participant again.
-/

namespace Holdfast.System

/-- Draw a number below `bound`. -/
def draw (s : System) (bound : Nat) : Nat × System :=
  let (drawn, device) := s.device.draw bound
  (drawn, { s with device })

/-- Arm the key-value job after its interval and a random spread. The sum is a word and comes round
for an interval next to the greatest one, of half a billion years. `Settings.Timely.job` names the
settings for which it is exact. A check of the sum would stop whoever arms the job, the loop
included; nothing here is about an engine without a loop but for a shutdown. -/
def scheduleKeyValueJob (s : System) : System :=
  let (fuzz, s) := s.draw s.engine.settings.keyValueFuzz
  s.note (.keyValueJob (wrapU64 (s.engine.settings.keyValueInterval + fuzz)))

/-- Whether the time until the first package of the schedule is due is within range. -/
def nextDueFits (s : System) : Bool :=
  s.engine.schedule.nextDue?.all fun dueAt => decide (dueAt - s.now ≤ maxI64)

/-- Arm the full-backup job for the first package of the schedule, but no sooner than after
`latency`. A call that finds the time until then out of range breaks off here. -/
def scheduleNextFullJob (s : System) (latency : Nat) : System :=
  match s.engine.schedule.nextDue? with
  | none => s
  | some dueAt =>
    if s.nextDueFits then s.note (.fullJob (max latency (dueAt - s.now).toNat)) else s

/-- Ask for the schedule to be written, unless that is on its way. -/
def requestScheduleWrite (s : System) : System :=
  if s.engine.writeRequested then s
  else (s.onEngine fun e => { e with writeRequested := true }).post .writeSchedule

/-- Write the schedule. -/
def writeSchedule (s : System) : System :=
  let (_, disk) := s.engine.schedule.save s.disk (s.stateFile Schedule.fileName)
  { s with disk }.onEngine fun e => { e with writeRequested := false }

/-- Enter a package into the schedule after a full backup. -/
def enqueueFull (s : System) (package : String) (lastBackup : Int) : System :=
  (s.onEngine fun e =>
    { e with schedule := e.schedule.enqueue package lastBackup }).requestScheduleWrite

/-- Remember that the current dataset holds data of a package. -/
def recordProcessed (s : System) (package : String) : System :=
  let (_, processed, disk) := s.engine.processed.add package s.disk
  { s with disk }.onEngine fun e => { e with processed }

/-- Change what is known of the datasets and write it down; whether it could be written. -/
def setDatasets (s : System) (datasets : Datasets) : Except Fault Unit × System :=
  let (outcome, disk) := datasets.save s.disk (s.stateFile Datasets.fileName)
  (outcome, { s with disk }.onEngine fun e => { e with datasets })

/-- Remember the dataset that is being written. -/
def setCurrentDataset (s : System) (token : UInt64) : Except Fault Unit × System :=
  s.setDatasets { s.engine.datasets with current := token }

/-- Stage packages. -/
def restage (s : System) (packages : List String) : System :=
  let (pending, disk) := s.engine.pending.restage packages s.disk
  { s with disk }.onEngine fun e => { e with pending }

/-- Mark a transport for wiping, or take the mark away. -/
def setInitPending (s : System) (pending : Bool) (name folderName : String) : System :=
  let (_, transports, disk) := s.engine.transports.setInitPending pending name folderName s.disk
  { s with disk }.onEngine fun e => { e with transports }

/-- Have a transport wiped after the retry interval. -/
def retryInit (s : System) (transport : String) : System :=
  (s.postDelayed (.wipe [transport] none) s.engine.settings.transportRetry).2

/-- Mark a registered transport for wiping and have it wiped later. -/
def markForInit (s : System) (transport : String) : System :=
  match s.engine.transports.folderName transport with
  | .error _ => s
  | .ok folderName => (s.setInitPending true transport folderName).retryInit transport

/-- Delete the files of a folder, except for the mark for wiping. -/
def clearFolder (disk : Disk) (folder : Route) : Disk :=
  (disk.childrenAlong folder).foldl (fun disk entry =>
    match entry.2 with
    | .file _ =>
      if entry.1 = TransportRegistry.initMark then disk
      else (disk.perform (.unlink (folder.place.child entry.1))).2
    | .folder => disk) disk

/-- Forget everything known about the dataset of a transport and stage every participant for
a fresh backup. -/
def resetBackupState (s : System) (transport : String) : Except Fault Unit × System :=
  let (_, processed, disk) := s.engine.processed.reset s.disk
  let s := { s with disk }.onEngine fun e => { e with processed }
  match s.setCurrentDataset 0 with
  | (.error e, s) => (.error e, s)
  | (.ok (), s) =>
    match s.engine.transports.stateFolder transport with
    | .error e => (.error e, s)
    | .ok folder =>
      let s := { s with disk := clearFolder s.disk (Route.ofText folder) }
      -- the next pass starts from nothing, so the metadata goes with it
      let everyone := (s.allParticipants.insert metadataPackage).toList
      (.ok (), (s.restage everyone).scheduleKeyValueJob)

end Holdfast.System
