import Holdfast.Engine.Tasks

/-!
# The control loop and the run to rest

The loop handles one command at a time, in the order of arrival. Between commands, elapsed
deadlines are dispatched, timers go off, and tasks make their steps.

* `System.handle` carries out a command;
* `System.step` makes the next step of the whole system, if there is one;
* `System.rest` makes steps until nothing is left to do;
* `System.tick` lets a millisecond pass.

Left to itself, the system makes the first of these steps that is possible: a step of a task
that waits for nothing and nobody in the middle of its work, the oldest command, the oldest
event of the operation table, the timers that are due, and a step of the task that has waited
longest among those that are ready.
-/

namespace Holdfast.System

/-! ## Commands -/

/-- Stage a package that announced a change, and arm the key-value job. -/
def handleDataChanged (s : System) (package : String) (targets : NameSet) : System :=
  let (_, pending, disk) := s.engine.pending.record package targets s.disk
  ({ s with disk }.onEngine fun e => { e with pending }).scheduleKeyValueJob

/-- Start a key-value pass with its lease. -/
def startKeyValue (s : System) (lease : Lease) (drained : Option Drained)
    (keyValue full : List String) (observer : Option String) (nonIncremental : Bool) : System :=
  let (token, s) := s.freshToken
  let (number, s) := s.freshNumber
  let s := s.onEngine fun e =>
    { e with
      ops := e.ops.registerTask token (.task number)
      runningPasses := e.runningPasses + 1 }
  s.spawn
    { number
      job := .keyValue drained keyValue full observer nonIncremental
      lease := some lease
      token := some token }

/-- The packages of a pass with the metadata first; it is added if the transport has none. -/
def metadataFirst (packages : List String) (hasMetadata : Bool) : List String :=
  if packages.contains metadataPackage then
    metadataPackage :: packages.erase metadataPackage
  else if hasMetadata then packages
  else metadataPackage :: packages

/-- Back up everything pending on the selected transport. -/
def runKeyValue (s : System) : System :=
  if !s.engine.policy.allows then s
  else if s.isBackupRunning then s
  else if s.engine.pending.packages.isEmpty then s
  else match s.engine.transports.leaseCurrent "key-value" with
    | (none, _) => s.scheduleKeyValueJob
    | (some lease, transports) =>
      let (drained, pending) := s.engine.pending.drain
      let s := s.onEngine fun e => { e with transports, pending }
      let hasMetadata := s.engine.transports.hasMetadata lease.transport s.disk
      s.startKeyValue lease (some drained) (metadataFirst drained.packages hasMetadata) []
        none false

/-- Start a backup that a caller asked for, or let it wait for the one that runs. -/
def startRequested (s : System) (order : BackupOrder) : System :=
  if s.isBackupRunning then
    s.onEngine fun e => { e with waitingRequests := e.waitingRequests ++ [order] }
  else
    s.startKeyValue order.lease none order.keyValue order.full order.observer
      order.nonIncremental

/-- A key-value pass ended: start the next one that waits. -/
def handlePassFinished (s : System) : System :=
  let before := s.engine.runningPasses
  let s := s.onEngine fun e => { e with runningPasses := e.runningPasses - 1 }
  -- another pass still runs
  if 1 < before then s
  else match s.engine.waitingRequests with
    | [] => s
    | order :: rest =>
      (s.onEngine fun e => { e with waitingRequests := rest }).startRequested order

/-- Start wiping transports. -/
def startInit (s : System) (transports : List String) (observer : Option String) : System :=
  if transports.isEmpty then s
  else
    let (number, s) := s.freshNumber
    s.spawn { number, job := .wipe transports observer .success, lease := none }

/-- Start clearing the data of a package, or try again later when its transport is missing. -/
def startClearData (s : System) (transport package : String) : System :=
  match s.engine.transports.lease transport "clear-data" with
  | (none, _) =>
    (s.postDelayed (.clearData transport package) s.engine.settings.transportRetry).2
  | (some lease, transports) =>
    let s := s.onEngine fun e => { e with transports }
    let (number, s) := s.freshNumber
    s.spawn { number, job := .clearData package, lease := some lease }

/-! ## Restores and their sessions -/

/-- Whether a session is the open one. -/
def isSession (s : System) (session : Nat) : Bool :=
  match s.engine.session with
  | some opened => opened.number == session
  | none => false

/-- Stop a timer, if there is one. -/
def dropTimer (s : System) : Option Nat → System
  | some timer => s.stopTimer timer
  | none => s

/-- Give the open session another inactivity timer. A timer for another session is stopped. -/
def replaceSessionTimer (s : System) (session : Nat) (timer : Option Nat) : System :=
  match s.engine.session with
  | some opened =>
    if opened.number = session then
      (s.dropTimer opened.timer).onEngine fun e =>
        { e with session := some { opened with timer } }
    else s.dropTimer timer
  | none => s.dropTimer timer

/-- Start the inactivity timer of a session anew. -/
def armSession (s : System) (session : Nat) : System :=
  let (timer, s) := s.postDelayed (.sessionTimeout session) s.engine.settings.restoreTimeout
  s.replaceSessionTimer session (some timer)

/-- Close a session if it is the open one. -/
def closeSession (s : System) (session : Nat) : System :=
  match s.engine.session with
  | some opened =>
    if opened.number = session then
      (s.dropTimer opened.timer).onEngine fun e => { e with session := none }
    else s
  | none => s

/-- Start a restore. -/
def spawnRestore (s : System) (order : RestoreOrder) : System :=
  let (number, s) := s.freshNumber
  s.spawn { number, job := .restore order order.packages, lease := some order.lease }

/-- Start a restore, or let it wait for the one that runs. -/
def admitRestore (s : System) (order : RestoreOrder) : System :=
  if s.engine.restoring then
    s.onEngine fun e => { e with waitingRestores := e.waitingRestores ++ [order] }
  else (s.onEngine fun e => { e with restoring := true }).spawnRestore order

/-- Admit a restore. A session does not expire while its restore runs. -/
def startRestore (s : System) (order : RestoreOrder) : System :=
  let s := match order.session with
    | some session => s.replaceSessionTimer session none
    | none => s
  s.admitRestore order

/-- Start the next restore that waits. -/
def startNextRestore (s : System) : System :=
  match s.engine.waitingRestores with
  | [] => s.onEngine fun e => { e with restoring := false }
  -- the next restore takes over, so the engine never counts as idle in between
  | order :: rest => (s.onEngine fun e => { e with waitingRestores := rest }).spawnRestore order

/-- A restore ended: its session may expire again, and the next restore begins. -/
def handleRestoreFinished (s : System) (session : Option Nat) : System :=
  let s := match session with
    | some session => if s.isSession session then s.armSession session else s
    | none => s
  s.startNextRestore

/-! ## The loop -/

/-- Stop the loop. What is still queued is lost. -/
def stopLoop (s : System) : System :=
  s.onEngine fun e =>
    { e with looping := false, inbox := [], ops := { e.ops with listening := false, events := [] } }

/-- Carry out a command. -/
def handle (s : System) : Command → System
  | .dataChanged package targets => s.handleDataChanged package targets
  | .runKeyValue => s.runKeyValue
  | .requestBackup order => s.startRequested order
  | .passFinished => s.handlePassFinished
  | .wipe transports observer => s.startInit transports observer
  | .clearData transport package => s.startClearData transport package
  | .writeSchedule => s.writeSchedule
  | .startRestore order => s.startRestore order
  | .restoreFinished session => s.handleRestoreFinished session
  | .sessionTimeout session => s.closeSession session
  | .snapshot => s
  | .shutdown => s.stopLoop

/-- Run an event of the operation table. A completed wait has nobody else to tell. -/
def handleEvent (s : System) : OpEvent Watcher → System
  | .completed _ _ _ => s
  | .deadlineElapsed token =>
    if s.engine.ops.state? token = some .pending then s.cancelOperation token else s

/-- Let a timer go off. -/
def goOff (s : System) (timer : Timer) : System :=
  match timer.action with
  | .post command => s.post command
  | .expireBind ticket => s.onEngine fun e => { e with binder := e.binder.expire ticket }

/-- The timers that are due. -/
def dueTimers (s : System) : List Timer :=
  s.engine.timers.filter (fun timer => timer.due ≤ s.engine.ops.clock)

/-- Let every timer that is due go off, oldest first. -/
def fireTimers (s : System) : System :=
  let due := s.dueTimers
  let s := s.onEngine fun e =>
    { e with timers := e.timers.filter (fun timer => ¬ timer.due ≤ e.ops.clock) }
  due.foldl goOff s

/-- Whether a task is in the middle of work that it does at a stretch, left to itself. -/
def isBusy (t : Task) : Bool :=
  match t.stage with
  | .prepared _ _ | .starting _ _ | .calling .currentRestoreSet | .closing _ | .leaving => true
  | .opening | .choosing | .queued _ _ | .binding _ _ | .working _ _ | .calling _ | .fallen =>
    false

/-- Whether a task that made a step lets the others go first: it waits, or its agent has just
been given work. -/
def yields (s : System) (t : Task) : Bool :=
  match t.stage with
  | .working _ _ => true
  | _ => !s.isReady t

/-- A step of a task, which then goes behind the others if it lets them go first. -/
def stepOne (s : System) (t : Task) : System :=
  let s := s.stepTask t
  match s.engine.tasks.find? (·.number == t.number) with
  | some t => if s.yields t then s.sendBack t.number else s
  -- the task has ended
  | none => s

/-- One step of the task that has waited longest among those that are ready. -/
def stepReady (s : System) : Option System :=
  (s.engine.tasks.find? fun t => s.isReady t).map s.stepOne

/-- Whether a task waits for calls of a method to come back. -/
def waitsFor (transport : String) (method : TransportMethod) (t : Task) : Bool :=
  match t.stage with
  | .calling call => t.transport == transport && call.method == method
  | _ => false

/-- Line up the tasks whose calls are about to come back, behind those that can go on
already. -/
def wake (s : System) (transport : String) (method : TransportMethod) : System :=
  if s.device.isHeld transport method then
    s.onEngine fun e =>
      { e with
        tasks := e.tasks.filter (fun t => !waitsFor transport method t) ++
          e.tasks.filter (waitsFor transport method) }
  else s

/-- The next step of the whole system, when no task is in the middle of its work. -/
def stepIdle (s : System) : Option System :=
  match s.engine.looping, s.engine.inbox with
  | true, command :: rest =>
    some ((s.onEngine fun e => { e with inbox := rest }).handle command)
  | _, _ =>
    match s.engine.looping, s.engine.ops.events with
    | true, event :: rest =>
      some ((s.onEngine fun e => { e with ops := { e.ops with events := rest } }).handleEvent
        event)
    | _, _ => if s.dueTimers.isEmpty then s.stepReady else some s.fireTimers

/-- The next step of the whole system. -/
def step (s : System) : Option System :=
  match s.engine.tasks.find? fun t => isBusy t && s.isReady t with
  | some t => some (s.stepOne t)
  | none => s.stepIdle

/-- Make at most `fuel` steps. -/
def steps (s : System) : Nat → System
  | 0 => s
  | fuel + 1 =>
    match s.step with
    | none => s
    | some s => s.steps fuel

/-! ## Running to rest -/

/-- How many names and other items a command carries. -/
def commandSize : Command → Nat
  | .requestBackup order => order.keyValue.length + order.full.length
  | .wipe transports _ => transports.length
  | .startRestore order => order.packages.length
  | _ => 0

/-- How many names a task still has before it. -/
def taskSize (t : Task) : Nat :=
  match t.job with
  | .keyValue _ keyValue full _ _ => keyValue.length + full.length
  | .wipe transports _ _ => transports.length
  | .restore _ rest => rest.length
  | .full _ _ | .clearData _ => 1

/-- How many names a timer carries. -/
def timerSize (timer : Timer) : Nat :=
  match timer.action with
  | .post command => commandSize command
  | .expireBind _ => 0

/-- The number of some items with the names that each of them carries. -/
def total {α : Type} (items : List α) (names : α → Nat) : Nat :=
  items.foldl (fun sum item => sum + 1 + names item) 0

/-- The number of items that the engine has to do with. -/
def size (s : System) : Nat :=
  let e := s.engine
  total e.inbox commandSize + total e.tasks taskSize + total e.timers timerSize +
    total e.waitingRequests (fun order => order.keyValue.length + order.full.length) +
    total e.waitingRestores (fun order => order.packages.length) +
    e.ops.events.length + e.pending.packages.size

/-- More steps than the system can make before it is at rest: every item takes a few steps,
and every command may start a pass over every pending package. -/
def fuel (s : System) : Nat := 24 * ((s.size + 2) * (s.size + 2))

/-- Run until nothing is left to do. -/
def rest (s : System) : System := s.steps s.fuel

/-- Let a millisecond pass and run to rest. -/
def tick (s : System) : System :=
  (s.onEngine fun e => { e with ops := e.ops.tick }).rest

end Holdfast.System
