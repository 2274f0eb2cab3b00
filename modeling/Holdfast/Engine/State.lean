import Holdfast.Binder
import Holdfast.Datasets
import Holdfast.Device
import Holdfast.Operation.Table
import Holdfast.Pass.Lifecycle
import Holdfast.Pending
import Holdfast.Policy
import Holdfast.Processed
import Holdfast.Schedule
import Holdfast.Settings

/-!
# The state of the engine

The engine handles commands one at a time and runs tasks beside them. A task is a pass on
its way: it does a small piece of work, then stands at a `Stage` until what it waits for has
happened.

* `Command` is a message to the control loop;
* `Task`, with its `Job` and `Stage`, is a pass on its way;
* `Timer` is something that will happen at a later reading of the engine's clock;
* `Engine` is all the engine knows;
* `System` is the engine together with the disk and the device.
-/

namespace Holdfast

/-- A backup that a caller asked for, with its lease. -/
structure BackupOrder where
  lease : Lease
  /-- Packages to back up as key-value data. -/
  keyValue : List String
  /-- Packages to back up in full. -/
  full : List String
  observer : Option String
  nonIncremental : Bool

/-- A restore that was asked for, with its lease. -/
structure RestoreOrder where
  lease : Lease
  /-- The dataset to restore from. -/
  token : UInt64
  packages : List String
  /-- Under which the installer waits for the end. -/
  installToken : Option Int
  /-- Whether the dataset becomes the ancestral one. -/
  recordAncestral : Bool
  /-- The session through which the restore was asked for. -/
  session : Option Nat

/-- A message to the control loop. -/
inductive Command where
  /-- A package announced a change; only the targets may be staged. -/
  | dataChanged (package : String) (targets : NameSet)
  /-- Back up everything pending. -/
  | runKeyValue
  | requestBackup (order : BackupOrder)
  /-- A key-value pass ended. -/
  | passFinished
  /-- Wipe transports. -/
  | wipe (transports : List String) (observer : Option String)
  | clearData (transport package : String)
  | writeSchedule
  | startRestore (order : RestoreOrder)
  | restoreFinished (session : Option Nat)
  | sessionTimeout (session : Nat)
  | snapshot
  /-- Stop the loop. -/
  | shutdown

namespace Command

/-- Spelling of the sort of command. -/
def name : Command → String
  | .dataChanged _ _ => "data_changed"
  | .runKeyValue => "run_key_value_backup"
  | .requestBackup _ => "request_backup"
  | .passFinished => "key_value_pass_finished"
  | .wipe _ _ => "run_initialize"
  | .clearData _ _ => "clear_backup_data"
  | .writeSchedule => "write_full_backup_schedule"
  | .startRestore _ => "start_restore"
  | .restoreFinished _ => "restore_finished"
  | .sessionTimeout _ => "restore_session_timeout"
  | .snapshot => "snapshot"
  | .shutdown => "shutdown"

end Command

/-- Who is told how an operation ended. -/
inductive Watcher where
  /-- The task of the given number. -/
  | task (number : Nat)
  /-- The wait for an agent, which reads the outcome from the table. -/
  | agent (package : String)
  deriving DecidableEq, Repr

/-- A package whose agent is brought up. -/
structure Visit where
  package : Package
  mode : AgentMode
  deriving DecidableEq, Repr

/-- What a task waits for. -/
inductive Stage where
  /-- Its first turn. -/
  | opening
  /-- Nothing: it takes its next package. -/
  | choosing
  /-- Its turn to bind an agent. -/
  | queued (visit : Visit) (ticket : Nat)
  /-- The agent to connect. -/
  | binding (visit : Visit) (ticket : Nat)
  /-- Nothing: the wait for its agent is registered, and it looks whether it was canceled. -/
  | prepared (visit : Visit) (token : OpToken)
  /-- Nothing: it was not canceled when it looked, and has its agent start. -/
  | starting (visit : Visit) (token : OpToken)
  /-- The agent to finish. -/
  | working (visit : Visit) (token : OpToken)
  /-- The transport to answer. -/
  | calling (call : TransportCall)
  /-- Nothing: it is done with its packages and has said so, and winds down. -/
  | closing (status : Status)
  /-- Nothing: a scheduled full backup that has given up its place and returns the rest. -/
  | leaving
  /-- Nothing any more: it broke down, and what it held besides its lease is lost. -/
  | fallen
  deriving DecidableEq, Repr

/-- What a task does. The first package of a list is the one in hand. -/
inductive Job where
  /-- Back up packages, drained from the pending set or asked for by a caller. -/
  | keyValue (drained : Option Drained) (keyValue full : List String)
      (observer : Option String) (nonIncremental : Bool)
  /-- Back up one scheduled package in full. -/
  | full (package : Package) (lastBackup : Int)
  /-- Wipe transports; `overall` is the outcome so far. -/
  | wipe (transports : List String) (observer : Option String) (overall : Status)
  /-- Clear the data of one package. -/
  | clearData (package : String)
  /-- Restore packages, of which `rest` are still to be done. -/
  | restore (order : RestoreOrder) (rest : List String)

/-- A pass on its way. -/
structure Task where
  number : Nat
  job : Job
  stage : Stage := .opening
  /-- The lease that the task has to give back. -/
  lease : Option Lease
  /-- The token under which the task can be canceled. -/
  token : Option OpToken := none
  canceled : Bool := false
  /-- The operation of the agent at work, to be canceled with the task. -/
  agentToken : Option OpToken := none
  /-- The transport asked to be wiped. -/
  needsInit : Bool := false

/-- What a timer does. -/
inductive TimerAction where
  | post (command : Command)
  | expireBind (ticket : Nat)

/-- Something that will happen later. -/
structure Timer where
  number : Nat
  /-- Clock reading at which it happens. -/
  due : Nat
  action : TimerAction

/-- The open restore session. -/
structure OpenSession where
  number : Nat
  /-- The timer that closes it for inactivity. -/
  timer : Option Nat
  deriving DecidableEq, Repr

/-- All the engine knows. -/
structure Engine where
  settings : Settings
  policy : Policy
  ops : OperationTable Watcher := {}
  tokens : TokenSource := {}
  transports : TransportRegistry
  pending : Pending
  schedule : Schedule
  /-- The scheduled full backup that runs: its token and its package. -/
  runningFull : Option (OpToken × String) := none
  /-- Key-value participants by identity. -/
  participants : List (Nat × NameSet)
  datasets : Datasets
  processed : Processed
  session : Option OpenSession := none
  /-- Whether a restore runs or its end has not been handled. -/
  restoring : Bool := false
  waitingRestores : List RestoreOrder := []
  binder : Binder := {}
  /-- Key-value passes started whose end has not been handled. -/
  runningPasses : Nat := 0
  waitingRequests : List BackupOrder := []
  /-- Whether a write of the schedule is on its way. -/
  writeRequested : Bool := false
  /-- Commands for the control loop, oldest first. -/
  inbox : List Command := []
  /-- Whether the control loop runs. -/
  looping : Bool := true
  /-- Tasks, those that wait longest first. -/
  tasks : List Task := []
  timers : List Timer := []
  /-- Number of the next task, timer or session. -/
  nextNumber : Nat := 0
  /-- The latest token given to each package's agent. -/
  handed : List (String × OpToken) := []

/-- The engine together with what it acts on. -/
structure System where
  disk : Disk
  device : Device
  engine : Engine

namespace System

/-! ## Small changes -/

/-- Change the engine. -/
def onEngine (s : System) (f : Engine → Engine) : System := { s with engine := f s.engine }

/-- Note what a collaborator was told. -/
def note (s : System) (notice : Device.Notice) : System :=
  { s with device := s.device.note notice }

/-- Tell an observer the result of a package. -/
def tellResult (s : System) (observer : Option String) (package : String) (status : Status) :
    System :=
  match observer with
  | some id => s.note (.result id package status)
  | none => s

/-- Tell an observer the end of a pass. -/
def tellFinished (s : System) (observer : Option String) (status : Status) : System :=
  match observer with
  | some id => s.note (.finished id status)
  | none => s

/-- Take the wake lock. -/
def acquireWake (s : System) : System := { s with device := s.device.acquireWake }

/-- Release the wake lock. -/
def releaseWake (s : System) : System := { s with device := s.device.releaseWake }

/-- The wall clock. -/
def now (s : System) : Int := s.device.now

/-- The file of a name inside the state folder. -/
def stateFile (s : System) (name : String) : Path := s.engine.settings.folder.child name

/-- Hand out a number. -/
def freshNumber (s : System) : Nat × System :=
  (s.engine.nextNumber, s.onEngine fun e => { e with nextNumber := e.nextNumber + 1 })

/-- Issue a token. Where the device has no random words left, the counter stands in for one. -/
def freshToken (s : System) : OpToken × System :=
  let (word, device) := s.device.drawWord s.engine.tokens.counter
  let (token, tokens) := s.engine.tokens.next word
  (token, { s with device }.onEngine fun e => { e with tokens })

/-- Post a command; it is lost when the loop has stopped. -/
def post (s : System) (command : Command) : System :=
  if s.engine.looping then s.onEngine fun e => { e with inbox := e.inbox ++ [command] } else s

/-- Post a command, or say that the loop has stopped. -/
def send (s : System) (command : Command) : Except Fault Unit × System :=
  if s.engine.looping then (.ok (), s.post command) else (.error .loopStopped, s)

/-- Set a timer; its number. -/
def setTimer (s : System) (action : TimerAction) (delay : Nat) : Nat × System :=
  let (number, s) := s.freshNumber
  let timer : Timer := ⟨number, s.engine.ops.clock + delay, action⟩
  (number, s.onEngine fun e => { e with timers := e.timers ++ [timer] })

/-- Post a command after a delay; the number of the timer. -/
def postDelayed (s : System) (command : Command) (delay : Nat) : Nat × System :=
  s.setTimer (.post command) delay

/-- Stop a timer. -/
def stopTimer (s : System) (number : Nat) : System :=
  s.onEngine fun e => { e with timers := e.timers.filter (fun timer => timer.number ≠ number) }

/-- Give a lease back. -/
def dispose (s : System) (lease : Option Lease) : System :=
  match lease with
  | some lease => s.onEngine fun e => { e with transports := (e.transports.dispose lease).2 }
  | none => s

/-- Every key-value participant. -/
def allParticipants (s : System) : NameSet :=
  s.engine.participants.foldl (fun all entry => all.union entry.2) .empty

/-- Whether a key-value pass runs. -/
def isBackupRunning (s : System) : Bool := 0 < s.engine.runningPasses

/-! ## Tasks -/

/-- Add a task behind the others. -/
def spawn (s : System) (task : Task) : System :=
  s.onEngine fun e => { e with tasks := e.tasks ++ [task] }

/-- Replace the task of the same number. -/
def setTask (s : System) (task : Task) : System :=
  s.onEngine fun e =>
    { e with tasks := e.tasks.map fun other => if other.number = task.number then task else other }

/-- Drop a task that has ended. -/
def dropTask (s : System) (number : Nat) : System :=
  s.onEngine fun e => { e with tasks := e.tasks.filter (fun task => task.number ≠ number) }

/-- Put a task behind the others. -/
def sendBack (s : System) (number : Nat) : System :=
  s.onEngine fun e =>
    { e with
      tasks := e.tasks.filter (fun task => task.number ≠ number) ++
        e.tasks.filter (fun task => task.number = number) }

/-- Cancel an operation. A canceled task takes the operation of its agent with it. -/
def cancelOperation (s : System) (token : OpToken) : System :=
  let (watcher, ops) := s.engine.ops.cancel token
  let s := s.onEngine fun e => { e with ops }
  match watcher with
  | some (.task number) =>
    match s.engine.tasks.find? (·.number == number) with
    | some task =>
      let s := s.setTask { task with canceled := true, agentToken := none }
      match task.agentToken with
      | some agentToken =>
        s.onEngine fun e => { e with ops := (e.ops.cancel agentToken).2 }
      | none => s
    | none => s
  | some (.agent _) | none => s

end System

end Holdfast
