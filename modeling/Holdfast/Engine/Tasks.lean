import Holdfast.Engine.Upkeep

/-!
# Running tasks

One step of a task, from the stage at which it stands to the next one. A step is short: it
makes at most one transport call, asks for one agent, or holds one lock. Between two steps
anything else can happen.

* `System.isReady` says whether what a task waits for has happened;
* `System.stepTask` makes the step;
* `System.endKeyValue` and `System.endFull` begin to wind a pass down, `System.closeKeyValue`,
  `System.vacate` and `System.leave` bring that to its end;
* `System.endRestore` and `System.endPlain` wind the other tasks down at once;
* `System.fall` is what is left of a full backup whose next due time is out of range.

The visit of an agent is common to backups and restores: wait for the turn to bind, ask the
host, wait for the agent to connect, register the wait for it, look whether the task was
canceled, have it start, wait for it to finish, tear it down.
-/

namespace Holdfast

/-- The status that a transport's answer means for a package. -/
def Status.ofReply : Device.Reply → Status
  | .ok .ok => .success
  | .ok .packageRejected => .packageRejected
  | .ok .quotaExceeded => .quotaExceeded
  | .ok .error | .ok .notInitialized => .transportAborted
  | .error _ => .transportAborted

/-- Whether a status ends a whole pass. -/
def Status.endsPass : Status → Bool
  | .transportAborted | .cancelled => true
  | _ => false

namespace Task

/-- The transport that a task uses. -/
def transport (t : Task) : String :=
  match t.lease with
  | some lease => lease.transport
  | none => ""

/-- The task with a transport's answer taken into account. -/
def heed (t : Task) (reply : Device.Reply) : Task :=
  match reply with
  | .ok .notInitialized => { t with needsInit := true }
  | _ => t

end Task

namespace System

/-- Whether what a task waits for has happened. -/
def isReady (s : System) (t : Task) : Bool :=
  match t.stage with
  | .opening | .choosing | .prepared _ _ | .starting _ _ | .closing _ | .leaving => true
  | .fallen => false
  | .queued _ ticket => s.engine.binder.isTurn ticket
  | .binding _ ticket => s.engine.binder.isTurn ticket && s.engine.binder.arrival.isSome
  | .working _ token => s.engine.ops.state? token != some .pending
  | .calling call => !s.device.isHeld t.transport call.method

/-- Have a task stand at a stage. -/
def moveTo (s : System) (t : Task) (stage : Stage) : System := s.setTask { t with stage }

/-- Make a transport call. -/
def call (s : System) (t : Task) (call : TransportCall) : System :=
  (s.note (.transport t.transport call)).moveTo t (.calling call)

/-! ## Winding down -/

/-- Take the token of a task out of the table. -/
def dropToken (s : System) (t : Task) : System :=
  match t.token with
  | some token => s.onEngine fun e => { e with ops := e.ops.remove token }
  | none => s

/-- Mark the transport of a task for wiping if it asked for it. -/
def heedInit (s : System) (t : Task) : System :=
  if t.needsInit then s.markForInit t.transport else s

/-- Close what a pass took from the pending set. -/
def closeDrained (s : System) (drained : Option Drained) (success : Bool) : System :=
  match drained with
  | some pass =>
    let (pending, disk) := s.engine.pending.finish pass success s.disk
    { s with disk }.onEngine fun e => { e with pending }
  | none => s

/-- A key-value pass is done with its packages: close what it took and announce its end. The
loop learns of it before the observer does, and may start the next pass at once. -/
def endKeyValue (s : System) (t : Task) (drained : Option Drained) (status : Status) : System :=
  let s := (s.heedInit t).closeDrained drained (status == .success)
  (s.post .passFinished).moveTo t (.closing status)

/-- A key-value pass that has announced its end tells its observer and gives the rest back. -/
def closeKeyValue (s : System) (t : Task) (observer : Option String) (status : Status) : System :=
  let s := (s.tellFinished observer status).dropToken t
  let s := if status = .success ∨ status = .cancelled then s else s.scheduleKeyValueJob
  (s.releaseWake.dispose t.lease).dropTask t.number

/-- The delay before a full backup that failed is tried again: a word of 64 bits, of which half
the range stands for what is too long for the clock. `none` when even the sum is out of range. -/
def retryDelay? (least fuzz : Nat) : Option Int :=
  if maxU64 < least + fuzz then none
  else if ((least + fuzz : Nat) : Int) ≤ maxI64 then some (least + fuzz : Nat)
  else some (maxI64 / 2)

/-- When a full backup that failed is tried again; `none` when no clock can show it. -/
def retryAt? (now : Int) (least fuzz : Nat) : Option Int :=
  (retryDelay? least fuzz).bind fun delay =>
    if now + delay ≤ maxI64 then some (now + delay) else none

/-- Put a package back into the schedule, to be tried again at a due time. -/
def deferFull (s : System) (package : String) (lastBackup dueAt : Int) : System :=
  (s.onEngine fun e =>
    { e with schedule := e.schedule.defer package lastBackup dueAt }).requestScheduleWrite

/-- A task breaks down. Its lease comes back; its token, the wake lock and a place that it held
do not. -/
def fall (s : System) (t : Task) : System :=
  (s.dispose t.lease).setTask { t with stage := .fallen, lease := none }

/-- Forget a running full backup. -/
def clearRunningFull (s : System) (token : Option OpToken) : System :=
  match s.engine.runningFull with
  | some (running, _) =>
    if some running = token then s.onEngine fun e => { e with runningFull := none } else s
  | none => s

/-- A scheduled full backup failed: its package comes back into the schedule after a random
delay, unless the due time is out of range, which breaks the task. -/
def retryFull (s : System) (t : Task) (package : String) (lastBackup : Int) (status : Status) :
    System :=
  let (fuzz, s) := s.draw s.engine.settings.busyFuzz
  match retryAt? s.now s.engine.settings.busyMin fuzz with
  | some dueAt => (s.deferFull package lastBackup dueAt).moveTo t (.closing status)
  | none => s.fall t

/-- A scheduled full backup is done with its package: put that back into the schedule. -/
def endFull (s : System) (t : Task) (package : String) (lastBackup : Int) (status : Status) :
    System :=
  let s := s.heedInit t
  if status = .success then (s.enqueueFull package s.now).moveTo t (.closing status)
  else s.retryFull t package lastBackup status

/-- A scheduled full backup whose package is back gives up its place to the next one. -/
def vacate (s : System) (t : Task) : System := (s.clearRunningFull t.token).moveTo t .leaving

/-- A scheduled full backup that has given up its place gives the rest back. No other task comes
here. -/
def leave (s : System) (t : Task) : System :=
  match t.job with
  | .full _ _ =>
    let s := (s.dropToken t).releaseWake.scheduleNextFullJob 0
    (s.dispose t.lease).dropTask t.number
  | .keyValue _ _ _ _ _ | .wipe _ _ _ | .clearData _ | .restore _ _ => s

/-- End a restore. -/
def endRestore (s : System) (t : Task) (order : RestoreOrder) (started : Bool) : System :=
  let s :=
    if started && order.recordAncestral then
      (s.setDatasets
        { s.engine.datasets with
          ancestral := order.token
          packages := some (NameSet.ofList order.packages) }).2
    else s
  let s := match order.installToken with
    | some token => s.note (.installed token true)
    | none => s
  ((s.releaseWake.dispose t.lease).post (.restoreFinished order.session)).dropTask t.number

/-- End a task that has nothing to announce. -/
def endPlain (s : System) (t : Task) : System :=
  (s.releaseWake.dispose t.lease).dropTask t.number

/-! ## Packages of a pass -/

/-- A package of a key-value pass is done. -/
def packageDone (s : System) (t : Task) (drained : Option Drained) (observer : Option String)
    (package : String) (status : Status) : System :=
  let s := s.tellResult observer package status
  if status.endsPass then s.endKeyValue t drained status else s.moveTo t .choosing

/-- Line up to bind the agent of a package. -/
def visit (s : System) (t : Task) (v : Visit) : System :=
  let (ticket, binder) := s.engine.binder.join
  (s.onEngine fun e => { e with binder }).moveTo t (.queued v ticket)

/-- The agent of a package did not do its work. -/
def visitFailed (s : System) (t : Task) (v : Visit) (status : Status) : System :=
  match t.job with
  | .keyValue drained _ _ observer _ => s.packageDone t drained observer v.package.name status
  | .full package lastBackup => s.endFull t package.name lastBackup status
  | .restore _ _ | .wipe _ _ _ | .clearData _ => s.moveTo t .choosing

/-- What the host does when it is asked for the agent of a package; whether it accepts. -/
def hostReacts (behaviour : Device.Behaviour) (package : String) (b : Binder) : Bool × Binder :=
  match behaviour with
  | .normal | .double | .silent => b.connected package ()
  | .unreachable => (true, b)
  | .refuse => (false, b)
  | .disconnect => (true, b.disconnected package)
  | .wrong => (true, (b.connected "com.somebody.else" ()).2)

/-- Ask the host for the agent of a package. -/
def askHost (s : System) (t : Task) (v : Visit) (ticket : Nat) : System :=
  let name := v.package.name
  let s := s.note (.agent name (.bind v.mode))
  let (accepted, binder) :=
    hostReacts (s.device.behaviour name) name (s.engine.binder.await name)
  if accepted then
    let s := s.onEngine fun e => { e with binder }
    -- an agent that came up inside the call needs no timer
    let s :=
      if binder.arrival.isSome then s
      else (s.setTimer (.expireBind ticket) s.engine.settings.bindTimeout).2
    s.moveTo t (.binding v ticket)
  else
    (s.onEngine fun e => { e with binder := binder.leave }).visitFailed t v .agentFailure

/-- What an agent is told to do. -/
def workNotice (t : Task) (mode : AgentMode) : AgentNotice :=
  match t.job, mode with
  | .restore order _, _ => .restore order.token
  | .keyValue _ _ _ _ nonIncremental, .incremental => .backup nonIncremental
  | _, _ => .fullBackup

/-- The sort of operation that an agent's work is. -/
def workKind : AgentMode → OpKind
  | .incremental | .full => .backupWait
  | .restore => .restoreWait

/-- How long an agent may work. -/
def workTimeout (settings : Settings) : AgentMode → Nat
  | .incremental => settings.keyValueTimeout
  | .full => settings.fullTimeout
  | .restore => settings.restoreTimeout

/-- What an agent that was given work does at once. How it came up does not matter any more:
one that refuses a bind can have connected before. -/
def agentReacts (behaviour : Device.Behaviour) (token : OpToken) (ops : OperationTable Watcher) :
    OperationTable Watcher :=
  match behaviour with
  | .normal | .refuse | .disconnect | .wrong => ops.complete token 0
  | .double => (ops.complete token 0).complete token 1
  | .silent | .unreachable => ops

/-- Register the wait for the agent of a package. From here on a cancel of the task reaches it. -/
def prepare (s : System) (t : Task) (v : Visit) : System :=
  let (token, s) := s.freshToken
  let timeout := workTimeout s.engine.settings v.mode
  let s := s.onEngine fun e =>
    { e with ops := e.ops.register token (workKind v.mode) (.agent v.package.name) timeout }
  s.moveTo { t with agentToken := if v.mode = .restore then none else some token }
    (.prepared v token)

/-- Look whether the task was canceled while its agent came up. If so the work is never handed
out; else it is next, whatever happens in between. -/
def heedCancel (s : System) (t : Task) (v : Visit) (token : OpToken) : System :=
  if t.canceled then (s.cancelOperation token).moveTo t (.working v token)
  else s.moveTo t (.starting v token)

/-- Give the agent of a package its work. -/
def giveWork (s : System) (t : Task) (v : Visit) (token : OpToken) : System :=
  let name := v.package.name
  let s := s.note (.agent name (workNotice t v.mode))
  let s := s.onEngine fun e =>
    { e with
      handed := Device.setKey name token e.handed
      ops := agentReacts (s.device.behaviour name) token e.ops }
  s.moveTo t (.working v token)

/-- The bind of an agent came to its end. -/
def meetAgent (s : System) (t : Task) (v : Visit) : System :=
  let arrival := s.engine.binder.arrival
  let s := s.onEngine fun e => { e with binder := e.binder.leave }
  match arrival with
  | some (.connected ()) => s.prepare t v
  | some .timedOut => (s.note .clearPending).visitFailed t v .agentFailure
  | some .disconnected | none => s.visitFailed t v .agentFailure

/-- Unbind an agent, and kill its process unless that belongs to the system or to the
confirmation dialog. -/
def tearDown (s : System) (p : Package) : System :=
  let s := s.note (.agent p.name .unbind)
  if firstApplicationUid ≤ p.uid ∧ p.name ≠ s.engine.settings.confirmationUi then
    s.note (.agent p.name .kill)
  else s

/-- The work of an agent came to its end. -/
def collectWork (s : System) (t : Task) (v : Visit) (token : OpToken) : System :=
  let (acknowledged, ops) := s.engine.ops.wait token
  let s := (s.onEngine fun e => { e with ops }).tearDown v.package
  let t := { t with agentToken := none }
  if acknowledged = some true then
    match t.job, v.mode with
    | .keyValue _ _ _ _ nonIncremental, .incremental =>
      s.call t (.performBackup v.package.name nonIncremental)
    | .keyValue _ _ _ _ _, _ | .full _ _, _ => s.call t (.performFullBackup v.package.name)
    | .restore _ _, _ | .wipe _ _ _, _ | .clearData _, _ => s.moveTo t .choosing
  else s.visitFailed t v (if t.canceled then .cancelled else .agentFailure)

/-! ## Stages -/

/-- The first step of a task. -/
def openTask (s : System) (t : Task) : System :=
  match t.job with
  | .keyValue drained _ _ _ _ =>
    let s := s.acquireWake
    if s.engine.transports.isInitPending t.transport then
      s.endKeyValue t drained .transportAborted
    else s.moveTo t .choosing
  | .full package _ => s.visit t ⟨package, .full⟩
  | .wipe _ _ _ => s.acquireWake.moveTo t .choosing
  | .clearData package => s.acquireWake.call t (.clearBackupData package)
  | .restore order _ => s.acquireWake.call t (.startRestore order.token order.packages)

/-- Take the next package of a key-value pass, or commit the pass. -/
def chooseKeyValue (s : System) (t : Task) (drained : Option Drained)
    (keyValue full : List String) (observer : Option String) (nonIncremental : Bool) : System :=
  match keyValue, full with
  | [], [] => s.call t .finishBackup
  | package :: rest, full =>
    if t.canceled then s.endKeyValue t drained .cancelled
    else
      let t := { t with job := .keyValue drained rest full observer nonIncremental }
      if package = metadataPackage then s.call t (.performBackup package nonIncremental)
      else match s.device.package? package with
        | none => s.packageDone t drained observer package .packageNotFound
        | some p =>
          if p.isParticipant then s.visit t ⟨p, .incremental⟩
          else s.packageDone t drained observer package .packageNotEligible
  | [], package :: rest =>
    if t.canceled then s.endKeyValue t drained .cancelled
    else
      let t := { t with job := .keyValue drained [] rest observer nonIncremental }
      match s.device.package? package with
      | none => s.packageDone t drained observer package .packageNotFound
      | some p =>
        if p.getsFullBackup then s.visit t ⟨p, .full⟩
        else s.packageDone t drained observer package .packageNotEligible

/-- Wipe the next transport, or end. -/
def chooseInit (s : System) (t : Task) (names : List String) (observer : Option String)
    (overall : Status) : System :=
  match names with
  | [] => (s.tellFinished observer overall).endPlain t
  | name :: rest =>
    match s.engine.transports.lease name "initialize" with
    | (none, _) =>
      (s.tellResult observer name .transportAborted).moveTo
        { t with job := .wipe rest observer .transportAborted } .choosing
    | (some lease, transports) =>
      (s.onEngine fun e => { e with transports }).call
        { t with job := .wipe rest observer overall, lease := some lease }
        .initializeDevice

/-- Restore the next package, or commit the restore. -/
def chooseRestore (s : System) (t : Task) (order : RestoreOrder) (rest : List String) : System :=
  match rest with
  | [] => s.call t .finishRestore
  | package :: rest =>
    let t := { t with job := .restore order rest }
    if package = metadataPackage then s.moveTo t .choosing
    else match s.device.package? package with
      | none => s.moveTo t .choosing
      | some p => s.visit t ⟨p, .restore⟩

/-- A task takes what comes next. -/
def choose (s : System) (t : Task) : System :=
  match t.job with
  | .keyValue drained keyValue full observer nonIncremental =>
    s.chooseKeyValue t drained keyValue full observer nonIncremental
  | .full package lastBackup => s.endFull t package.name lastBackup .transportAborted
  | .wipe names observer overall => s.chooseInit t names observer overall
  | .clearData _ => s.endPlain t
  | .restore order rest => s.chooseRestore t order rest

/-- Write down which packages the metadata backup of a transport covers. -/
def writeMetadata (s : System) (transport : String) : System :=
  match s.engine.transports.metadataFile transport with
  | .error _ => s
  | .ok file =>
    let names := sortBy (fun a b => decide (a ≤ b)) (s.device.catalog.map (·.name))
    let (_, disk) := Store.replaceAlong s.disk (Route.ofText file) (Record.putTexts names)
    { s with disk }

/-- The status of a pass after its commit was answered. -/
def commitStatus : Device.Reply → Status
  | .ok .ok => .success
  | _ => .transportAborted

/-- Whether a pass has to ask which dataset it wrote: its commit was accepted and no dataset is
known. -/
def wantsDataset (s : System) (reply : Device.Reply) : Bool :=
  commitStatus reply == .success && s.engine.datasets.current == 0

/-- A transport answered which dataset a pass wrote. It is remembered, whatever was selected or
forgotten meanwhile. -/
def storeDataset (s : System) (transport : String) : System :=
  match (s.device.station transport).restoreSet with
  | .ok token => if token = 0 then s else (s.setCurrentDataset token).2
  | .error _ => s

/-- A transport has been wiped, or could not be. -/
def initDone (s : System) (t : Task) (rest : List String) (observer : Option String)
    (overall : Status) (reply : Device.Reply) : System :=
  let name := t.transport
  let (s, result, overall) :=
    if commitStatus reply = .success then
      let (_, s) := s.resetBackupState name
      -- the mark goes last, so a crash before this point repeats the wipe
      let s := match s.engine.transports.folderName name with
        | .ok folderName => s.setInitPending false name folderName
        | .error _ => s
      (s, Status.success, overall)
    else (s.retryInit name, Status.transportAborted, Status.transportAborted)
  ((s.tellResult observer name result).dispose t.lease).moveTo
    { t with job := .wipe rest observer overall, lease := none } .choosing

/-- A transport answered a key-value pass. -/
def replyKeyValue (s : System) (t : Task) (drained : Option Drained) (observer : Option String)
    (call : TransportCall) (reply : Device.Reply) : System :=
  let t := t.heed reply
  let status := Status.ofReply reply
  match call with
  | .performBackup package _ =>
    let s :=
      if status = .success then
        if package = metadataPackage then s.writeMetadata t.transport
        else s.recordProcessed package
      else s
    s.packageDone t drained observer package status
  | .performFullBackup package =>
    let s :=
      if status = .success then (s.recordProcessed package).enqueueFull package s.now else s
    s.packageDone t drained observer package status
  | _ =>
    if s.wantsDataset reply then s.call t .currentRestoreSet
    else s.endKeyValue t drained (commitStatus reply)

/-- A transport answered a scheduled full backup. -/
def replyFull (s : System) (t : Task) (package : String) (lastBackup : Int)
    (call : TransportCall) (reply : Device.Reply) : System :=
  let t := t.heed reply
  match call with
  | .performFullBackup _ =>
    let status := Status.ofReply reply
    if status = .success then (s.recordProcessed package).call t .finishBackup
    else s.endFull t package lastBackup status
  | _ =>
    if s.wantsDataset reply then s.call t .currentRestoreSet
    else s.endFull t package lastBackup (commitStatus reply)

/-- A transport answered. -/
def takeReply (s : System) (t : Task) (call : TransportCall) : System :=
  let (reply, device) := s.device.answer t.transport call
  let s := { s with device }
  match t.job with
  | .keyValue drained _ _ observer _ => s.replyKeyValue t drained observer call reply
  | .full package lastBackup => s.replyFull t package.name lastBackup call reply
  | .wipe rest observer overall =>
    match call, commitStatus reply with
    -- a wipe has to be committed like a backup
    | .initializeDevice, .success => s.call t .finishBackup
    | _, _ => s.initDone t rest observer overall reply
  | .clearData _ =>
    match call, commitStatus reply with
    | .clearBackupData _, .success => s.call t .finishBackup
    | _, _ => s.endPlain t
  | .restore order _ =>
    match call with
    | .startRestore _ _ =>
      if commitStatus reply = .success then s.moveTo t .choosing
      else s.endRestore t order false
    -- a restore that was started counts, however its commit was answered
    | _ => s.endRestore t order true

/-- A pass that asked for the dataset it wrote is answered and comes to its end. -/
def takeDataset (s : System) (t : Task) : System :=
  match t.job with
  | .keyValue drained _ _ _ _ => (s.storeDataset t.transport).endKeyValue t drained .success
  | .full package lastBackup =>
    (s.storeDataset t.transport).endFull t package.name lastBackup .success
  | .wipe _ _ _ | .clearData _ | .restore _ _ => s.takeReply t .currentRestoreSet

/-- A pass that winds down goes on with that. The other tasks wind down at once. -/
def closeTask (s : System) (t : Task) (status : Status) : System :=
  match t.job with
  | .keyValue _ _ _ observer _ => s.closeKeyValue t observer status
  | .full _ _ => s.vacate t
  | .wipe _ _ _ | .clearData _ | .restore _ _ => s

/-- One step of a task. -/
def stepTask (s : System) (t : Task) : System :=
  match t.stage with
  | .opening => s.openTask t
  | .choosing => s.choose t
  | .queued v ticket => s.askHost t v ticket
  | .binding v _ => s.meetAgent t v
  | .prepared v token => s.heedCancel t v token
  | .starting v token => s.giveWork t v token
  | .working v token => s.collectWork t v token
  | .calling .currentRestoreSet => s.takeDataset t
  | .calling call => s.takeReply t call
  | .closing status => s.closeTask t status
  | .leaving => s.leave t
  | .fallen => s

end System

end Holdfast
