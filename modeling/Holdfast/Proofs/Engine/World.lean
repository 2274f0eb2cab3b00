import Holdfast.Proofs.Engine.Accounts
import Holdfast.Proofs.Engine.Calls

/-!
# Runs of the engine

Anything can happen to an engine in any order: calls, commands, deadlines, timers, steps of the
tasks that are ready, and changes of the disk and of the device around it. A caller may also lose
interest in a call that waits for a transport: the call is never resumed then, and nobody gives its
lease back. A run is a list of such events after a start, without a shutdown.

- `World`: an engine with the calls that wait for a transport, and with what was observed so far:
  the leases of calls that were dropped, the requested backups that were accepted and those that
  began, what each task told its observer, and which agents were bound;
- `Call.footprint` and `System.make_within`: **a call keeps within its footprint**;
- `World.happen`: one event;
- `World.Change`: what an event can do, as a move or as a turn of one task;
- `World.happen_change`: **every event is of this kind**;
- `World.run_sound`: the books balance after every run.
-/

namespace Holdfast

/-- A call that keeps its lease while a transport answers. -/
inductive Flight where
  /-- A transport was selected and is asked for its dataset. -/
  | select (lease : Lease)
  /-- The transport of a session is asked for its datasets. -/
  | sets (session : Session) (lease : Lease)

namespace Flight

def lease : Flight → Lease
  | .select lease | .sets _ lease => lease

/-- The transport answers and the call comes to its end. -/
def land (s : System) : Flight → System
  | .select lease => s.endSelect (some lease)
  | .sets session lease => (s.endSets session lease).2

end Flight

/-- A call into the engine that is over at once. -/
inductive Call where
  | dataChanged (caller : Caller) (package : String)
  | requestBackup (caller : Caller) (packages : List String) (observer : Option String)
      (nonIncremental : Bool)
  | runPass
  | backupNow
  | cancelBackups
  | beginFull
  | endFull
  | scheduleNextFullJob (latency : Nat)
  | registerTransport (t : TransportDescription)
  | unregisterTransport (name : String)
  | initializeTransports (transports : List String) (observer : Option String)
  | resetBackupState (transport : String)
  | clearData (caller : Caller) (transport package : String)
  | setEnabled (on : Bool)
  | setProvisioned (on : Bool)
  | setAutoRestore (on : Bool)
  | setBatterySaver (on : Bool)
  | setMandatory (component : Option String)
  | packageAdded (package : String) (replacing : Bool)
  | packageRemoved (package : String) (replacing : Bool)
  | packageChanged (package : String)
  | complete (token : OpToken) (result : Int)
  | cancelOperation (token : OpToken)
  | agentConnected (caller : Caller) (package : String)
  | agentDisconnected (caller : Caller) (package : String)
  | beginSession (caller : Caller) (package transport : Option String)
  | restorePackage (session : Session) (package : String)
  | restoreAll (session : Session) (token : UInt64) (packages : List String)
  | endSession (session : Session)
  | restoreAtInstall (caller : Caller) (package : String) (installToken : Int)

namespace Call

/-- The system after a call. -/
def make (s : System) : Call → System
  | .dataChanged caller package => (s.dataChanged caller package).2
  | .requestBackup caller packages observer nonIncremental =>
    (s.requestBackup caller packages observer nonIncremental).2
  | .runPass => s.runPass.2
  | .backupNow => s.backupNow.2
  | .cancelBackups => s.cancelBackups
  | .beginFull => s.beginFull.2
  | .endFull => s.endFullNow.2
  | .scheduleNextFullJob latency => s.scheduleNextFullJob latency
  | .registerTransport t => (s.registerTransport t).2
  | .unregisterTransport name => (s.unregisterTransport name).2
  | .initializeTransports transports observer => (s.initializeTransports transports observer).2
  | .resetBackupState transport => (s.resetBackupState transport).2
  | .clearData caller transport package => (s.clearData caller transport package).2
  | .setEnabled on => (s.setEnabled on).2
  | .setProvisioned on => s.setProvisioned on
  | .setAutoRestore on => s.setAutoRestore on
  | .setBatterySaver on => s.setBatterySaver on
  | .setMandatory component => s.setMandatory component
  | .packageAdded package replacing => s.packageAdded package replacing
  | .packageRemoved package replacing => s.packageRemoved package replacing
  | .packageChanged package => s.packageChanged package
  | .complete token result => s.complete token result
  | .cancelOperation token => s.cancelOperation token
  | .agentConnected caller package => (s.agentConnected caller package).2
  | .agentDisconnected caller package => (s.agentDisconnected caller package).2
  | .beginSession caller package transport => (s.beginSession caller package transport).2
  | .restorePackage session package => (s.restorePackage session package).2
  | .restoreAll session token packages => (s.restoreAll session token packages).2
  | .endSession session => s.endSession session
  | .restoreAtInstall caller package installToken =>
    (s.restoreAtInstall caller package installToken).2

/-- The order that a call left in the inbox, if it was a request that was accepted. -/
def accepts (s : System) : Call → List BackupOrder
  | .requestBackup caller packages observer nonIncremental =>
    match s.requestBackup caller packages observer nonIncremental with
    | (.success, s) =>
      match s.engine.inbox.getLast? with
      | some (.requestBackup order) => [order]
      | _ => []
    | _ => []
  | _ => []

theorem accepts_eq {s : System} {caller : Caller} {packages : List String}
    {observer : Option String} {nonIncremental : Bool} {order : BackupOrder}
    (hsuccess : (s.requestBackup caller packages observer nonIncremental).1 = .success)
    (hlast : (s.requestBackup caller packages observer nonIncremental).2.engine.inbox.getLast? =
      some (.requestBackup order)) :
    (Call.requestBackup caller packages observer nonIncremental).accepts s = [order] := by
  simp only [accepts]
  generalize s.requestBackup caller packages observer nonIncremental = answer at hsuccess hlast ⊢
  obtain ⟨status, s'⟩ := answer
  simp only at hsuccess hlast
  simp only [hsuccess, hlast]

/-- What is refused is not accepted. -/
theorem accepts_refused {s : System} {caller : Caller} {packages : List String}
    {observer : Option String} {nonIncremental : Bool}
    (hrefused : (s.requestBackup caller packages observer nonIncremental).1 ≠ .success) :
    (Call.requestBackup caller packages observer nonIncremental).accepts s = [] := by
  simp only [accepts]
  split
  · exact absurd (congrArg Prod.fst ‹_›) hrefused
  · rfl

/-- Whether a call cannot hand its lease to the loop, because that has stopped. -/
def isRefused (s : System) : Call → Bool
  | .requestBackup caller packages observer nonIncremental =>
    !s.engine.looping && (s.engine.transports.leaseCurrent "request-backup").1.isSome &&
      (s.requestBackup caller packages observer nonIncremental).1 == .transportAborted
  | .restorePackage session package =>
    decide ((s.restorePackage session package).1 = .error .loopStopped)
  | .restoreAll session token packages =>
    decide ((s.restoreAll session token packages).1 = .error .loopStopped)
  | .restoreAtInstall caller package installToken =>
    decide ((s.restoreAtInstall caller package installToken).1 = .error .loopStopped)
  | _ => false

end Call

open Footprint in
/-- What a call changes. -/
def Call.footprint : Call → Footprint
  | .dataChanged _ _ | .clearData _ _ _ => [.mail .packages]
  | .requestBackup _ _ _ _ => [.leases, .notices .observers, .mail .passes]
  | .runPass => [.mail .chores]
  | .backupNow => .mail .chores :: arming
  | .cancelBackups => [.operations, .tasks, .notices .keyValueJob, .notices .fullJob]
  | .beginFull => dispatching ++ rescheduling ++ [.notices .fullJob]
  | .endFull | .cancelOperation _ => [.operations, .tasks]
  | .scheduleNextFullJob _ => [.notices .fullJob]
  | .registerTransport _ => .directory :: marking
  | .unregisterTransport _ => [.directory, .marks]
  | .initializeTransports _ _ => [.mail .wipes]
  | .resetBackupState _ => [.disk, .processed, .current, .pending] ++ arming
  | .setEnabled _ => .policy :: marking ++ arming ++ [.notices .fullJob]
  | .setProvisioned _ => .policy :: arming ++ [.notices .fullJob]
  | .setAutoRestore _ | .setBatterySaver _ | .setMandatory _ => [.policy]
  | .packageAdded _ _ | .packageChanged _ =>
    rescheduling ++ [.participants, .mail .packages, .notices .fullJob]
  | .packageRemoved _ _ => [.participants, .pending, .mail .packages, .directory, .marks]
  | .complete _ _ => [.operations]
  | .agentConnected _ _ | .agentDisconnected _ _ => [.arrival]
  | .beginSession _ _ _ => timing
  | .restorePackage _ _ | .restoreAll _ _ _ => [.leases, .mail .restores]
  | .endSession _ => .session :: alarms
  | .restoreAtInstall _ _ _ => [.leases, .notices .installer, .mail .restores]

/-- **A call keeps within its footprint.** -/
theorem System.make_within (s : System) (c : Call) : s.Within c.footprint (c.make s) := by
  cases c with
  | dataChanged caller package => exact s.dataChanged_within caller package
  | requestBackup caller packages observer nonIncremental =>
    exact s.requestBackup_within caller packages observer nonIncremental
  | runPass => exact s.send_within .chores rfl
  | backupNow => exact s.backupNow_within
  | cancelBackups => exact s.cancelBackups_within
  | beginFull => exact s.beginFull_within
  | endFull => exact s.endFullNow_within
  | scheduleNextFullJob latency => exact s.scheduleNextFullJob_within latency
  | registerTransport t => exact s.registerTransport_within t
  | unregisterTransport name => exact s.unregisterTransport_within name
  | initializeTransports transports observer => exact s.send_within .wipes rfl
  | resetBackupState transport => exact s.resetBackupState_within transport
  | clearData caller transport package => exact s.clearData_within caller transport package
  | setEnabled on => exact s.setEnabled_within on
  | setProvisioned on => exact s.setProvisioned_within on
  | setAutoRestore on => exact s.onPolicy_within fun p => { p with autoRestore := on }
  | setBatterySaver on => exact s.onPolicy_within fun p => { p with batterySaver := on }
  | setMandatory component => exact s.onPolicy_within fun p => { p with mandatory := component }
  | packageAdded package replacing => exact s.packageAdded_within package replacing
  | packageRemoved package replacing => exact s.packageRemoved_within package replacing
  | packageChanged package => exact s.packageChanged_within package
  | complete token result => exact s.complete_within token result
  | cancelOperation token => exact s.cancelOperation_within token
  | agentConnected caller package => exact s.agentConnected_within caller package
  | agentDisconnected caller package => exact s.agentDisconnected_within caller package
  | beginSession caller package transport => exact s.beginSession_within caller package transport
  | restorePackage session package => exact s.restorePackage_within session package
  | restoreAll session token packages => exact s.restoreAll_within session token packages
  | endSession session => exact s.closeSession_within session.number
  | restoreAtInstall caller package installToken =>
    exact s.restoreAtInstall_within caller package installToken

/-- The requested backup that a task carries out, as it stands before the task's first step. -/
def Seat.order? (e : Seat) : Option BackupOrder :=
  match e.job, e.lease with
  | .keyValue none keyValue full observer nonIncremental, some lease =>
    some ⟨lease, keyValue, full, observer, nonIncremental⟩
  | _, _ => none

/-- The requested passes that began between two states of the books, by the numbers of their
tasks. -/
def Ledger.newPasses (l l' : Ledger) : List (Nat × BackupOrder) :=
  l'.seats.filterMap fun e =>
    if l.nextNumber ≤ e.number then e.order?.map fun order => (e.number, order) else none

/-- A device on which nothing was noted yet. -/
def Device.fresh (d : Device) : Device := { d with log := [], wakeAcquired := 0, wakeReleased := 0 }

/-- Something that can happen. -/
inductive Event where
  /-- The loop takes its oldest command. -/
  | command
  /-- The loop takes the oldest event of the operation table. -/
  | operation
  /-- The timers that are due go off. -/
  | timers
  /-- A millisecond passes. -/
  | clock
  /-- The task of a number makes a step, if it is ready. -/
  | task (number : Nat)
  | sendBack (number : Nat)
  | wake (transport : String) (method : TransportMethod)
  | call (c : Call)
  /-- A transport is selected. -/
  | select (name : String)
  /-- The transport of a session is asked for its datasets. -/
  | sets (session : Session)
  /-- A call that waits for a transport is answered. -/
  | land (index : Nat)
  /-- The caller of a call that waits for a transport drops it. -/
  | drop (index : Nat)
  /-- The disk and the device change from outside. -/
  | outside (disk : Disk) (device : Device)

/-- An engine in its surroundings, with what was observed so far. -/
structure World where
  system : System
  /-- Calls that wait for a transport. -/
  flights : List Flight := []
  /-- Leases of calls that were dropped while they waited. -/
  dropped : List Lease := []
  /-- Requested backups that were accepted, oldest first. -/
  accepted : List BackupOrder := []
  /-- Requested passes that began, oldest first, by the numbers of their tasks. -/
  begun : List (Nat × BackupOrder) := []
  /-- What tasks told their observers, oldest first, by the numbers of the tasks. -/
  heard : List (Nat × Device.Notice) := []
  /-- Packages whose agents were bound, oldest first. -/
  bound : List String := []

namespace World

/-- The system has changed. -/
def become (w : World) (s : System) : World :=
  { w with system := s, begun := w.begun ++ w.system.ledger.newPasses s.ledger }

@[simp] theorem become_system (w : World) (s : System) : (w.become s).system = s := rfl

/-- A task makes a step. -/
def stepTask (w : World) (t : Task) : World :=
  let s := w.system.stepTask t
  { w.become s with
    heard := w.heard ++
      (s.ledger.told.drop w.system.ledger.told.length).map fun notice => (t.number, notice)
    bound := w.bound ++ w.system.greeted t }

/-- One event. What is not possible does not happen. -/
def happen (w : World) : Event → World
  | .command =>
    match w.system.engine.inbox with
    | [] => w
    | command :: rest =>
      w.become ((w.system.onEngine fun e => { e with inbox := rest }).handle command)
  | .operation =>
    match w.system.engine.ops.events with
    | [] => w
    | event :: rest =>
      w.become ((w.system.onEngine fun e =>
        { e with ops := { e.ops with events := rest } }).handleEvent event)
  | .timers => w.become w.system.fireTimers
  | .clock => w.become (w.system.onEngine fun e => { e with ops := e.ops.tick })
  | .task number =>
    match w.system.engine.tasks.find? (·.number == number) with
    | none => w
    | some t => if w.system.isReady t then w.stepTask t else w
  | .sendBack number => w.become (w.system.sendBack number)
  | .wake transport method => w.become (w.system.wake transport method)
  | .call c =>
    { w.become (c.make w.system) with accepted := w.accepted ++ c.accepts w.system }
  | .select name =>
    match w.system.beginSelect name with
    | (some (some lease), s) => { w.become s with flights := .select lease :: w.flights }
    -- the dataset of an unregistered transport is unknown at once
    | (some none, s) => w.become (s.endSelect none)
    | (none, s) => w.become s
  | .sets session =>
    match w.system.beginSets session with
    | (.ok lease, s) => { w.become s with flights := .sets session lease :: w.flights }
    | (.error _, s) => w.become s
  | .land index =>
    match w.flights[index]? with
    | none => w
    | some flight =>
      { w.become (flight.land w.system) with flights := w.flights.eraseIdx index }
  | .drop index =>
    match w.flights[index]? with
    | none => w
    | some flight =>
      { w with flights := w.flights.eraseIdx index, dropped := flight.lease :: w.dropped }
  | .outside disk device =>
    w.become
      { w.system with
        disk
        device :=
          { device with
            log := w.system.device.log
            wakeAcquired := w.system.device.wakeAcquired
            wakeReleased := w.system.device.wakeReleased } }

/-- A selection that was refused or waits for an answer leaves the system that asked. The answer of
an unregistered transport is taken at once. -/
theorem select_system (w : World) (name : String) :
    (w.happen (.select name)).system = (w.system.beginSelect name).2 ∨
      (w.happen (.select name)).system = (w.system.beginSelect name).2.endSelect none := by
  simp only [happen]
  generalize w.system.beginSelect name = answer
  rcases answer with ⟨_ | _ | lease, s⟩
  · exact .inl rfl
  · exact .inr (w.become_system _)
  · exact .inl rfl

/-- The engine does not notice that a call was dropped. -/
@[simp] theorem drop_system (w : World) (index : Nat) :
    (w.happen (.drop index)).system = w.system := by
  simp only [happen]
  split <;> rfl

theorem sets_system (w : World) (session : Session) :
    (w.happen (.sets session)).system = (w.system.beginSets session).2 := by
  simp only [happen]
  generalize w.system.beginSets session = answer
  rcases answer with ⟨_ | lease, s⟩ <;> rfl

/-- Events one after the other. -/
def run (w : World) (events : List Event) : World := events.foldl happen w

/-- The leases of the calls that wait for a transport and of those that were dropped. -/
def hand (w : World) : List Lease := w.flights.map Flight.lease ++ w.dropped

/-- The books balance, and nobody has asked the loop to stop. -/
structure Sound (w : World) : Prop extends w.system.ledger.Sound w.hand w.bound where
  lasting : .shutdown ∉ w.system.ledger.commands

/-- What has to hold for an event to do what it should. -/
structure Steady (w : World) : Prop extends w.system.Steady where
  below : ∀ e ∈ w.system.ledger.seats, e.number < w.system.ledger.nextNumber
  fit : ∀ e ∈ w.system.ledger.seats, e.Fit

/-- An event in which the loop neither stops nor is missed. -/
def Ordinary (w : World) : Event → Prop
  | .command => w.system.engine.inbox.head? ≠ some .shutdown
  | .call c => c.isRefused w.system = false
  | _ => True

/-- What an event can do. -/
inductive Change (w : World) : World → Prop where
  | move {w' : World} {gain : Ledger.Gain} :
    Ledger.Move w.system.ledger w.hand w'.system.ledger w'.hand gain →
    w'.accepted = w.accepted ++ gain.accepted → w'.begun = w.begun ++ gain.begun →
    w'.heard = w.heard → w'.bound = w.bound → Change w w'
  /-- A task makes a step. -/
  | turn {w' : World} {t : Task} {said : List Device.Notice} :
    t ∈ w.system.engine.tasks →
    Ledger.Turn w.system.ledger t.seat (w.system.greeted t) said w'.system.ledger →
    w'.hand = w.hand → w'.accepted = w.accepted → w'.begun = w.begun →
    w'.heard = w.heard ++ said.map (fun notice => (t.number, notice)) →
    w'.bound = w.bound ++ w.system.greeted t → Change w w'

/-- What an event other than the step of a task does. -/
def Moved (w w' : World) : Prop :=
  ∃ gain, Ledger.Move w.system.ledger w.hand w'.system.ledger w'.hand gain ∧
    w'.accepted = w.accepted ++ gain.accepted ∧ w'.begun = w.begun ++ gain.begun ∧
    w'.heard = w.heard ∧ w'.bound = w.bound

theorem Moved.change {w w' : World} (h : w.Moved w') : w.Change w' := by
  obtain ⟨gain, hmove, haccepted, hbegun, hheard, hbound⟩ := h
  exact .move hmove haccepted hbegun hheard hbound

end World

/-! ## Passes that begin -/

namespace Ledger

variable {l l' : Ledger}

theorem newPasses_old (h : ∀ e ∈ l'.seats, e.number < l.nextNumber) : l.newPasses l' = [] := by
  refine List.filterMap_eq_nil_iff.2 fun e hmem => if_neg ?_
  have := h e hmem
  omega

/-- A task that was entered is the only new one. -/
theorem newPasses_enter {l₀ : Ledger} {job : Job} {lease : Option Lease} {token : Option OpToken}
    (h : ∀ e ∈ l₀.seats, e.number < l.nextNumber) (hnext : l.nextNumber ≤ l₀.nextNumber) :
    l.newPasses (l₀.enter job lease token) =
      ((Seat.mk l₀.nextNumber job .opening lease token).order?.map
        fun order => (l₀.nextNumber, order)).toList := by
  have hold : l₀.seats.filterMap (fun e =>
      if l.nextNumber ≤ e.number then e.order?.map fun order => (e.number, order) else none) = [] :=
    newPasses_old h
  rw [newPasses, enter, List.filterMap_append, hold, List.nil_append, List.filterMap_cons,
    if_pos hnext, List.filterMap_nil]
  cases (Seat.mk l₀.nextNumber job .opening lease token).order? <;> rfl

/-- The passes that begin in a deed are those that it names. -/
theorem Move.newPasses {hand hand' : List Lease} {gain : Gain} (hmove : Move l hand l' hand' gain)
    (hbelow : ∀ e ∈ l.seats, e.number < l.nextNumber) : l.newPasses l' = gain.begun := by
  obtain ⟨k, -, said, -, hdeed⟩ := hmove
  have hnext : l.nextNumber ≤ (l.later k said).nextNumber := Nat.le_add_right _ _
  cases hdeed with
  | settle _ hperm => exact newPasses_old fun e hmem => hbelow e (hperm.mem_iff.2 hmem)
  | lend _ | giveBack _ | request _ _ | submit _ _ | wait _ _ | hear _ _ | hold _ =>
    exact newPasses_old hbelow
  | serve _ _ _ | next _ _ _ | restore _ | nextRestore _ | drain _ _ _ | full _ _ _ | wipe
    | clear _ =>
    exact newPasses_enter hbelow hnext

/-- No pass begins in a turn. -/
theorem Turn.newPasses {e : Seat} {greeted : List String} {said : List Device.Notice}
    (hturn : Turn l e greeted said l') (hbelow : ∀ e ∈ l.seats, e.number < l.nextNumber) :
    l.newPasses l' = [] := by
  refine newPasses_old fun other hother => ?_
  obtain ⟨old, hold, hnumber⟩ := List.mem_map.1 (hturn.numbers (List.mem_map_of_mem hother))
  rw [← hnumber]
  exact hbelow old hold

/-- What was told in a turn is what the log has gained. -/
theorem Turn.told {e : Seat} {greeted : List String} {said : List Device.Notice}
    (hturn : Turn l e greeted said l') : l'.told = l.told ++ said :=
  hturn.frame.2.2.2.2.2.2

end Ledger

/-! ## Every event is a move or a turn -/

/-- A call of which nothing is left over. -/
theorem System.Delivery.move {s : System} {hand : List Lease} {result : Except Fault Unit × System}
    (h : Delivery s hand result)
    (hgiven : decide (result.1 = .error .loopStopped) = false) :
    Ledger.Move s.ledger hand result.2.ledger hand {} := by
  cases h with
  | settled _ hmove => exact hmove
  | stranded _ => exact absurd rfl (of_decide_eq_false hgiven)

theorem System.callMade_move {s : System} {hand : List Lease} (hs : s.Steady) {c : Call}
    (hgiven : c.isRefused s = false) :
    ∃ gain, Ledger.Move s.ledger hand (c.make s).ledger hand gain ∧
      c.accepts s = gain.accepted := by
  cases c with
  | requestBackup caller packages observer nonIncremental =>
    rcases @requestBackup_move s hand caller packages observer nonIncremental with
      ⟨hrefused, -, hsame⟩ | ⟨order, -, hsuccess, hlast, hmove⟩ | ⟨lease, haborted, hlease, hleaves⟩
    · exact ⟨{}, .of_eq (congrArg ledger hsame), Call.accepts_refused hrefused⟩
    · exact ⟨_, hmove, Call.accepts_eq hsuccess hlast⟩
    · have hstopped : s.engine.looping = false := hleaves.stopped
      simp [Call.isRefused, haborted, hlease, hstopped] at hgiven
  | cancelBackups => exact ⟨{}, s.cancelBackups_move hs.distinct, rfl⟩
  | beginFull => exact ⟨{}, s.beginFull_move, rfl⟩
  | endFull => exact ⟨{}, s.endFullNow_move hs.distinct, rfl⟩
  | complete token result => exact ⟨{}, s.complete_move token result, rfl⟩
  | cancelOperation token =>
    obtain ⟨keys, hkeys, hcancel⟩ := System.cancelOperation_ledger hs.distinct token
    exact ⟨{}, hcancel ▸ .of_keys hkeys, rfl⟩
  | beginSession caller package transport =>
    exact ⟨{}, .of_later (s.beginSession_later _ _ _ hs.delayed), rfl⟩
  | restorePackage session package =>
    exact ⟨{}, (s.restorePackage_delivery session package).move hgiven, rfl⟩
  | restoreAll session token packages =>
    exact ⟨{}, (s.restoreAll_delivery session token packages).move hgiven, rfl⟩
  | endSession session => exact ⟨{}, .of_eq (s.closeSession_ledger _ hs.delayed), rfl⟩
  | restoreAtInstall caller package installToken =>
    exact ⟨{}, (s.restoreAtInstall_delivery caller package installToken).move hgiven, rfl⟩
  | _ =>
    -- No other call has a part of the books in its footprint.
    refine ⟨{}, .of_later ((s.make_within _).later ?_), rfl⟩
    dsimp only [Call.footprint]
    decide

theorem System.Delivery.leaves {s : System} {hand : List Lease}
    {result : Except Fault Unit × System}
    (h : Delivery s hand result) (hrefused : decide (result.1 = .error .loopStopped) = true) :
    ∃ lease, s.Leaves hand lease result.2 := by
  cases h with
  | settled hanswer _ => exact absurd (of_decide_eq_true hrefused) hanswer
  | stranded hleaves => exact ⟨_, hleaves⟩

/-- A call that is refused because the loop has stopped leaves its lease to nobody. -/
theorem System.refused_leaves {s : System} {c : Call} (hrefused : c.isRefused s = true)
    (hand : List Lease) : c.accepts s = [] ∧ ∃ lease, s.Leaves hand lease (c.make s) := by
  cases c with
  | requestBackup caller packages observer nonIncremental =>
    simp only [Call.isRefused, Bool.and_eq_true, beq_iff_eq] at hrefused
    obtain ⟨⟨-, hlease⟩, haborted⟩ := hrefused
    rcases @requestBackup_move s hand caller packages observer nonIncremental with
      ⟨-, hnone, -⟩ | ⟨order, -, hsuccess, -⟩ | ⟨lease, -, -, hleaves⟩
    · rw [hnone haborted] at hlease
      cases hlease
    · cases haborted.symm.trans hsuccess
    · refine ⟨Call.accepts_refused fun hsuccess => ?_, lease, hleaves⟩
      cases haborted.symm.trans hsuccess
  | restorePackage session package =>
    exact ⟨rfl, (s.restorePackage_delivery session package).leaves hrefused⟩
  | restoreAll session token packages =>
    exact ⟨rfl, (s.restoreAll_delivery session token packages).leaves hrefused⟩
  | restoreAtInstall caller package installToken =>
    exact ⟨rfl, (s.restoreAtInstall_delivery caller package installToken).leaves hrefused⟩
  | _ => cases hrefused

/-- While the loop runs, no call is refused for that. -/
theorem System.isRefused_looping {s : System} (hloop : s.engine.looping = true) (c : Call) :
    c.isRefused s = false := by
  have hnever : ∀ {result : Except Fault Unit × System}, Delivery s [] result →
      decide (result.1 = .error .loopStopped) = false := by
    intro result h
    cases h with
    | settled hanswer _ => exact decide_eq_false hanswer
    | stranded hleaves => cases hleaves.stopped.symm.trans hloop
  cases c with
  | requestBackup caller packages observer nonIncremental =>
    simp [Call.isRefused, hloop]
  | restorePackage session package => exact hnever (s.restorePackage_delivery session package)
  | restoreAll session token packages => exact hnever (s.restoreAll_delivery session token packages)
  | restoreAtInstall caller package installToken =>
    exact hnever (s.restoreAtInstall_delivery caller package installToken)
  | _ => rfl

namespace World

variable {w : World}

theorem Sound.steady (h : w.Sound) : w.Steady where
  distinct := h.numbers
  delayed := h.delayed
  single := h.single
  below := h.below
  fit := h.fit

/-- Nothing stops the loop unless somebody has asked for that. -/
theorem Sound.ordinary (h : w.Sound) (event : Event) : w.Ordinary event := by
  cases event with
  | command =>
    intro hhead
    obtain ⟨rest, hinbox⟩ := List.head?_eq_some_iff.1 hhead
    refine h.lasting ?_
    show _ ∈ w.system.engine.inbox.filter Command.counts
    rw [hinbox, List.filter_cons_of_pos rfl]
    exact List.mem_cons_self
  | call c => exact System.isRefused_looping h.looping c
  | _ => trivial

/-- The system has changed by a move. -/
theorem become_moved (hs : w.Steady) {s : System} {gain : Ledger.Gain}
    (hmove : Ledger.Move w.system.ledger w.hand s.ledger w.hand gain)
    (haccepted : gain.accepted = []) : w.Moved (w.become s) := by
  refine ⟨gain, hmove, ?_, ?_, rfl, rfl⟩
  · rw [haccepted, List.append_nil]
    rfl
  · rw [← hmove.newPasses hs.below]
    rfl

/-- A call has taken a lease and waits. -/
theorem begin_moved (hs : w.Steady) {s : System} {flight : Flight}
    (hmove : Ledger.Move w.system.ledger w.hand s.ledger (flight.lease :: w.hand) {}) :
    w.Moved { w.become s with flights := flight :: w.flights } := by
  refine ⟨{}, hmove, (List.append_nil _).symm, ?_, rfl, rfl⟩
  rw [← hmove.newPasses hs.below]
  rfl

/-- A call that waited gives its lease back. -/
theorem land_moved (hs : w.Steady) {index : Nat} {flight : Flight}
    (hflight : w.flights[index]? = some flight) :
    w.Moved { w.become (flight.land w.system) with flights := w.flights.eraseIdx index } := by
  obtain ⟨hindex, rfl⟩ := List.getElem?_eq_some_iff.1 hflight
  have hhand : w.hand.Perm
      (w.flights[index].lease :: ((w.flights.eraseIdx index).map Flight.lease ++ w.dropped)) :=
    ((List.getElem_cons_eraseIdx_perm hindex).map Flight.lease).symm.append_right w.dropped
  have hmove : Ledger.Move w.system.ledger w.hand (w.flights[index].land w.system).ledger
      ((w.flights.eraseIdx index).map Flight.lease ++ w.dropped) {} := by
    generalize w.flights[index] = flight at hhand
    cases flight with
    | select lease => exact System.endSelect_move hhand
    | sets session lease => exact System.endSets_move hhand hs.delayed
  refine ⟨{}, hmove, (List.append_nil _).symm, ?_, rfl, rfl⟩
  rw [← hmove.newPasses hs.below]
  rfl

/-- The lease of a call that was dropped stays out, with nobody who gives it back. -/
theorem drop_moved {index : Nat} {flight : Flight} (hflight : w.flights[index]? = some flight) :
    w.Moved { w with
      flights := w.flights.eraseIdx index
      dropped := flight.lease :: w.dropped } := by
  obtain ⟨hindex, rfl⟩ := List.getElem?_eq_some_iff.1 hflight
  have hhand : w.hand.Perm
      ((w.flights.eraseIdx index).map Flight.lease ++ w.flights[index].lease :: w.dropped) :=
    (((List.getElem_cons_eraseIdx_perm hindex).map Flight.lease).symm.append_right
      w.dropped).trans List.perm_middle.symm
  exact ⟨{}, .of_hand hhand, (List.append_nil _).symm, (List.append_nil _).symm, rfl, rfl⟩

theorem Moved.refl : w.Moved w :=
  ⟨{}, Ledger.Move.refl, (List.append_nil _).symm, (List.append_nil _).symm, rfl, rfl⟩

/-- Every event other than the step of a task is a move, as long as the loop is not missed in it. -/
theorem Steady.moved (hs : w.Steady) {event : Event} (hordinary : w.Ordinary event)
    (htask : ∀ number, event ≠ .task number) : w.Moved (w.happen event) := by
  cases event with
  | command =>
    simp only [happen]
    split
    · exact .refl
    · rename_i command rest hinbox
      have hstop : command ≠ .shutdown := by
        rintro rfl
        exact hordinary (by rw [hinbox]; rfl)
      obtain ⟨gain, hmove, haccepted⟩ := System.handle_move hs.toSteady hinbox hstop
      exact become_moved hs hmove haccepted
  | operation =>
    simp only [happen]
    split
    · exact .refl
    · rename_i event rest hevents
      exact become_moved hs (@System.handleEvent_move (w.system.onEngine fun e =>
        { e with ops := { e.ops with events := rest } }) w.hand event hs.distinct) rfl
  | timers => exact become_moved hs (.of_eq (w.system.fireTimers_ledger hs.delayed)) rfl
  | clock =>
    refine become_moved hs (.of_eq ?_) rfl
    rw [System.withOps_ledger w.system fun ops => ops.tick, OperationTable.tokens,
      (OperationTable.tick_spec _).1]
    rfl
  | task number => exact absurd rfl (htask number)
  | sendBack number => exact become_moved hs (System.sendBack_move number) rfl
  | wake transport method => exact become_moved hs (System.wake_move transport method) rfl
  | call c =>
    obtain ⟨gain, hmove, haccepted⟩ := System.callMade_move hs.toSteady hordinary
    refine ⟨gain, hmove, ?_, ?_, rfl, rfl⟩
    · rw [← haccepted]
      rfl
    · rw [← hmove.newPasses hs.below]
      rfl
  | select name =>
    have hcase := @System.beginSelect_move w.system w.hand name
    simp only [happen]
    generalize w.system.beginSelect name = answer at hcase ⊢
    obtain ⟨asked, s⟩ := answer
    rcases hcase with ⟨lease, rfl, hmove⟩ | ⟨hnone, hledger⟩
    · exact begin_moved hs hmove
    · cases asked with
      | none => exact become_moved hs (.of_eq hledger) rfl
      | some asked =>
        cases asked with
        | none => exact become_moved hs (.of_eq hledger) rfl
        | some lease => exact absurd rfl (hnone lease)
  | sets session =>
    have hcase := @System.beginSets_move w.system w.hand session
    simp only [happen]
    generalize w.system.beginSets session = answer at hcase ⊢
    obtain ⟨asked, s⟩ := answer
    rcases hcase with ⟨lease, rfl, hmove⟩ | ⟨fault, rfl, rfl⟩
    · exact begin_moved hs hmove
    · exact become_moved hs .refl rfl
  | land index =>
    simp only [happen]
    split
    · exact .refl
    · rename_i flight hflight
      exact land_moved hs hflight
  | drop index =>
    simp only [happen]
    split
    · exact .refl
    · rename_i flight hflight
      exact drop_moved hflight
  | outside disk device =>
    -- what others make of the device is neither told nor held by the engine
    exact become_moved hs (.of_eq rfl) rfl

/-- **Every event is a move or a turn of one task.** -/
theorem Steady.change (hs : w.Steady) {event : Event} (hordinary : w.Ordinary event) :
    w.Change (w.happen event) := by
  cases event with
  | task number =>
    simp only [happen]
    split
    · exact Moved.refl.change
    · rename_i t hfind
      split
      · rename_i hready
        have hmem := List.mem_of_find?_eq_some hfind
        have hseat : t.seat ∈ w.system.ledger.seats := List.mem_map_of_mem hmem
        obtain ⟨said, hturn⟩ := System.stepTask_turn hs.distinct (hs.fit _ hseat) hready
        refine .turn hmem hturn rfl rfl ?_ ?_ rfl
        · show w.begun ++ w.system.ledger.newPasses _ = w.begun
          rw [hturn.newPasses hs.below, List.append_nil]
        · show w.heard ++ (List.drop _ (w.system.stepTask t).ledger.told).map _ = _
          rw [hturn.told, List.drop_left]
      · exact Moved.refl.change
  | command | operation | timers | clock | sendBack _ | wake _ _ | call _ | select _ | sets _
  | land _ | drop _ | outside _ _ => exact (hs.moved hordinary (by simp)).change

theorem happen_moved (hs : w.Sound) {event : Event} (htask : ∀ number, event ≠ .task number) :
    w.Moved (w.happen event) := hs.steady.moved (hs.ordinary event) htask

theorem happen_change (hs : w.Sound) (event : Event) : w.Change (w.happen event) :=
  hs.steady.change (hs.ordinary event)

theorem Change.sound {w' : World} (hchange : w.Change w') (hs : w.Sound) : w'.Sound := by
  cases hchange with
  | move hmove _ _ _ hbound => exact ⟨hbound ▸ hmove.sound hs.toSound, hmove.lasting hs.lasting⟩
  | turn hmem hturn hhand _ _ _ hbound =>
    refine ⟨?_, hturn.lasting hs.lasting⟩
    rw [hbound, hhand]
    exact hturn.sound hs.toSound (List.mem_map_of_mem hmem)

/-- What every event keeps holds after every run. -/
theorem run_invariant {P : World → Prop} (hkeeps : ∀ w w', w.Sound → w.Change w' → P w → P w')
    (events : List Event) (hs : w.Sound) (h : P w) : (w.run events).Sound ∧ P (w.run events) := by
  induction events generalizing w with
  | nil => exact ⟨hs, h⟩
  | cons event events ih =>
    have hchange := happen_change hs event
    exact ih (hchange.sound hs) (hkeeps w _ hs hchange h)

/-- **The books balance after every run.** -/
theorem run_sound (events : List Event) (hs : w.Sound) : (w.run events).Sound :=
  (run_invariant (P := fun _ => True) (fun _ _ _ _ h => h) events hs trivial).1

end World

/-! ## The start -/

/-- The books of an engine to which nothing has happened. -/
def Ledger.blank : Ledger :=
  { leases := [], nextLease := 0, seats := [], nextNumber := 0, requests := [], restores := []
    commands := [], delayed := [], looping := true, keys := [], passes := 0, full := none
    acquired := 0, released := 0, told := [], unbound := [] }

theorem System.start_ledger {settings : Settings} {disk : Disk} {device : Device} {s : System}
    (h : System.start settings disk device.fresh = .ok s) : s.ledger = Ledger.blank := by
  obtain ⟨-, _, disk', -, -, hs⟩ := System.start_cases h
  obtain ⟨_, _, _, _, _, _, hload⟩ := System.load_eq settings disk' device.fresh
  rw [hs, (System.wakeUp_within _ _).ledger (by decide), hload]
  rfl

theorem Ledger.blank_sound : Ledger.blank.Sound [] [] where
  lent := ⟨.refl _, List.nodup_nil, fun _ h => absurd h List.not_mem_nil⟩
  numbers := List.nodup_nil
  below := fun _ h => absurd h List.not_mem_nil
  fit := fun _ h => absurd h List.not_mem_nil
  keys := List.Subset.refl _
  wakes := rfl
  passes := rfl
  single := Nat.zero_le _
  fullCount := rfl
  fullToken := fun _ h => absurd h List.not_mem_nil
  agents := .refl _
  looping := rfl
  delayed := rfl

namespace World

variable {w : World}

/-- A world right after the start of its engine. -/
def opened (s : System) : World := { system := s }

theorem opened_sound {settings : Settings} {disk : Disk} {device : Device} {s : System}
    (h : System.start settings disk device.fresh = .ok s) : (opened s).Sound := by
  have hblank : (opened s).system.ledger = Ledger.blank := System.start_ledger h
  refine ⟨?_, ?_⟩
  · rw [hblank]
    exact Ledger.blank_sound
  · rw [hblank]
    exact List.not_mem_nil

/-! ## The order in which the engine works -/

theorem run_append (w : World) (events more : List Event) :
    w.run (events ++ more) = (w.run events).run more := List.foldl_append

/-- The number of a task finds it. -/
theorem Sound.find_task (hs : w.Sound) {t : Task} (hmem : t ∈ w.system.engine.tasks) :
    w.system.engine.tasks.find? (·.number == t.number) = some t := by
  have hnodup : (w.system.engine.tasks.map (·.number)).Nodup := by
    have hnumbers : ((w.system.engine.tasks.map Task.seat).map (·.number)).Nodup := hs.numbers
    rwa [List.map_map] at hnumbers
  cases hfind : w.system.engine.tasks.find? (·.number == t.number) with
  | none => exact absurd (List.find?_eq_none.1 hfind t hmem) (by simp)
  | some other =>
    have hnumber : other.number = t.number := by simpa using List.find?_some hfind
    rw [List.inj_on_of_nodup_map hnodup (List.mem_of_find?_eq_some hfind) hmem hnumber]

/-- A step of a ready task, which may then go behind the others, is a run. -/
theorem stepOne_is_run (hs : w.Sound) {t : Task} (hmem : t ∈ w.system.engine.tasks)
    (hready : w.system.isReady t = true) :
    ∃ events, (w.run events).system = w.system.stepOne t := by
  have htask : (w.run [.task t.number]).system = w.system.stepTask t := by
    simp only [run, List.foldl_cons, List.foldl_nil, happen, hs.find_task hmem, hready, if_true]
    rfl
  unfold System.stepOne
  simp only
  split
  · rename_i t' _
    split
    · refine ⟨[.task t.number] ++ [.sendBack t'.number], ?_⟩
      rw [run_append]
      show (w.run [.task t.number]).system.sendBack t'.number = _
      rw [htask]
    · exact ⟨[.task t.number], htask⟩
  · exact ⟨[.task t.number], htask⟩

theorem stepReady_is_run (hs : w.Sound) {s : System} (hstep : w.system.stepReady = some s) :
    ∃ events, (w.run events).system = s := by
  obtain ⟨t, hfind, rfl⟩ := Option.map_eq_some_iff.1 hstep
  exact stepOne_is_run hs (List.mem_of_find?_eq_some hfind) (List.find?_some hfind)

/-- Every step of the engine is a run. -/
theorem step_is_run (hs : w.Sound) {s : System} (hstep : w.system.step = some s) :
    ∃ events, (w.run events).system = s := by
  have hloop : w.system.engine.looping = true := hs.looping
  unfold System.step at hstep
  split at hstep
  · rename_i t hfind
    have hbusy := List.find?_some hfind
    rw [Bool.and_eq_true] at hbusy
    obtain rfl := Option.some.inj hstep
    exact stepOne_is_run hs (List.mem_of_find?_eq_some hfind) hbusy.2
  · unfold System.stepIdle at hstep
    rw [hloop] at hstep
    cases hinbox : w.system.engine.inbox with
    | cons command rest =>
      simp only [hinbox, Option.some.injEq] at hstep
      refine ⟨[.command], ?_⟩
      simp only [run, List.foldl_cons, List.foldl_nil, happen, hinbox]
      exact hstep
    | nil =>
      simp only [hinbox] at hstep
      cases hevents : w.system.engine.ops.events with
      | cons event rest =>
        simp only [hevents, Option.some.injEq] at hstep
        refine ⟨[.operation], ?_⟩
        simp only [run, List.foldl_cons, List.foldl_nil, happen, hevents]
        exact hstep
      | nil =>
        simp only [hevents] at hstep
        split at hstep
        · exact stepReady_is_run hs hstep
        · exact ⟨[.timers], Option.some.inj hstep⟩

theorem steps_is_run (fuel : Nat) (hs : w.Sound) :
    ∃ events, (w.run events).system = w.system.steps fuel := by
  induction fuel generalizing w with
  | zero => exact ⟨[], rfl⟩
  | succ fuel ih =>
    unfold System.steps
    cases hstep : w.system.step with
    | none => exact ⟨[], rfl⟩
    | some s =>
      obtain ⟨events, hevents⟩ := step_is_run hs hstep
      obtain ⟨more, hmore⟩ := ih (run_sound events hs)
      exact ⟨events ++ more, by rw [run_append, hmore, hevents]⟩

/-- Letting a millisecond pass and running to rest is one of the runs. -/
theorem tick_is_run (hs : w.Sound) : ∃ events, (w.run events).system = w.system.tick := by
  obtain ⟨events, hevents⟩ := steps_is_run (w.run [.clock]).system.fuel (run_sound [.clock] hs)
  exact ⟨[.clock] ++ events, by rw [run_append, hevents]; rfl⟩

/-- A start that can be computed, with what can be computed of it. -/
theorem start_check {settings : Settings} {disk : Disk} {device : Device} {check : System → Bool}
    (h : (match System.start settings disk device with
      | .ok s => check s
      | .error _ => false) = true) :
    ∃ s, System.start settings disk device = .ok s ∧ check s = true := by
  split at h
  · rename_i s hstart
    exact ⟨s, hstart, h⟩
  · cases h

/-- The backup of one package at the request of a caller, from the registration of a transport to
the end of the pass. -/
def backupOfOne : List Event :=
  [.command, .call (.registerTransport ⟨"local", "vault/Local", "local"⟩), .select "local", .land 0,
    .call (.setEnabled true), .call (.setProvisioned true),
    .call (.requestBackup .system ["app"] (some "observer") false), .command] ++
    List.replicate 12 (.task 0) ++ [.command]

/-- A device with one package, which has an agent of its own. -/
def deviceOfOne : Device := { catalog := [{ name := "app", uid := 10001, hasAgent := true }] }

/-- A device with one package, which is backed up in full. -/
def deviceOfFiles : Device := { catalog := [{ name := "files", uid := 10002 }], now := 1000 }

/-- The metadata is backed up, which lets full backups start, and then the job starts one. -/
def filesInFlight : List Event :=
  [.command, .call (.registerTransport ⟨"local", "vault/Local", "local"⟩), .select "local", .land 0,
    .call (.setEnabled true), .call (.setProvisioned true), .call (.packageRemoved "old" false),
    .command, .call .runPass, .command] ++ List.replicate 7 (.task 0) ++ [.call .beginFull]

end World

end Holdfast
