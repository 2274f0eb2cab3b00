import Holdfast.Engine.Loop

/-!
# Scheduled full backups

One package at a time is taken from the head of the schedule once it is due.

* `selectFull` walks the head of the schedule until a package turns up that can run: packages
  that are gone or no longer eligible are dropped, packages that are busy are deferred;
* `System.beginFull` is the full-backup job;
* `System.endFullNow` cancels the backup that runs.
-/

namespace Holdfast

/-- What the schedule has to offer. -/
inductive Selection where
  /-- Back up this package now. -/
  | run (entry : ScheduleEntry) (package : Package)
  /-- Try again after a delay, or not at all. -/
  | wait (delay : Option Nat)

/-- What the choice of a package depends on. -/
structure SelectionContext where
  now : Int
  /-- Whether the selected transport can take a full backup. -/
  ready : Bool
  settings : Settings

/-- A schedule after a choice. -/
structure Selected where
  selection : Selection
  schedule : Schedule
  /-- Whether the schedule was changed. -/
  changed : Bool
  /-- The device, with fewer random draws. -/
  device : Device

/-- When a busy package is tried again. -/
def busyUntil (now : Int) (least fuzz : Nat) : Int :=
  let delay := wrapU64 (least + fuzz)
  satAdd now (if (delay : Int) ≤ maxI64 then delay else maxI64)

/-- Walk the head of the schedule until a package turns up that can run. Every entry is
handled once at most, so `fuel` need not exceed the number of entries by more than one. -/
def selectFull (ctx : SelectionContext) (q : Schedule) (device : Device) (changed : Bool) :
    Nat → Selected
  | 0 => ⟨.wait (some 0), q, changed, device⟩
  | fuel + 1 =>
    match q.head? with
    | none => ⟨.wait none, q, changed, device⟩
    | some head =>
      if !ctx.ready then ⟨.wait (some ctx.settings.keyValueInterval), q, changed, device⟩
      else if ctx.now < head.dueAt then
        ⟨.wait (some (wrapI64 (head.dueAt - ctx.now)).toNat), q, changed, device⟩
      else match device.package? head.package with
        | none => selectFull ctx (q.dequeue head.package) device true fuel
        | some p =>
          if !p.getsFullBackup then selectFull ctx (q.dequeue head.package) device true fuel
          else if device.isForeground p.uid && !p.inForeground then
            let (fuzz, device) := device.draw ctx.settings.busyFuzz
            -- the entry comes back behind everything that is due now
            let retryAt := busyUntil ctx.now ctx.settings.busyMin fuzz
            selectFull ctx (q.defer head.package head.lastBackup retryAt) device true fuel
          else ⟨.run head p, q.dequeue head.package, true, device⟩

/-- What a full-backup job did. -/
inductive FullOutcome where
  | dispatched (package : String)
  /-- Nothing to do, or backup is not allowed. -/
  | noWork
  /-- There is work, but not yet. -/
  | rescheduled (delay : Nat)
  | alreadyRunning
  deriving DecidableEq, Repr

/-- Whether a backup was started. -/
def FullOutcome.isDispatched : FullOutcome → Bool
  | .dispatched _ => true
  | .noWork | .rescheduled _ | .alreadyRunning => false

namespace System

/-- Whether the selected transport can take a full backup: it is registered, its metadata has
been backed up, and it does not wait to be wiped. -/
def transportReady (s : System) : Bool :=
  match s.engine.transports.selected with
  | some name =>
    s.engine.transports.isRegistered name && s.engine.transports.hasMetadata name s.disk &&
      !s.engine.transports.isInitPending name
  | none => false

/-- Choose the next package of the schedule. -/
def selectNext (s : System) : Selection × Bool × System :=
  let ctx : SelectionContext := ⟨s.now, s.transportReady, s.engine.settings⟩
  let q := s.engine.schedule
  let chosen := selectFull ctx q s.device false (q.entries.length + 1)
  (chosen.selection, chosen.changed,
    { s with device := chosen.device }.onEngine fun e => { e with schedule := chosen.schedule })

/-- Start the full backup of a package. -/
def startFull (s : System) (lease : Lease) (entry : ScheduleEntry) (p : Package) : System :=
  let (token, s) := s.freshToken
  let (number, s) := s.freshNumber
  let s := s.onEngine fun e =>
    { e with
      ops := e.ops.registerTask token (.task number)
      runningFull := some (token, entry.package) }
  s.acquireWake.spawn
    { number, job := .full p entry.lastBackup, lease := some lease, token := some token }

/-- Start the chosen package, or say why not. -/
def dispatchFull (s : System) : FullOutcome × Bool × System :=
  match s.selectNext with
  | (.wait none, changed, s) => (.noWork, changed, s)
  | (.wait (some delay), changed, s) => (.rescheduled delay, changed, s)
  | (.run entry p, _, s) =>
    match s.engine.transports.leaseCurrent "full-backup" with
    | (none, _) =>
      -- the package keeps its place in time
      let s := s.onEngine fun e =>
        { e with schedule := e.schedule.defer entry.package entry.lastBackup entry.dueAt }
      (.rescheduled s.engine.settings.keyValueInterval, true, s)
    | (some lease, transports) =>
      let s := s.onEngine fun e => { e with transports }
      (.dispatched entry.package, true, s.startFull lease entry p)

/-- Arm the full-backup job again after an attempt that started nothing. -/
def rearmFull (s : System) : FullOutcome → System
  | .rescheduled delay => s.note (.fullJob delay)
  | .noWork => s.note (.fullJob s.engine.settings.fullInterval)
  | .dispatched _ | .alreadyRunning => s

/-- The full-backup job: back up the next package that is due. -/
def beginFull (s : System) : FullOutcome × System :=
  if !s.engine.policy.allows then (.noWork, s)
  else if s.engine.policy.batterySaver then
    let delay := s.engine.settings.keyValueInterval
    (.rescheduled delay, s.note (.fullJob delay))
  else if s.engine.runningFull.isSome then (.alreadyRunning, s)
  else
    let (outcome, changed, s) := s.dispatchFull
    let s := if changed then s.requestScheduleWrite else s
    (outcome, s.rearmFull outcome)

/-- Cancel the scheduled full backup that runs; whether there was one. -/
def endFullNow (s : System) : Bool × System :=
  match s.engine.runningFull with
  | some (token, _) => (true, s.cancelOperation token)
  | none => (false, s)

end System

end Holdfast
