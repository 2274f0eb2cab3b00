import Holdfast.Proofs.Engine.FrontWork

/-!
# What incidents do to the front

- `Front.Deed`: what an event other than the step of a task can do. Tasks are lined up anew, or one
  begins;
- `System.handle_deed`, `System.make_deed`: commands and calls are of this kind;
- `World.Fronts`, `World.meet_front`: **every incident is a deed or the turn of one task**, and only
  a call hands out delays in a deed.
-/

namespace Holdfast

namespace Front

/-- What an event other than the step of a task does, when it hands out `delays`. -/
inductive Deed (f : Front) (delays : List Nat) : Front → Prop where
  /-- Tasks are lined up anew. -/
  | settle {places : List Place} :
    f.places.Perm places → Deed f delays { f.arm delays with places }
  /-- A task begins. -/
  | enters {p : Place} : p.stage = .opening → Deed f delays ((f.arm delays).enter p)

theorem Deed.arms (f : Front) (delays : List Nat) : f.Deed delays (f.arm delays) :=
  .settle (.refl _)

theorem Deed.refl (f : Front) : f.Deed [] f := by
  have hsame := Deed.arms f []
  rwa [arm_nil] at hsame

/-- Delays are handed out besides. -/
theorem Deed.arm {f f' : Front} {before : List Nat} (h : f.Deed before f') (delays : List Nat) :
    f.Deed (before ++ delays) (f'.arm delays) := by
  cases h with
  | @settle places hperm =>
    show f.Deed _ { (f.arm before).arm delays with places }
    rw [arm_arm]
    exact .settle hperm
  | @enters p hstage =>
    show f.Deed _ (((f.arm before).arm delays).enter p)
    rw [arm_arm]
    exact .enters hstage

theorem Deed.enter (f : Front) {p : Place} (h : p.stage = .opening) : f.Deed [] (f.enter p) := by
  have henters := @Deed.enters f [] p h
  rwa [arm_nil] at henters

end Front

namespace System

open Front (Deed)

variable {s s' s'' : System}

/-- The list of tasks may be put into another order. -/
theorem reorder_deed {tasks : List Task} (h : s.engine.tasks.Perm tasks) :
    s.front.Deed [] (s.onEngine fun e => { e with tasks }).front := by
  have hsettle := @Deed.settle s.front [] (tasks.map Task.place) (h.map Task.place)
  rwa [Front.arm_nil] at hsettle

/-- `sendBack` puts one task behind the others. -/
theorem sendBack_deed (s : System) (number : Nat) : s.front.Deed [] (s.sendBack number).front := by
  have hperm := List.filter_append_perm (fun task : Task => decide (task.number ≠ number))
    s.engine.tasks
  have hsame : (fun task : Task => !decide (task.number ≠ number)) =
      fun task => decide (task.number = number) := by
    funext task
    simp
  rw [hsame] at hperm
  exact reorder_deed hperm.symm

/-- `wake` puts the tasks that wait for an answer behind the others. -/
theorem wake_deed (s : System) (transport : String) (method : TransportMethod) :
    s.front.Deed [] (s.wake transport method).front := by
  unfold wake
  split
  · have hperm := List.filter_append_perm (waitsFor transport method) s.engine.tasks
    exact reorder_deed (hperm.symm.trans List.perm_append_comm)
  · exact .refl _

/-! ## Commands and timers

A command asks nothing of the host. Some commands begin a task: those are followed to `spawn`, which
puts the task at the end. -/

/-- `startKeyValue` begins one task. The token and the number that it takes first are no part of
the front. -/
theorem startKeyValue_deed (s : System) (lease : Lease) (drained : Option Drained)
    (keyValue full : List String) (observer : Option String) (nonIncremental : Bool) :
    s.front.Deed []
      (s.startKeyValue lease drained keyValue full observer nonIncremental).front := by
  unfold startKeyValue
  simp only [spawn_front]
  show s.front.Deed [] (s.freshToken.2.front.enter _)
  rw [freshToken_front]
  exact .enter s.front rfl

/-- `runKeyValue` does nothing, arms the key-value job anew, or begins a pass. -/
theorem runKeyValue_deed (s : System) : s.front.Deed [] s.runKeyValue.front := by
  refine runKeyValue_elim ?stays ?putsOff ?drains
  case stays => exact fun _ => .refl _
  case putsOff =>
    rw [scheduleKeyValueJob_front]
    exact .refl _
  case drains => exact fun _ _ _ _ => startKeyValue_deed _ _ _ _ _ _ _

/-- `startRequested` lets a request wait, or begins its pass. -/
theorem startRequested_deed_front (s : System) (order : BackupOrder) :
    s.front.Deed [] (s.startRequested order).front := by
  unfold startRequested
  split
  · exact .refl _
  · exact s.startKeyValue_deed _ _ _ _ _ _

/-- `handlePassFinished` begins the pass of the request that waited longest, if one waited. -/
theorem handlePassFinished_deed_front (s : System) :
    s.front.Deed [] s.handlePassFinished.front := by
  refine handlePassFinished_elim ?hears ?begins
  case hears => exact fun _ => .refl _
  case begins =>
    exact fun order rest _ _ => startRequested_deed_front (s.onEngine fun e =>
      { e with runningPasses := e.runningPasses - 1, waitingRequests := rest }) order

/-- `startInit` begins a task unless it has no transport to wipe. -/
theorem startInit_deed (s : System) (transports : List String) (observer : Option String) :
    s.front.Deed [] (s.startInit transports observer).front := by
  unfold startInit
  split
  · exact .refl _
  · simp only [spawn_front]
    exact .enter s.front rfl

/-- `startClearData` begins a task, or tries again later. -/
theorem startClearData_deed (s : System) (transport package : String) :
    s.front.Deed [] (s.startClearData transport package).front := by
  refine startClearData_elim ?putsOff ?starts
  case putsOff => exact .refl _
  case starts =>
    simp only [spawn_front]
    exact .enter s.front rfl

theorem spawnRestore_deed (s : System) (order : RestoreOrder) :
    s.front.Deed [] (s.spawnRestore order).front := by
  unfold spawnRestore
  simp only [spawn_front]
  exact .enter s.front rfl

/-- `startRestore` stops the timer of the session first, and then lets the restore wait or begins
it. -/
theorem startRestore_deed_front (s : System) (order : RestoreOrder) :
    s.front.Deed [] (s.startRestore order).front := by
  have hadmit : ∀ s : System, s.front.Deed [] (s.admitRestore order).front := by
    intro s
    unfold admitRestore
    split
    · exact .refl _
    · exact spawnRestore_deed (s.onEngine fun e => { e with restoring := true }) order
  unfold startRestore
  cases order.session with
  | none => exact hadmit s
  | some session =>
    have hadmitted := hadmit (s.replaceSessionTimer session none)
    rwa [(s.replaceSessionTimer_within session none).front (by decide)] at hadmitted

/-- `handleRestoreFinished` arms the session whose restore ended, and begins the restore that waited
longest. -/
theorem handleRestoreFinished_deed (s : System) (session : Option Nat) :
    s.front.Deed [] (s.handleRestoreFinished session).front := by
  have hnext : ∀ s' : System, s'.front = s.front → s.front.Deed [] s'.startNextRestore.front := by
    intro s' hsame
    rw [← hsame]
    unfold startNextRestore
    split
    · exact .refl _
    · rename_i order rest _
      exact spawnRestore_deed (s'.onEngine fun e => { e with waitingRestores := rest }) order
  unfold handleRestoreFinished
  refine hnext _ ?_
  split
  · split
    · exact (s.armSession_within _).front (by decide)
    · rfl
  · rfl

/-- What a command does to the front. -/
theorem handle_deed (s : System) (command : Command) :
    s.front.Deed [] (s.handle command).front := by
  cases command with
  | runKeyValue => exact s.runKeyValue_deed
  | requestBackup order => exact s.startRequested_deed_front order
  | passFinished => exact s.handlePassFinished_deed_front
  | wipe transports observer => exact s.startInit_deed transports observer
  | clearData transport package => exact s.startClearData_deed transport package
  | startRestore order => exact s.startRestore_deed_front order
  | restoreFinished session => exact s.handleRestoreFinished_deed session
  | shutdown => exact .refl s.front
  | dataChanged | writeSchedule | snapshot | sessionTimeout =>
    -- Their footprints have no part in common with the front.
    rw [(s.handle_within (by simp)).front (by dsimp only [Command.footprint]; decide)]
    exact .refl s.front

/-- An event of the operations can cancel one, which leaves its task at its place. -/
theorem handleEvent_front (hs : s.Distinct) (event : OpEvent Watcher) :
    (s.handleEvent event).front = s.front := by
  cases event with
  | completed _ _ _ => rfl
  | deadlineElapsed token =>
    simp only [handleEvent]
    split
    · exact cancelOperation_front hs token
    · rfl

/-! ## Calls -/

/-- The front is as it was, apart from delays that were handed out. -/
def Arms (s s' : System) : Prop := ∃ delays, s'.front = s.front.arm delays

namespace Arms

theorem of_eq (h : s'.front = s.front) : s.Arms s' := ⟨[], by rw [h, Front.arm_nil]⟩

theorem refl : s.Arms s := of_eq rfl

theorem trans (h : s.Arms s') (h' : s'.Arms s'') : s.Arms s'' := by
  obtain ⟨delays, hfront⟩ := h
  obtain ⟨delays', hfront'⟩ := h'
  exact ⟨delays ++ delays', by rw [hfront', hfront, Front.arm_arm]⟩

theorem deed (h : s.Arms s') : ∃ delays, s.front.Deed delays s'.front := by
  obtain ⟨delays, hfront⟩ := h
  rw [hfront]
  exact ⟨delays, .arms _ _⟩

end Arms

theorem scheduleNextFullJob_arms (s : System) (latency : Nat) :
    s.Arms (s.scheduleNextFullJob latency) :=
  ⟨_, s.scheduleNextFullJob_front latency⟩

/-- Both jobs are armed. -/
theorem armJobs_arms (s : System) : s.Arms (s.scheduleKeyValueJob.scheduleNextFullJob 0) :=
  .trans (.of_eq s.scheduleKeyValueJob_front) (scheduleNextFullJob_arms _ 0)

/-- **A cancel pushes the job of full backups back** by twice the least delay of a busy package. -/
theorem cancelBackups_front (hs : s.Distinct) :
    s.cancelBackups.front = s.front.arm [min (s.engine.settings.busyMin * 2) maxU64] := by
  have hcanceled := foldl_within cancelOperation_within s.engine.ops.pendingTasks s
  have hsettings : (s.engine.ops.pendingTasks.foldl cancelOperation s).engine.settings =
      s.engine.settings := congrArg Prod.fst (hcanceled.same .givens (by decide))
  unfold cancelBackups
  simp only
  rw [note_fullJob, note_front _ rfl rfl rfl, cancelAll_front _ hs, hsettings]

/-- `startFull` begins one task, like `startKeyValue`. -/
theorem startFull_deed (s : System) (lease : Lease) (entry : ScheduleEntry) (p : Package) :
    s.front.Deed [] (s.startFull lease entry p).front := by
  unfold startFull
  simp only [spawn_front]
  show s.front.Deed [] (s.freshToken.2.front.enter _)
  rw [freshToken_front]
  exact .enter s.front rfl

/-- `dispatchFull` begins the backup of the package that was chosen, unless none is due or the
transport is gone. -/
theorem dispatchFull_deed (s : System) : s.front.Deed [] s.dispatchFull.2.2.front := by
  rw [← s.selectNext_within.front (by decide)]
  refine dispatchFull_elim ?waits ?putsBack ?starts
  case waits => exact .refl _
  case putsBack => exact fun _ _ _ _ => .refl s.selectNext.2.2.front
  case starts =>
    exact fun entry p name _ => startFull_deed (s.selectNext.2.2.lend name "full-backup") _ entry p

/-- `beginFull` may begin a full backup, and hands out a delay if it does not. -/
theorem beginFull_deed (s : System) : ∃ delays, s.front.Deed delays s.beginFull.2.front := by
  refine beginFull_elim ?start ?dispatches ?writes ?arms
  case start => exact ⟨_, .refl _⟩
  case dispatches => exact fun _ => ⟨_, s.dispatchFull_deed⟩
  case writes =>
    intro s' hdeed
    rwa [requestScheduleWrite_front]
  case arms =>
    rintro s' delay ⟨delays, hdeed⟩
    exact ⟨delays ++ [delay], note_fullJob s' delay ▸ hdeed.arm [delay]⟩

/-- `setEnabled` arms both jobs when backups are allowed again. -/
theorem setEnabled_arms (s : System) (on : Bool) : s.Arms (s.setEnabled on).2 := by
  have hset : (s.switched on).front = s.front := rfl
  refine setEnabled_elim ?refuses ?keeps ?allows ?forbids
  case refuses => exact .refl
  case keeps => exact fun _ => .of_eq hset
  case allows => exact fun _ _ => .trans (.of_eq hset) (armJobs_arms _)
  case forbids =>
    -- The job of full backups is not taken back. Only the marks of the transports are written.
    intro _ _ delay
    refine .of_eq ?_
    rw [postDelayed_front, (markAll_within _ _).front (by decide), note_front _ rfl rfl rfl, hset]

/-- `setProvisioned` arms both jobs when the device is provisioned for the first time. -/
theorem setProvisioned_arms (s : System) (on : Bool) : s.Arms (s.setProvisioned on) := by
  unfold setProvisioned
  simp only
  split
  · exact .trans (.of_eq rfl) (armJobs_arms (s.onPolicy fun p => { p with provisioned := on }))
  · exact .of_eq rfl

/-- `packageAdded` arms the job of full backups for a package that enters the schedule. -/
theorem packageAdded_arms (s : System) (package : String) (replacing : Bool) :
    s.Arms (s.packageAdded package replacing) := by
  refine packageAdded_elim ?start ?joins ?announces ?enqueues ?dequeues
  case start => exact .refl
  case joins => exact fun _ => .of_eq rfl
  case announces => exact fun s' _ _ h => h.trans (.of_eq (s'.post_front _))
  case enqueues =>
    exact fun s' h =>
      (h.trans (.of_eq (s'.enqueueFull_front _ _))).trans (scheduleNextFullJob_arms _ 0)
  case dequeues => exact fun s' h => h.trans (.of_eq (requestScheduleWrite_front _))

theorem packageChanged_arms (s : System) (package : String) :
    s.Arms (s.packageChanged package) := by
  unfold packageChanged
  split
  · exact s.packageAdded_arms package true
  · exact .refl

/-- `endFullNow` cancels the full backup that runs. -/
theorem endFullNow_front (hs : s.Distinct) : s.endFullNow.2.front = s.front := by
  unfold endFullNow
  split
  · exact cancelOperation_front hs _
  · rfl

/-- What a call does to the front. -/
theorem make_deed (hs : s.Distinct) (c : Call) :
    ∃ delays, s.front.Deed delays (c.make s).front := by
  cases c with
  | beginFull => exact s.beginFull_deed
  | cancelBackups => exact Arms.deed ⟨_, cancelBackups_front hs⟩
  | scheduleNextFullJob latency => exact Arms.deed (s.scheduleNextFullJob_arms latency)
  | setEnabled on => exact Arms.deed (s.setEnabled_arms on)
  | setProvisioned on => exact Arms.deed (s.setProvisioned_arms on)
  | packageAdded package replacing => exact Arms.deed (s.packageAdded_arms _ _)
  | packageChanged package => exact Arms.deed (s.packageChanged_arms _)
  | endFull => exact Arms.deed (.of_eq (endFullNow_front hs))
  | cancelOperation token => exact Arms.deed (.of_eq (cancelOperation_front hs token))
  | _ =>
    -- No other call has a part of the front in its footprint.
    refine Arms.deed (.of_eq ((s.make_within _).front ?_))
    dsimp only [Call.footprint]
    decide

end System

/-! ## Incidents -/

/-- Whether somebody calls into the engine. -/
def Incident.isCall : Incident → Bool
  | .event (.call _) | .event (.select _) | .event (.sets _) | .shutdown => true
  | .event _ => false

namespace World

open Front (Deed Turn)

variable {w : World}

/-- What an incident does to the front. -/
inductive Fronts (w : World) (i : Incident) : Prop where
  | deed (delays : List Nat) :
    (i.isCall = false → delays = []) → w.system.front.Deed delays (w.meet i).system.front →
    Fronts w i
  /-- A task makes a step. -/
  | turn {t : Task} :
    t ∈ w.system.engine.tasks → i = .event (.task t.number) → w.system.isReady t = true →
    (w.meet i).system = w.system.stepTask t →
    w.system.front.Reaches t.place (w.meet i).system → Fronts w i

theorem Fronts.of_eq {i : Incident} (h : (w.meet i).system.front = w.system.front) :
    w.Fronts i :=
  .deed [] (fun _ => rfl) (h ▸ .refl _)

/-- **Every incident is a deed or the turn of one task**, and only a call hands out delays in a
deed. -/
theorem meet_front (hs : w.system.Distinct) (i : Incident) : w.Fronts i := by
  cases i with
  | shutdown => exact .of_eq (w.system.send_front .shutdown)
  | event event =>
    cases event with
    | command =>
      refine .deed [] (fun _ => rfl) ?_
      simp only [meet, happen]
      split
      · exact .refl _
      · rename_i command rest _
        exact System.handle_deed (w.system.onEngine fun e => { e with inbox := rest }) command
    | operation =>
      refine .of_eq ?_
      simp only [meet, happen]
      split
      · rfl
      · rename_i event rest _
        exact System.handleEvent_front (s := w.system.onEngine fun e =>
          { e with ops := { e.ops with events := rest } }) hs event
    | timers => exact .of_eq (w.system.fireTimers_within.front (by decide))
    | clock => exact .of_eq rfl
    | task number =>
      -- The event is about a task only if there is one of that number and it is ready.
      cases hfind : w.system.engine.tasks.find? (·.number == number) with
      | none => exact .of_eq (by simp only [meet, happen, hfind])
      | some t =>
        obtain rfl : t.number = number := by simpa using List.find?_some hfind
        cases hready : w.system.isReady t with
        | false =>
          refine .of_eq ?_
          simp only [meet, happen, hfind, hready, Bool.false_eq_true, if_false]
        | true =>
          have hstep : (w.meet (.event (.task t.number))).system = w.system.stepTask t := by
            simp only [meet, happen, hfind, hready, if_true]
            rfl
          refine .turn (List.mem_of_find?_eq_some hfind) rfl hready hstep ?_
          rw [hstep]
          exact System.stepTask_turn_front hs t
    | sendBack number => exact .deed [] (fun _ => rfl) (w.system.sendBack_deed number)
    | wake transport method =>
      exact .deed [] (fun _ => rfl) (w.system.wake_deed transport method)
    | call c =>
      obtain ⟨delays, hdeed⟩ := System.make_deed hs c
      exact .deed delays (fun h => by cases h) hdeed
    | select name =>
      -- The call ends at once, or goes on while the transport is asked.
      refine .of_eq ?_
      show (w.happen (.select name)).system.front = w.system.front
      have hbegun := (w.system.beginSelect_within name).front (by decide)
      rcases w.select_system name with heq | heq
      · rw [heq, hbegun]
      · rw [heq, (System.endSelect_within _ none).front (by decide), hbegun]
    | sets session =>
      refine .of_eq ?_
      show (w.happen (.sets session)).system.front = w.system.front
      rw [sets_system, (w.system.beginSets_within session).front (by decide)]
    | land index =>
      refine .of_eq ?_
      simp only [meet, happen]
      split
      · rfl
      · rename_i flight _
        cases flight with
        | select lease => rfl
        | sets session lease => exact (w.system.endSets_within session lease).front (by decide)
    | drop index => exact .of_eq (congrArg System.front (w.drop_system index))
    | outside disk device => exact .of_eq rfl

end World

end Holdfast
