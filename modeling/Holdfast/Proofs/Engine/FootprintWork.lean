import Holdfast.Proofs.Engine.Footprint

/-!
# What commands, events and calls change

- one footprint for each function of the loop (`System.startKeyValue_within`,
  `System.armSession_within`, …), for events and timers (`System.handleEvent_within`,
  `System.fireTimers_within`), and for each call (`System.requestBackup_within`,
  `System.beginFull_within`, …);
- `Command.footprint` and `System.handle_within`: **a command keeps within its footprint**, unless
  it stops the loop.
-/

namespace Holdfast

namespace Footprint

/-- A key-value pass begins. -/
def starting : Footprint := [.words, .tokens, .numbers, .operations, .passes, .tasks]

/-- A session gets another timer. -/
def timing : Footprint := .session :: .numbers :: alarms

/-- A restore begins or waits. -/
def admitting : Footprint := [.numbers, .tasks, .restoring, .waitingRestores]

/-- A scheduled full backup is chosen and begins. -/
def dispatching : Footprint :=
  [.schedule, .chance, .leases, .words, .tokens, .numbers, .operations, .runningFull, .wake, .tasks]

end Footprint

open Footprint

namespace System

variable {s s' : System}

/-! ## Commands -/

/-- A change is staged in the journal, and the job of passes is armed. -/
theorem handleDataChanged_within (s : System) (package : String) (targets : NameSet) :
    s.Within ([.disk, .pending] ++ arming) (s.handleDataChanged package targets) :=
  (s.withPending_within _ _).andThen (scheduleKeyValueJob_within _)

/-- A pass begins: it gets a number and a token, is entered among the operations and counted. -/
theorem startKeyValue_within (s : System) (lease : Lease) (drained : Option Drained)
    (keyValue full : List String) (observer : Option String) (nonIncremental : Bool) :
    s.Within starting
      (s.startKeyValue lease drained keyValue full observer nonIncremental) := by
  have hregister : ∀ (s : System) (token : OpToken) (number : Nat),
      s.Within [.operations, .passes] (s.onEngine fun e =>
        { e with
          ops := e.ops.registerTask token (.task number)
          runningPasses := e.runningPasses + 1 }) := by
    intro s token number
    have hclock := s.engine.ops.act_clock (.registerTask token (.task number))
    refine .of_same (fun p hp => ?_) rfl rfl
    cases p <;> first | exact absurd (by decide) hp | exact hclock | rfl
  exact (((s.freshToken_within.andThen (freshNumber_within _)).andThen (hregister _ _ _)).andThen
    (spawn_within _ _)).mono (by decide)

/-- The job of passes: it stays where it is, arms itself again, or drains the pending packages for a
pass that it starts. -/
theorem runKeyValue_within (s : System) :
    s.Within (starting ++ [.leases, .pending] ++ arming) s.runKeyValue := by
  refine runKeyValue_elim ?stays ?putsOff ?drains
  case stays => exact fun _ => .refl s
  case putsOff => exact s.scheduleKeyValueJob_within.mono (by decide)
  case drains =>
    intro name packages _ _
    have hdrained : ∀ (s : System) (pending : Pending),
        s.Within [.pending] (s.onEngine fun e => { e with pending }) := fun s pending =>
      .of_same (fun p hp => by cases p <;> first | exact absurd (by decide) hp | rfl) rfl rfl
    exact (((s.lend_within name "key-value").andThen (hdrained _ _)).andThen
      (startKeyValue_within _ _ _ _ _ _ _)).mono (by decide)

/-- A requested backup waits while a pass runs, else it starts one. -/
theorem startRequested_within (s : System) (order : BackupOrder) :
    s.Within (.waitingRequests :: starting) (s.startRequested order) := by
  unfold startRequested
  split
  · exact .of_same (fun p hp => by cases p <;> first | exact absurd (by decide) hp | rfl) rfl rfl
  · exact (s.startKeyValue_within _ _ _ _ _ _).mono (by decide)

/-- A pass is counted out, and the first of the waiting requests begins. -/
theorem handlePassFinished_within (s : System) :
    s.Within (.waitingRequests :: starting) s.handlePassFinished := by
  refine handlePassFinished_elim ?hears ?begins
  case hears =>
    exact fun _ =>
      .of_same (fun p hp => by cases p <;> first | exact absurd (by decide) hp | rfl) rfl rfl
  case begins =>
    intro order rest _ _
    have hcounted : s.Within (.waitingRequests :: starting) (s.onEngine fun e =>
        { e with runningPasses := e.runningPasses - 1, waitingRequests := rest }) :=
      .of_same (fun p hp => by cases p <;> first | exact absurd (by decide) hp | rfl) rfl rfl
    exact hcounted.trans (startRequested_within _ order)

/-- A wipe is a task like the others; where there is nothing to wipe there is none. -/
theorem startInit_within (s : System) (transports : List String) (observer : Option String) :
    s.Within [.numbers, .tasks] (s.startInit transports observer) := by
  unfold startInit
  split
  · exact .refl s
  · exact s.freshNumber_within.andThen (spawn_within _ _)

/-- The deletion of data borrows the transport, or is tried again later. -/
theorem startClearData_within (s : System) (transport package : String) :
    s.Within [.leases, .numbers, .tasks, .timers .packages]
      (s.startClearData transport package) := by
  refine startClearData_elim ?putsOff ?starts
  case putsOff => exact (s.postDelayed_within .packages rfl _).mono (by decide)
  case starts =>
    exact (((s.lend_within _ _).andThen (freshNumber_within _)).andThen (spawn_within _ _)).mono
      (by decide)

/-- The schedule is written, and the next change will ask for that again. -/
theorem writeSchedule_within (s : System) :
    s.Within [.disk, .writeRequested] s.writeSchedule :=
  .of_same (fun p hp => by cases p <;> first | exact absurd (by decide) hp | rfl) rfl rfl

/-! ## Sessions and restores -/

/-- The timer of a session, if it has one, is stopped. -/
theorem dropTimer_within (s : System) (timer : Option Nat) :
    s.Within alarms (s.dropTimer timer) := by
  cases timer with
  | none => exact .refl s
  | some number => exact s.stopTimer_within number

/-- Another session, or none, is open. -/
theorem withSession_within (s : System) (session : Option OpenSession) :
    s.Within [.session] (s.onEngine fun e => { e with session }) :=
  .of_same (fun p hp => by cases p <;> first | exact absurd (by decide) hp | rfl) rfl rfl

/-- The open session gets another timer in place of the one it has. A timer for a session that is
gone is stopped. -/
theorem replaceSessionTimer_within (s : System) (session : Nat) (timer : Option Nat) :
    s.Within (.session :: alarms) (s.replaceSessionTimer session timer) := by
  unfold replaceSessionTimer
  split
  · split
    · exact ((s.dropTimer_within _).andThen (withSession_within _ _)).mono (by decide)
    · exact (s.dropTimer_within _).mono (by decide)
  · exact (s.dropTimer_within _).mono (by decide)

/-- A session will close when nobody uses it. -/
theorem armSession_within (s : System) (session : Nat) :
    s.Within timing (s.armSession session) :=
  ((s.postDelayed_within .others rfl _).andThen (replaceSessionTimer_within _ _ _)).mono
    (by decide)

/-- Only the session that is open closes, and its timer with it. -/
theorem closeSession_within (s : System) (session : Nat) :
    s.Within (.session :: alarms) (s.closeSession session) := by
  unfold closeSession
  split
  · split
    · exact ((s.dropTimer_within _).andThen (withSession_within _ _)).mono (by decide)
    · exact .refl s
  · exact .refl s

/-- A restore is a task under a fresh number. -/
theorem spawnRestore_within (s : System) (order : RestoreOrder) :
    s.Within [.numbers, .tasks] (s.spawnRestore order) :=
  s.freshNumber_within.andThen (spawn_within _ _)

/-- A restore waits while another one runs. -/
theorem admitRestore_within (s : System) (order : RestoreOrder) :
    s.Within admitting (s.admitRestore order) := by
  have hrestoring : s.Within admitting (s.onEngine fun e => { e with restoring := true }) :=
    .of_same (fun p hp => by cases p <;> first | exact absurd (by decide) hp | rfl) rfl rfl
  unfold admitRestore
  split
  · exact .of_same (fun p hp => by cases p <;> first | exact absurd (by decide) hp | rfl) rfl rfl
  · exact hrestoring.next (spawnRestore_within _ order) (by decide)

/-- The restore of a session stops the timer of the session first. -/
theorem startRestore_within (s : System) (order : RestoreOrder) :
    s.Within (timing ++ admitting) (s.startRestore order) := by
  unfold startRestore
  cases order.session with
  | none => exact (s.admitRestore_within order).mono (by decide)
  | some session =>
    exact ((s.replaceSessionTimer_within session none).andThen (admitRestore_within _ order)).mono
      (by decide)

/-- The next restore in the line begins, or none runs any more. -/
theorem startNextRestore_within (s : System) : s.Within admitting s.startNextRestore := by
  unfold startNextRestore
  split
  · exact .of_same (fun p hp => by cases p <;> first | exact absurd (by decide) hp | rfl) rfl rfl
  · rename_i order rest _
    have hline : s.Within admitting (s.onEngine fun e => { e with waitingRestores := rest }) :=
      .of_same (fun p hp => by cases p <;> first | exact absurd (by decide) hp | rfl) rfl rfl
    exact hline.next (spawnRestore_within _ order) (by decide)

/-- The session of a restore that has ended gets a timer again, before the next restore begins. -/
theorem handleRestoreFinished_within (s : System) (session : Option Nat) :
    s.Within (timing ++ admitting) (s.handleRestoreFinished session) := by
  unfold handleRestoreFinished
  cases session with
  | none => exact s.startNextRestore_within.mono (by decide)
  | some session =>
    simp only
    split
    · exact (s.armSession_within session).andThen (startNextRestore_within _)
    · exact s.startNextRestore_within.mono (by decide)

end System

/-- What a command changes. A shutdown is left out: it drops the commands that are queued. -/
def Command.footprint : Command → Footprint
  | .dataChanged _ _ => [.disk, .pending] ++ arming
  | .runKeyValue => starting ++ [.leases, .pending] ++ arming
  | .requestBackup _ | .passFinished => .waitingRequests :: starting
  | .wipe _ _ => [.numbers, .tasks]
  | .clearData _ _ => [.leases, .numbers, .tasks, .timers .packages]
  | .writeSchedule => [.disk, .writeRequested]
  | .startRestore _ | .restoreFinished _ => timing ++ admitting
  | .sessionTimeout _ => .session :: alarms
  | .snapshot | .shutdown => []

namespace System

variable {s s' : System}

/-- **A command keeps within its footprint**, unless it stops the loop. -/
theorem handle_within (s : System) {command : Command} (h : command ≠ .shutdown) :
    s.Within command.footprint (s.handle command) := by
  cases command with
  | dataChanged package targets => exact s.handleDataChanged_within package targets
  | runKeyValue => exact s.runKeyValue_within
  | requestBackup order => exact s.startRequested_within order
  | passFinished => exact s.handlePassFinished_within
  | wipe transports observer => exact s.startInit_within transports observer
  | clearData transport package => exact s.startClearData_within transport package
  | writeSchedule => exact s.writeSchedule_within
  | startRestore order => exact s.startRestore_within order
  | restoreFinished session => exact s.handleRestoreFinished_within session
  | sessionTimeout session => exact s.closeSession_within session
  | snapshot => exact .refl s
  | shutdown => exact absurd rfl h

/-! ## Events -/

/-- Nobody joins or leaves the line when an agent comes up or goes away. -/
theorem withArrival_within (s : System) (awaited : Option String)
    (arrival : Option (Arrival Unit)) : s.Within [.arrival] (s.onEngine fun e =>
      { e with binder := { e.binder with awaited, arrival } }) :=
  .of_same (fun p hp => by cases p <;> first | exact absurd (by decide) hp | rfl) rfl rfl

/-- A deadline that was hit cancels its operation if that is still pending. -/
theorem handleEvent_within (s : System) (event : OpEvent Watcher) :
    s.Within [.operations, .tasks] (s.handleEvent event) := by
  unfold handleEvent
  split
  · exact .refl s
  · split
    · exact s.cancelOperation_within _
    · exact .refl s

/-- Timers of every sort post commands of every sort, and end binds that take too long. -/
theorem fireTimers_within (s : System) :
    s.Within (.arrival :: alarms ++ letters) s.fireTimers := by
  have hrest : s.Within (.arrival :: alarms ++ letters) (s.onEngine fun e =>
      { e with timers := e.timers.filter fun timer => ¬ timer.due ≤ e.ops.clock }) := by
    refine .of_same (fun p hp => ?_) rfl rfl
    cases p with
    | timers sort =>
      exact absurd (List.mem_append_left letters (List.mem_cons_of_mem .arrival (mem_alarms sort)))
        hp
    | _ => rfl
  refine hrest.trans (foldl_within (fun s timer => ?_) s.dueTimers _)
  unfold goOff
  split
  · rename_i command _
    refine (s.post_within command.sort rfl).mono fun p hp => ?_
    rw [List.mem_singleton.1 hp]
    exact List.mem_append_right _ (mem_letters _)
  · rename_i ticket _
    by_cases hawaited : s.engine.binder.isTurn ticket && s.engine.binder.awaited.isSome
    · simp only [onEngine, Binder.expire, if_pos hawaited]
      exact (s.withArrival_within _ _).mono (by decide)
    · simp only [onEngine, Binder.expire, if_neg hawaited]
      exact .refl s

/-- The tasks whose calls come back line up behind the others. -/
theorem wake_within (s : System) (transport : String) (method : TransportMethod) :
    s.Within [.tasks] (s.wake transport method) := by
  unfold wake
  split
  · exact s.withTasks_within _
  · exact .refl s

/-! ## The job of full backups -/

/-- A full backup begins: it holds the slot, the wake lock and an operation of its own. -/
theorem startFull_within (s : System) (lease : Lease) (entry : ScheduleEntry) (p : Package) :
    s.Within dispatching (s.startFull lease entry p) := by
  have hregister : ∀ (s : System) (token : OpToken) (number : Nat),
      s.Within [.operations, .runningFull] (s.onEngine fun e =>
        { e with
          ops := e.ops.registerTask token (.task number)
          runningFull := some (token, entry.package) }) := by
    intro s token number
    have hclock := s.engine.ops.act_clock (.registerTask token (.task number))
    refine .of_same (fun p hp => ?_) rfl rfl
    cases p <;> first | exact absurd (by decide) hp | exact hclock | rfl
  exact ((((s.freshToken_within.andThen (freshNumber_within _)).andThen (hregister _ _ _)).andThen
    (acquireWake_within _)).andThen (spawn_within _ _)).mono (by decide)

/-- The walk along the schedule uses up random draws. -/
theorem selectFull_uses (ctx : SelectionContext) (q : Schedule) (d : Device) (changed : Bool)
    (fuel : Nat) : ∃ chance, (selectFull ctx q d changed fuel).device = { d with chance } := by
  induction fuel generalizing q d changed with
  | zero => exact ⟨_, rfl⟩
  | succ fuel ih =>
    unfold selectFull
    split
    · exact ⟨_, rfl⟩
    · split
      · exact ⟨_, rfl⟩
      · split
        · exact ⟨_, rfl⟩
        -- a package that may not be backed up now is passed over, and one that is busy is put off
        · split
          · exact ih _ _ _
          · split
            · exact ih _ _ _
            · split
              · obtain ⟨chance, hdrawn⟩ := d.draw_uses ctx.settings.busyFuzz
                simp only [hdrawn]
                obtain ⟨chance', hused⟩ := ih _ { d with chance } true
                exact ⟨chance', hused⟩
              · exact ⟨_, rfl⟩

/-- The choice of a package changes the schedule and uses up draws. -/
theorem selectNext_within (s : System) : s.Within [.schedule, .chance] s.selectNext.2.2 := by
  obtain ⟨chance, hused⟩ := selectFull_uses ⟨s.now, s.transportReady, s.engine.settings⟩
    s.engine.schedule s.device false (s.engine.schedule.entries.length + 1)
  unfold selectNext
  simp only [hused]
  exact .of_same (fun p hp => by cases p <;> first | exact absurd (by decide) hp | rfl) rfl rfl

/-- The package that was chosen starts a full backup, or keeps its place if no transport can be
borrowed. -/
theorem dispatchFull_within (s : System) : s.Within dispatching s.dispatchFull.2.2 := by
  have hselect : s.Within dispatching s.selectNext.2.2 := s.selectNext_within.mono (by decide)
  refine dispatchFull_elim ?waits ?putsBack ?starts
  case waits => exact hselect
  case putsBack =>
    exact fun _ _ _ _ => hselect.trans
      (.of_same (fun p hp => by cases p <;> first | exact absurd (by decide) hp | rfl) rfl rfl)
  case starts =>
    exact fun entry p name _ => (hselect.next (lend_within _ name "full-backup") (by decide)).trans
      (startFull_within _ _ entry p)

/-- The job of full backups: it starts one at most, and then it writes the schedule and arms itself
as need be. -/
theorem beginFull_within (s : System) :
    s.Within (dispatching ++ rescheduling ++ [.notices .fullJob]) s.beginFull.2 := by
  refine beginFull_elim ?start ?dispatches ?writes ?arms
  case start => exact .refl s
  case dispatches => exact fun _ => s.dispatchFull_within.mono (by decide)
  case writes => exact fun s' h => h.next s'.requestScheduleWrite_within (by decide)
  case arms => exact fun s' delay h => h.next (s'.note_within .fullJob rfl) (by decide)

/-- The job of full backups is stopped from outside: the running one is canceled. -/
theorem endFullNow_within (s : System) : s.Within [.operations, .tasks] s.endFullNow.2 := by
  unfold endFullNow
  split
  · exact s.cancelOperation_within _
  · exact .refl s

/-! ## Changes and backups -/

/-- An announcement is sent to the loop, or refused. -/
theorem dataChanged_within (s : System) (caller : Caller) (package : String) :
    s.Within [.mail .packages] (s.dataChanged caller package).2 := by
  unfold dataChanged
  simp only
  split
  · exact .refl s
  · exact s.send_within .packages rfl

/-- An observer is told of packages that will not be backed up. -/
theorem classify_within (s : System) (observer : Option String) (packages : List String) :
    s.Within [.notices .observers] (s.classify observer packages).2.2 := by
  refine classify_elim ?start ?tells
  case start => exact .refl s
  case tells => exact fun s' package status h => h.trans (s'.tellResult_within _ _ _)

/-- A request that is not refused borrows the transport, and the loop is asked to start the backup.
-/
theorem requestBackup_within (s : System) (caller : Caller) (packages : List String)
    (observer : Option String) (nonIncremental : Bool) :
    s.Within [.leases, .notices .observers, .mail .passes]
      (s.requestBackup caller packages observer nonIncremental).2 := by
  refine requestBackup_elim ?refuses ?posts
  case refuses => exact fun _ _ _ => .refl s
  case posts =>
    rintro name keyValue full s' - - rfl
    exact ((s.lend_within name _).andThen (classify_within _ observer packages)).andThen
      (post_within _ .passes rfl)

/-- A backup at once is sent to the loop, but a device that saves battery arms the job instead. -/
theorem backupNow_within (s : System) :
    s.Within (.mail .chores :: arming) s.backupNow.2 := by
  unfold backupNow
  split
  · exact s.scheduleKeyValueJob_within.mono (by decide)
  · exact (s.send_within .chores rfl).mono (by decide)

/-- All passes are canceled, and both jobs are pushed back. -/
theorem cancelBackups_within (s : System) :
    s.Within [.operations, .tasks, .notices .keyValueJob, .notices .fullJob] s.cancelBackups :=
  ((foldl_within cancelOperation_within s.engine.ops.pendingTasks s).andThen
    (note_within _ .keyValueJob rfl)).andThen (note_within _ .fullJob rfl)

/-- The deletion of data is sent to the loop, or refused. -/
theorem clearData_within (s : System) (caller : Caller) (transport package : String) :
    s.Within [.mail .packages] (s.clearData caller transport package).2 := by
  unfold clearData
  split
  · exact .refl s
  · split
    · exact .refl s
    · exact s.send_within .packages rfl

/-! ## Transports -/

/-- A transport is entered, and one that is marked will be wiped. A registration that fails may have
made folders. -/
theorem registerTransport_within (s : System) (t : TransportDescription) :
    s.Within (.directory :: marking) (s.registerTransport t).2 := by
  have hentered : ∀ pending disk, s.Within (.directory :: marking) (s.entered t pending disk) :=
    fun pending disk =>
      .of_same (fun p hp => by cases p <;> first | exact absurd (by decide) hp | rfl) rfl rfl
  refine registerTransport_elim ?refuses ?enters ?wipes
  case refuses => exact fun _ disk _ _ => (s.withDisk_within disk).mono (by decide)
  case enters => exact fun disk _ _ => hentered false disk
  case wipes =>
    exact fun disk _ _ => (hentered true disk).next (postDelayed_within _ .wipes rfl _) (by decide)

/-- What is known of a transport is forgotten, but its files stay. -/
theorem unregisterTransport_within (s : System) (name : String) :
    s.Within [.directory, .marks] (s.unregisterTransport name).2 := by
  by_cases hknown : s.engine.transports.isRegistered name = true
  · simp only [unregisterTransport, TransportRegistry.unregister, if_pos hknown]
    exact .of_same (fun p hp => by cases p <;> first | exact absurd (by decide) hp | rfl) rfl rfl
  · simp only [unregisterTransport, TransportRegistry.unregister, if_neg hknown]
    exact .refl s

/-- A selection changes what is selected before it asks the transport for its dataset. -/
theorem beginSelect_within (s : System) (name : String) :
    s.Within [.selected, .leases, .notices .transports] (s.beginSelect name).2 := by
  have hselected : s.Within [.selected, .leases, .notices .transports] (s.onEngine fun e =>
      { e with transports := e.transports.select name }) :=
    .of_same (fun p hp => by cases p <;> first | exact absurd (by decide) hp | rfl) rfl rfl
  refine beginSelect_elim ?refuses ?unknown ?asks
  case refuses => exact .refl s
  case unknown => exact hselected
  case asks =>
    exact (hselected.next (lend_within _ _ _) (by decide)).next
      (note_within _ .transports rfl) (by decide)

/-- The lease of a selection comes back, and the dataset is stored. -/
theorem endSelect_within (s : System) (lease : Option Lease) :
    s.Within [.leases, .disk, .current] (s.endSelect lease) :=
  (s.dispose_within lease).andThen (setCurrentDataset_within _ _)

/-- Every transport is marked, each in its own folder. -/
theorem markAll_within (s : System) (names : List String) :
    s.Within [.disk, .marks] (s.markAll names) := by
  refine foldl_within (fun s name => ?_) names s
  split
  · exact s.setInitPending_within _ _ _
  · exact .refl s

/-! ## The start -/

/-- What the engine does on its own when it starts. -/
theorem wakeUp_within (s : System) (scheduleChanged : Bool) :
    s.Within ([.writeRequested, .mail .chores] ++ arming ++ [.notices .fullJob])
      (s.wakeUp scheduleChanged) := by
  refine wakeUp_elim (.refl s) ?writes ?armsKeyValue ?armsFull
  case writes => exact fun s' h => h.next s'.requestScheduleWrite_within (by decide)
  case armsKeyValue => exact fun s' h => h.next s'.scheduleKeyValueJob_within (by decide)
  case armsFull => exact fun s' h => h.next (s'.scheduleNextFullJob_within 0) (by decide)

/-! ## Switches and packages -/

/-- Whatever a switch changes is part of the policy. -/
theorem onPolicy_within (s : System) (f : Policy → Policy) : s.Within [.policy] (s.onPolicy f) :=
  .of_same (fun p hp => by cases p <;> first | exact absurd (by decide) hp | rfl) rfl rfl

/-- Both jobs are armed. -/
theorem armJobs_within (s : System) :
    s.Within (arming ++ [.notices .fullJob]) (s.scheduleKeyValueJob.scheduleNextFullJob 0) :=
  s.scheduleKeyValueJob_within.andThen (scheduleNextFullJob_within _ 0)

/-- Switched on, both jobs are armed. Switched off, the job of passes is called off and every
transport is marked; the wipe is a timer away. -/
theorem setEnabled_within (s : System) (on : Bool) :
    s.Within (.policy :: marking ++ arming ++ [.notices .fullJob]) (s.setEnabled on).2 := by
  have hset : s.Within (.policy :: marking ++ arming ++ [.notices .fullJob]) (s.switched on) :=
    .of_same (fun p hp => by cases p <;> first | exact absurd (by decide) hp | rfl) rfl rfl
  refine setEnabled_elim ?refuses ?keeps ?allows ?forbids
  case refuses => exact .refl s
  case keeps => exact fun _ => hset
  case allows => exact fun _ _ => hset.next (armJobs_within _) (by decide)
  case forbids =>
    intro _ _ delay
    exact ((hset.next (note_within _ .keyValueJob rfl) (by decide)).next
      (markAll_within _ _) (by decide)).next (postDelayed_within _ .wipes rfl delay) (by decide)

/-- A device that is set up arms both jobs if backup is on. -/
theorem setProvisioned_within (s : System) (on : Bool) :
    s.Within (.policy :: arming ++ [.notices .fullJob]) (s.setProvisioned on) := by
  have hset := (s.onPolicy_within fun p => { p with provisioned := on }).mono
    (show ∀ p ∈ [Part.policy], p ∈ Part.policy :: arming ++ [.notices .fullJob] by decide)
  unfold setProvisioned
  simp only
  split
  · exact hset.next (armJobs_within _) (by decide)
  · exact hset

/-- A package that takes part is announced. One that gets full backups enters the schedule, and any
other leaves it. -/
theorem packageAdded_within (s : System) (package : String) (replacing : Bool) :
    s.Within (rescheduling ++ [.participants, .mail .packages, .notices .fullJob])
      (s.packageAdded package replacing) := by
  refine packageAdded_elim ?start ?joins ?announces ?enqueues ?dequeues
  case start => exact .refl s
  case joins =>
    exact fun _ =>
      .of_same (fun p hp => by cases p <;> first | exact absurd (by decide) hp | rfl) rfl rfl
  case announces =>
    exact fun s' _ _ h => h.next (s'.post_within .packages rfl) (by decide)
  case enqueues =>
    exact fun s' h => (h.next (s'.enqueueFull_within _ _) (by decide)).next
      (scheduleNextFullJob_within _ 0) (by decide)
  case dequeues => exact fun s' h => h.next (s'.reschedule_within _) (by decide)

/-- What is known of a package is forgotten, and transports that it hosts are unregistered. -/
theorem packageRemoved_within (s : System) (package : String) (replacing : Bool) :
    s.Within [.participants, .pending, .mail .packages, .directory, .marks]
      (s.packageRemoved package replacing) := by
  refine packageRemoved_elim ?start ?leaves ?drops
  case start => exact .refl s
  case leaves =>
    intro participants pending
    have hleft : s.Within [.participants, .pending, .mail .packages, .directory, .marks]
        (s.onEngine fun e => { e with participants, pending }) :=
      .of_same (fun p hp => by cases p <;> first | exact absurd (by decide) hp | rfl) rfl rfl
    exact hleft.next (post_within _ .packages rfl) (by decide)
  case drops => exact fun s' name h => h.next (s'.unregisterTransport_within name) (by decide)

/-- A package that changed is treated as one that was added again. -/
theorem packageChanged_within (s : System) (package : String) :
    s.Within (rescheduling ++ [.participants, .mail .packages, .notices .fullJob])
      (s.packageChanged package) := by
  unfold packageChanged
  split
  · exact s.packageAdded_within package true
  · exact .refl s

/-! ## Agents -/

/-- An agent reports what came of its work. -/
theorem complete_within (s : System) (token : OpToken) (result : Int) :
    s.Within [.operations] (s.complete token result) :=
  s.withOps_within (s.engine.ops.act_clock (.complete token result))

/-- Only the agent that is waited for can come up. -/
theorem agentConnected_within (s : System) (caller : Caller) (package : String) :
    s.Within [.arrival] (s.agentConnected caller package).2 := by
  unfold agentConnected
  split
  · by_cases hawaited : s.engine.binder.awaited = some package
    · simp only [onEngine, Binder.connected, if_pos hawaited]
      exact s.withArrival_within _ _
    · simp only [onEngine, Binder.connected, if_neg hawaited]
      exact .refl s
  · exact .refl s

/-- Only the agent that is waited for can go away. -/
theorem agentDisconnected_within (s : System) (caller : Caller) (package : String) :
    s.Within [.arrival] (s.agentDisconnected caller package).2 := by
  unfold agentDisconnected
  split
  · by_cases hawaited : s.engine.binder.awaited = some package
    · simp only [onEngine, Binder.disconnected, if_pos hawaited]
      exact s.withArrival_within _ _
    · simp only [onEngine, Binder.disconnected, if_neg hawaited]
      exact .refl s
  · exact .refl s

/-! ## Sessions -/

/-- A session opens under a fresh number and gets its timer. -/
theorem beginSession_within (s : System) (caller : Caller) (package transport : Option String) :
    s.Within timing (s.beginSession caller package transport).2 := by
  refine beginSession_elim ?refuses ?opens
  case refuses => exact fun _ _ => .refl s
  case opens =>
    intro _ _ _ _ _ _ _
    have hopened : s.Within timing (s.freshNumber.2.onEngine fun e =>
        { e with session := some ⟨s.engine.nextNumber, none⟩ }) :=
      (s.freshNumber_within.andThen (withSession_within _ _)).mono (by decide)
    exact hopened.trans (armSession_within _ _)

/-- A question for datasets borrows the transport until it is answered. -/
theorem beginSets_within (s : System) (session : Session) :
    s.Within [.leases, .notices .transports] (s.beginSets session).2 := by
  refine beginSets_elim ?refuses ?asks
  case refuses => exact fun _ => .refl s
  case asks => exact (s.lend_within _ _).andThen (note_within _ .transports rfl)

/-- The lease comes back, and the session gets a new timer. -/
theorem endSets_within (s : System) (session : Session) (lease : Lease) :
    s.Within (.leases :: timing) (s.endSets session lease).2 := by
  rw [endSets_snd]
  exact (s.dispose_within _).andThen (armSession_within _ _)

/-- A restore borrows the transport and is sent to the loop. -/
theorem submit_within (s : System) (session : Session) (token : UInt64) (packages : List String)
    (recordAncestral : Bool) :
    s.Within [.leases, .mail .restores] (s.submit session token packages recordAncestral).2 := by
  refine submit_elim ?refuses ?posts
  case refuses => exact .refl s
  case posts => exact (s.lend_within _ _).andThen (post_within _ .restores rfl)

/-- A restore of one package is refused, or submitted with the dataset that holds it. -/
theorem restorePackage_within (s : System) (session : Session) (package : String) :
    s.Within [.leases, .mail .restores] (s.restorePackage session package).2 := by
  refine restorePackage_elim ?refuses ?submits
  case refuses => exact fun _ _ => .refl s
  case submits => exact fun _ => s.submit_within _ _ _ _

/-- A restore of several packages is refused, or submitted. -/
theorem restoreAll_within (s : System) (session : Session) (token : UInt64)
    (packages : List String) :
    s.Within [.leases, .mail .restores] (s.restoreAll session token packages).2 := by
  refine restoreAll_elim ?refuses ?submits
  case refuses => exact fun _ _ => .refl s
  case submits => exact fun _ => s.submit_within _ _ _ _

/-- The installer is told at once that nothing will be restored, or a restore is sent to the loop.
-/
theorem restoreAtInstall_within (s : System) (caller : Caller) (package : String)
    (installToken : Int) :
    s.Within [.leases, .notices .installer, .mail .restores]
      (s.restoreAtInstall caller package installToken).2 := by
  refine restoreAtInstall_elim ?refuses ?skips ?posts ?strands
  case refuses => exact fun _ => .refl s
  case skips => exact fun _ => (s.note_within .installer rfl).mono (by decide)
  case posts =>
    exact fun _ _ _ => ((s.lend_within _ _).andThen (post_within _ .restores rfl)).mono
      (by decide)
  case strands =>
    exact fun _ _ => ((s.lend_within _ _).andThen
      (note_within _ .installer rfl)).mono (by decide)

end System

end Holdfast
