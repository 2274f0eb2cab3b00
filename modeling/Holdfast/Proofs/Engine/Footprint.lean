import Holdfast.Proofs.Engine.Outcomes
import Holdfast.Proofs.Operation.Deadline
import Mathlib.Data.List.Basic

/-!
# What the operations of the engine change

The state of the engine falls into parts. A footprint is a list of parts, and an operation keeps
within a footprint when it changes no other part. The footprints are found here, once for each
function of the engine. What an extract of the state has to say of an operation that does not change
it then follows from comparing two lists: the footprint of the operation, and the parts that the
extract is read from.

- `Part` and `Part.of`: a part of the state and what is in it;
- `System.Within`: an operation keeps within a footprint;
- one footprint for each operation (`System.dispose_within`, `System.markForInit_within`,
  `System.endKeyValue_within`, …), up to the steps of tasks that are not answers of transports
  (`Footprint.working`).
-/

namespace Holdfast

/-- Drawing a number uses up a random draw at most. -/
theorem Device.draw_uses (d : Device) (bound : Nat) :
    ∃ chance, (d.draw bound).2 = { d with chance } := by
  unfold Device.draw
  split <;> exact ⟨_, rfl⟩

/-- Drawing a word uses up a random word at most. -/
theorem Device.drawWord_eq (d : Device) (other : UInt32) :
    ∃ words, (d.drawWord other).2 = { d with words } := by
  unfold Device.drawWord
  split <;> exact ⟨_, rfl⟩

/-- What is read from the items of one sort is the same where these are. -/
theorem filterMap_eq_of_sort {α β κ : Type} [DecidableEq κ] {sort : α → κ} {k : κ} {l l' : List α}
    (h : l'.filter (sort · = k) = l.filter (sort · = k)) {f : α → Option β}
    (hf : ∀ a, sort a ≠ k → f a = none) : l'.filterMap f = l.filterMap f := by
  have hread : ∀ l : List α, (l.filter (sort · = k)).filterMap f = l.filterMap f := by
    intro l
    rw [List.filterMap_filter]
    refine List.filterMap_congr fun a _ => ?_
    by_cases heq : sort a = k
    · rw [if_pos (decide_eq_true heq)]
    · rw [if_neg (by simpa using heq), hf a heq]
  rw [← hread l', h, hread]

/-- Sorts of notices, by who gets them. -/
inductive Device.Notice.Sort where
  | agents | transports | keyValueJob | fullJob | observers | installer
  deriving DecidableEq

/-- The sort of a notice. -/
def Device.Notice.sort : Notice → Notice.Sort
  | .agent _ _ | .clearPending => .agents
  | .transport _ _ => .transports
  | .keyValueJob _ | .keyValueJobCanceled => .keyValueJob
  | .fullJob _ => .fullJob
  | .result _ _ _ | .finished _ _ => .observers
  | .installed _ _ => .installer

/-- Sorts of commands, by what they are about. -/
inductive Command.Sort where
  | passes | chores | wipes | restores | packages | loop
  deriving DecidableEq

/-- The sort of a command. -/
def Command.sort : Command → Command.Sort
  | .requestBackup _ | .passFinished => .passes
  | .runKeyValue | .writeSchedule => .chores
  | .wipe _ _ => .wipes
  | .startRestore _ | .restoreFinished _ | .sessionTimeout _ => .restores
  | .dataChanged _ _ | .clearData _ _ => .packages
  | .snapshot | .shutdown => .loop

/-- Sorts of timers, by what they are about. -/
inductive TimerAction.Sort where
  | binds | chores | wipes | packages | others
  deriving DecidableEq

/-- The sort of a timer that will post a command. -/
def Command.Sort.timer : Command.Sort → TimerAction.Sort
  | .chores => .chores
  | .wipes => .wipes
  | .packages => .packages
  | .passes | .restores | .loop => .others

/-- The sort of a timer. -/
def TimerAction.sort : TimerAction → TimerAction.Sort
  | .post command => command.sort.timer
  | .expireBind _ => .binds

/-- A part of the state. -/
inductive Part where
  | disk
  /-- What the transports have still to answer. -/
  | scripts
  | chance
  | words
  | wake
  /-- The notices of one sort. -/
  | notices (sort : Device.Notice.Sort)
  | policy
  | operations
  /-- The clock of the operations. -/
  | clock
  | tokens
  /-- The registered transports. -/
  | directory
  | selected
  | marks
  | leases
  | pending
  | schedule
  | runningFull
  | participants
  /-- The dataset that is being written. -/
  | current
  /-- The dataset from which the device was restored. -/
  | ancestral
  | processed
  | session
  | restoring
  | waitingRestores
  /-- The line of binds. -/
  | line
  /-- What came of the bind whose turn it is. -/
  | arrival
  | passes
  | waitingRequests
  | writeRequested
  /-- The queued commands of one sort. -/
  | mail (sort : Command.Sort)
  | looping
  | tasks
  /-- The timers of one sort. -/
  | timers (sort : TimerAction.Sort)
  | numbers
  | handed
  /-- What the engine has no say in: its settings, the places of its files, the clock on the wall
  and what is installed. -/
  | givens
  deriving DecidableEq

namespace Part

/-- What there is to a part. -/
def Content : Part → Type
  | .disk => Disk
  | .scripts => List (String × Device.Station)
  | .chance => List Nat
  | .words => List UInt32
  | .wake => Nat × Nat
  | .notices _ => List Device.Notice
  | .policy => Policy
  | .operations => OperationTable Watcher
  | .clock => Nat
  | .tokens => TokenSource
  | .directory => List (String × TransportDescription)
  | .selected => Option String
  | .marks => NameSet
  | .leases => List Lease × Nat
  | .pending => Pending
  | .schedule => Schedule
  | .runningFull => Option (OpToken × String)
  | .participants => List (Nat × NameSet)
  | .current => UInt64
  | .ancestral => UInt64 × Option NameSet
  | .processed => NameSet
  | .session => Option OpenSession
  | .restoring => Bool
  | .waitingRestores => List RestoreOrder
  | .line => List Nat × Nat
  | .arrival => Option String × Option (Arrival Unit)
  | .passes => Nat
  | .waitingRequests => List BackupOrder
  | .writeRequested => Bool
  | .mail _ => List Command
  | .looping => Bool
  | .tasks => List Task
  | .timers _ => List Timer
  | .numbers => Nat
  | .handed => List (String × OpToken)
  | .givens => Settings × String × Path × List Package × List Nat ×
      List (String × Device.Behaviour) × Int

/-- What is in a part. -/
def of : (p : Part) → System → p.Content
  | .disk, s => s.disk
  | .scripts, s => s.device.stations
  | .chance, s => s.device.chance
  | .words, s => s.device.words
  | .wake, s => (s.device.wakeAcquired, s.device.wakeReleased)
  | .notices sort, s => s.device.log.filter (·.sort = sort)
  | .policy, s => s.engine.policy
  | .operations, s => { s.engine.ops with clock := 0 }
  | .clock, s => s.engine.ops.clock
  | .tokens, s => s.engine.tokens
  | .directory, s => s.engine.transports.transports
  | .selected, s => s.engine.transports.selected
  | .marks, s => s.engine.transports.pendingInits
  | .leases, s => (s.engine.transports.leases, s.engine.transports.nextLease)
  | .pending, s => s.engine.pending
  | .schedule, s => s.engine.schedule
  | .runningFull, s => s.engine.runningFull
  | .participants, s => s.engine.participants
  | .current, s => s.engine.datasets.current
  | .ancestral, s => (s.engine.datasets.ancestral, s.engine.datasets.packages)
  | .processed, s => s.engine.processed.packages
  | .session, s => s.engine.session
  | .restoring, s => s.engine.restoring
  | .waitingRestores, s => s.engine.waitingRestores
  | .line, s => (s.engine.binder.line, s.engine.binder.nextTicket)
  | .arrival, s => (s.engine.binder.awaited, s.engine.binder.arrival)
  | .passes, s => s.engine.runningPasses
  | .waitingRequests, s => s.engine.waitingRequests
  | .writeRequested, s => s.engine.writeRequested
  | .mail sort, s => s.engine.inbox.filter (·.sort = sort)
  | .looping, s => s.engine.looping
  | .tasks, s => s.engine.tasks
  | .timers sort, s => s.engine.timers.filter (·.action.sort = sort)
  | .numbers, s => s.engine.nextNumber
  | .handed, s => s.engine.handed
  | .givens, s => (s.engine.settings, s.engine.transports.root, s.engine.processed.path,
      s.device.catalog, s.device.foreground, s.device.behaviours, s.device.now)

end Part

/-- Some parts of the state. -/
abbrev Footprint := List Part

namespace Footprint

/-- The timers of every sort. -/
def alarms : Footprint :=
  [.timers .binds, .timers .chores, .timers .wipes, .timers .packages, .timers .others]

/-- A transport is marked and will be wiped. -/
def marking : Footprint := [.disk, .marks, .numbers, .timers .wipes]

/-- A schedule is changed and will be written. -/
def rescheduling : Footprint := [.schedule, .writeRequested, .mail .chores]

/-- The job of passes is armed. -/
def arming : Footprint := [.chance, .notices .keyValueJob]

/-- A pass is done with a package, or ends. -/
def winding : Footprint :=
  marking ++ rescheduling ++
    [.notices .observers, .pending, .mail .passes, .chance, .leases, .tasks]

/-- A pass that has announced its end gives the rest back. -/
def closing : Footprint :=
  arming ++ [.notices .observers, .operations, .wake, .leases, .runningFull, .tasks]

/-- The steps of tasks that are not answers of transports. -/
def working : Footprint :=
  winding ++
    [.wake, .line, .arrival, .timers .binds, .notices .agents, .notices .transports, .words,
      .tokens, .operations, .handed, .runningFull, .notices .keyValueJob, .notices .fullJob]

/-- The commands of every sort. -/
def letters : Footprint :=
  [.mail .passes, .mail .chores, .mail .wipes, .mail .restores, .mail .packages, .mail .loop]

/-- A command of any sort is among the letters. -/
theorem mem_letters (sort : Command.Sort) : .mail sort ∈ letters := by
  cases sort <;> decide

/-- A timer of any sort is among the alarms. -/
theorem mem_alarms (sort : TimerAction.Sort) : .timers sort ∈ alarms := by
  cases sort <;> decide

end Footprint

namespace System

variable {s s' s'' : System} {parts parts' : Footprint} {t : Task}

/-- Nothing outside a footprint has changed. Inside it the queue of commands has only been added to,
and numbers have only been handed out. -/
structure Within (s : System) (parts : Footprint) (s' : System) : Prop where
  same : ∀ p, p ∉ parts → p.of s' = p.of s
  inbox : s.engine.inbox <+: s'.engine.inbox
  numbers : s.engine.nextNumber ≤ s'.engine.nextNumber

namespace Within

/-- A change apart from commands and numbers. -/
theorem of_same (hsame : ∀ p, p ∉ parts → p.of s' = p.of s)
    (hinbox : s'.engine.inbox = s.engine.inbox)
    (hnumbers : s'.engine.nextNumber = s.engine.nextNumber) : s.Within parts s' :=
  ⟨hsame, hinbox ▸ List.prefix_rfl, Nat.le_of_eq hnumbers.symm⟩

theorem refl (s : System) : s.Within parts s := .of_same (fun _ _ => rfl) rfl rfl

theorem trans (h : s.Within parts s') (h' : s'.Within parts s'') : s.Within parts s'' where
  same p hp := (h'.same p hp).trans (h.same p hp)
  inbox := h.inbox.trans h'.inbox
  numbers := Nat.le_trans h.numbers h'.numbers

/-- A larger footprint. -/
theorem mono (h : s.Within parts s') (hsub : ∀ p ∈ parts, p ∈ parts') : s.Within parts' s' :=
  ⟨fun p hp => h.same p fun hmem => hp (hsub p hmem), h.inbox, h.numbers⟩

/-- An operation of a smaller footprint after another. -/
theorem next (h : s.Within parts s') (h' : s'.Within parts' s'')
    (hsub : ∀ p ∈ parts', p ∈ parts) : s.Within parts s'' :=
  h.trans (h'.mono hsub)

/-- One operation after another. -/
theorem andThen (h : s.Within parts s') (h' : s'.Within parts' s'') :
    s.Within (parts ++ parts') s'' :=
  (h.mono fun _ => List.mem_append_left _).trans (h'.mono fun _ => List.mem_append_right _)

/-- What is read from notices of one sort. -/
theorem log_filterMap {α : Type} (h : s.Within parts s') {sort : Device.Notice.Sort}
    (hsort : .notices sort ∉ parts) {f : Device.Notice → Option α}
    (hf : ∀ notice, notice.sort ≠ sort → f notice = none) :
    s'.device.log.filterMap f = s.device.log.filterMap f :=
  filterMap_eq_of_sort (h.same (.notices sort) hsort) hf

/-- What is read from timers of one sort. -/
theorem timers_filterMap {α : Type} (h : s.Within parts s') {sort : TimerAction.Sort}
    (hsort : .timers sort ∉ parts) {f : Timer → Option α}
    (hf : ∀ timer, timer.action.sort ≠ sort → f timer = none) :
    s'.engine.timers.filterMap f = s.engine.timers.filterMap f :=
  filterMap_eq_of_sort (h.same (.timers sort) hsort) hf

/-- Commands of the sorts that a footprint leaves out are not added to the queue. -/
theorem inbox_filterMap {α : Type} (h : s.Within parts s') {f : Command → Option α}
    (hf : ∀ command, .mail command.sort ∈ parts → f command = none) :
    s'.engine.inbox.filterMap f = s.engine.inbox.filterMap f := by
  obtain ⟨added, hadded⟩ := h.inbox
  have hnone : ∀ command ∈ added, f command = none := by
    intro command hmem
    by_cases hmail : .mail command.sort ∈ parts
    · exact hf command hmail
    · have hsame : s'.engine.inbox.filter (·.sort = command.sort) =
          s.engine.inbox.filter (·.sort = command.sort) := h.same (.mail command.sort) hmail
      rw [← hadded, List.filter_append] at hsame
      exact absurd (decide_eq_true rfl)
        (List.filter_eq_nil_iff.1 (List.append_right_eq_self.1 hsame) command hmem)
  rw [← hadded, List.filterMap_append, List.filterMap_eq_nil_iff.2 hnone, List.append_nil]

end Within

/-! ## Small changes -/

/-- A notice joins those of its sort. -/
theorem note_within (s : System) {notice : Device.Notice} (sort : Device.Notice.Sort)
    (h : notice.sort = sort) : s.Within [.notices sort] (s.note notice) := by
  refine .of_same (fun p hp => ?_) rfl rfl
  cases p with
  | notices other =>
    have hother : notice.sort ≠ other := fun heq => hp (h ▸ heq ▸ List.mem_singleton_self _)
    show (notice :: s.device.log).filter (·.sort = other) = s.device.log.filter (·.sort = other)
    simp [hother]
  | _ => rfl

/-- What became of a package is told to an observer, if there is one. -/
theorem tellResult_within (s : System) (observer : Option String) (package : String)
    (status : Status) :
    s.Within [.notices .observers] (s.tellResult observer package status) := by
  cases observer with
  | none => exact .refl s
  | some id => exact s.note_within .observers rfl

/-- The end of a pass is told to an observer, if there is one. -/
theorem tellFinished_within (s : System) (observer : Option String) (status : Status) :
    s.Within [.notices .observers] (s.tellFinished observer status) := by
  cases observer with
  | none => exact .refl s
  | some id => exact s.note_within .observers rfl

theorem acquireWake_within (s : System) : s.Within [.wake] s.acquireWake :=
  .of_same (fun p hp => by cases p <;> first | exact absurd (by decide) hp | rfl) rfl rfl

theorem releaseWake_within (s : System) : s.Within [.wake] s.releaseWake :=
  .of_same (fun p hp => by cases p <;> first | exact absurd (by decide) hp | rfl) rfl rfl

/-- A number that is handed out is behind all the others from then on. -/
theorem freshNumber_within (s : System) : s.Within [.numbers] s.freshNumber.2 where
  same p hp := by cases p <;> first | exact absurd (by decide) hp | rfl
  inbox := List.prefix_rfl
  numbers := Nat.le_succ _

/-- A token uses up a random word of the device. -/
theorem freshToken_within (s : System) : s.Within [.words, .tokens] s.freshToken.2 := by
  obtain ⟨words, hdrawn⟩ := s.device.drawWord_eq s.engine.tokens.counter
  show s.Within _ ({ s with device := (s.device.drawWord s.engine.tokens.counter).2 }.onEngine
    fun e => { e with tokens := (s.engine.tokens.next
      (s.device.drawWord s.engine.tokens.counter).1).2 })
  rw [hdrawn]
  exact .of_same (fun p hp => by cases p <;> first | exact absurd (by decide) hp | rfl) rfl rfl

/-- A command is queued behind the others, or lost. -/
theorem post_within (s : System) {command : Command} (sort : Command.Sort)
    (h : command.sort = sort) : s.Within [.mail sort] (s.post command) := by
  unfold post
  split
  · refine ⟨fun p hp => ?_, List.prefix_append _ _, Nat.le_refl _⟩
    cases p with
    | mail other =>
      have hother : command.sort ≠ other := fun heq => hp (h ▸ heq ▸ List.mem_singleton_self _)
      show (s.engine.inbox ++ [command]).filter (·.sort = other) =
        s.engine.inbox.filter (·.sort = other)
      simp [hother]
    | _ => rfl
  · exact .refl s

/-- A call that sends a command queues it, or finds the loop stopped. -/
theorem send_within (s : System) {command : Command} (sort : Command.Sort)
    (h : command.sort = sort) : s.Within [.mail sort] (s.send command).2 := by
  rw [send_snd]
  exact s.post_within sort h

/-- A timer is set under a number of its own, among those of its sort. -/
theorem setTimer_within (s : System) {action : TimerAction} (sort : TimerAction.Sort)
    (h : action.sort = sort) (delay : Nat) :
    s.Within [.numbers, .timers sort] (s.setTimer action delay).2 := by
  refine ⟨fun p hp => ?_, List.prefix_rfl, Nat.le_succ _⟩
  cases p with
  | numbers => exact absurd List.mem_cons_self hp
  | timers other =>
    have hother : action.sort ≠ other :=
      fun heq => hp (h ▸ heq ▸ List.mem_cons_of_mem _ (List.mem_singleton_self _))
    show (s.engine.timers ++ [_]).filter (·.action.sort = other) =
      s.engine.timers.filter (·.action.sort = other)
    simp [hother]
  | _ => rfl

/-- A command that is posted later is a timer until then. -/
theorem postDelayed_within (s : System) {command : Command} (sort : TimerAction.Sort)
    (h : command.sort.timer = sort) (delay : Nat) :
    s.Within [.numbers, .timers sort] (s.postDelayed command delay).2 :=
  @setTimer_within s (.post command) sort h delay

/-- A timer that is stopped can be of any sort. -/
theorem stopTimer_within (s : System) (number : Nat) : s.Within .alarms (s.stopTimer number) := by
  refine .of_same (fun p hp => ?_) rfl rfl
  cases p with
  | timers sort => exact absurd (Footprint.mem_alarms sort) hp
  | _ => rfl

theorem withLeases_within (s : System) (leases : List Lease) (nextLease : Nat) :
    s.Within [.leases] (s.onEngine fun e =>
      { e with transports := { e.transports with leases, nextLease } }) :=
  .of_same (fun p hp => by cases p <;> first | exact absurd (by decide) hp | rfl) rfl rfl

/-- A task gives back its lease, if it holds one. -/
theorem dispose_within (s : System) (lease : Option Lease) :
    s.Within [.leases] (s.dispose lease) := by
  cases lease with
  | none => exact .refl s
  | some lease => exact s.withLeases_within _ _

theorem lend_within (s : System) (name caller : String) : s.Within [.leases] (s.lend name caller) :=
  s.withLeases_within _ _

/-- Another table of operations at the same time. -/
theorem withOps_within (s : System) {ops : OperationTable Watcher}
    (h : ops.clock = s.engine.ops.clock) :
    s.Within [.operations] (s.onEngine fun e => { e with ops }) := by
  refine .of_same (fun p hp => ?_) rfl rfl
  cases p <;> first | exact absurd (by decide) hp | rfl | exact h

/-- The operation of a task is struck off, and that takes no time. -/
theorem dropToken_within (s : System) (t : Task) : s.Within [.operations] (s.dropToken t) := by
  unfold dropToken
  split
  · exact s.withOps_within (s.engine.ops.act_clock (.remove _))
  · exact .refl s

theorem withTasks_within (s : System) (tasks : List Task) :
    s.Within [.tasks] (s.onEngine fun e => { e with tasks }) :=
  .of_same (fun p hp => by cases p <;> first | exact absurd (by decide) hp | rfl) rfl rfl

theorem spawn_within (s : System) (t : Task) : s.Within [.tasks] (s.spawn t) :=
  s.withTasks_within _

theorem setTask_within (s : System) (t : Task) : s.Within [.tasks] (s.setTask t) :=
  s.withTasks_within _

theorem dropTask_within (s : System) (number : Nat) : s.Within [.tasks] (s.dropTask number) :=
  s.withTasks_within _

/-- A task that moves on to another stage is all that changes. -/
theorem moveTo_within (s : System) (t : Task) (stage : Stage) :
    s.Within [.tasks] (s.moveTo t stage) :=
  s.setTask_within _

/-- A call is noted by the transport, and the task waits for the answer. -/
theorem call_within (s : System) (t : Task) (call : TransportCall) :
    s.Within [.notices .transports, .tasks] (s.call t call) :=
  (s.note_within .transports rfl).andThen (moveTo_within _ _ _)

/-- A task that is canceled takes the operation of its agent with it. -/
theorem cancelOperation_within (s : System) (token : OpToken) :
    s.Within [.operations, .tasks] (s.cancelOperation token) := by
  have hcancel : ∀ (s : System) (token : OpToken), s.Within [.operations, .tasks]
      (s.onEngine fun e => { e with ops := (e.ops.cancel token).2 }) :=
    fun s token => (s.withOps_within (s.engine.ops.cancel_clock token)).mono (by decide)
  unfold cancelOperation
  simp only
  split
  · split
    -- the wait for the agent of the task is canceled with it
    · rename_i task _
      have hset := (hcancel s token).next
        (setTask_within _ { task with canceled := true, agentToken := none }) (by decide)
      split
      · exact hset.trans (hcancel _ _)
      · exact hset
    · exact hcancel s token
  · exact hcancel s token
  · exact hcancel s token

/-- One operation for each item of a list. -/
theorem foldl_within {α : Type} {f : System → α → System}
    (h : ∀ (s : System) a, s.Within parts (f s a)) (items : List α) (s : System) :
    s.Within parts (items.foldl f s) := by
  induction items generalizing s with
  | nil => exact .refl s
  | cons item items ih => exact (h s item).trans (ih (f s item))

/-! ## Upkeep -/

/-- A draw uses up one of the numbers that the device has to offer. -/
theorem draw_within (s : System) (bound : Nat) : s.Within [.chance] (s.draw bound).2 := by
  obtain ⟨chance, hdrawn⟩ := s.device.draw_uses bound
  show s.Within _ { s with device := (s.device.draw bound).2 }
  rw [hdrawn]
  exact .of_same (fun p hp => by cases p <;> first | exact absurd (by decide) hp | rfl) rfl rfl

/-- The job of passes is armed with a delay that is drawn. -/
theorem scheduleKeyValueJob_within (s : System) : s.Within .arming s.scheduleKeyValueJob :=
  (s.draw_within _).andThen (note_within _ .keyValueJob rfl)

/-- The job of full backups is armed for the head of the schedule, if there is one and its time is
in range. -/
theorem scheduleNextFullJob_within (s : System) (latency : Nat) :
    s.Within [.notices .fullJob] (s.scheduleNextFullJob latency) := by
  rcases s.scheduleNextFullJob_cases latency with hsame | ⟨delay, hnoted⟩
  · rw [hsame]
    exact .refl s
  · rw [hnoted]
    exact s.note_within .fullJob rfl

/-- The file of the schedule is asked for once, until it is written. -/
theorem requestScheduleWrite_within (s : System) :
    s.Within [.writeRequested, .mail .chores] s.requestScheduleWrite := by
  have hrequested : s.Within [.writeRequested]
      (s.onEngine fun e => { e with writeRequested := true }) :=
    .of_same (fun p hp => by cases p <;> first | exact absurd (by decide) hp | rfl) rfl rfl
  unfold requestScheduleWrite
  split
  · exact .refl s
  · exact hrequested.andThen (post_within _ .chores rfl)

/-- Another schedule, which is to be written. -/
theorem reschedule_within (s : System) (schedule : Schedule) :
    s.Within .rescheduling (s.onEngine fun e => { e with schedule }).requestScheduleWrite := by
  have hchanged : s.Within [.schedule] (s.onEngine fun e => { e with schedule }) :=
    .of_same (fun p hp => by cases p <;> first | exact absurd (by decide) hp | rfl) rfl rfl
  exact hchanged.andThen (requestScheduleWrite_within _)

/-- A package goes to its place in the schedule. -/
theorem enqueueFull_within (s : System) (package : String) (lastBackup : Int) :
    s.Within .rescheduling (s.enqueueFull package lastBackup) :=
  s.reschedule_within _

/-- A package that could not be backed up goes to a later place in the schedule. -/
theorem deferFull_within (s : System) (package : String) (lastBackup dueAt : Int) :
    s.Within .rescheduling (s.deferFull package lastBackup dueAt) :=
  s.reschedule_within _

/-- The file is at the same place. -/
theorem recordProcessed_within (s : System) (package : String) :
    s.Within [.disk, .processed] (s.recordProcessed package) := by
  obtain ⟨packages, hpackages⟩ : ∃ packages, (s.engine.processed.add package s.disk).2.1 =
      { s.engine.processed with packages } := by
    unfold Processed.add
    split <;> exact ⟨_, rfl⟩
  show s.Within _ ({ s with disk := (s.engine.processed.add package s.disk).2.2 }.onEngine fun e =>
    { e with processed := (s.engine.processed.add package s.disk).2.1 })
  rw [hpackages]
  exact .of_same (fun p hp => by cases p <;> first | exact absurd (by decide) hp | rfl) rfl rfl

theorem setCurrentDataset_within (s : System) (token : UInt64) :
    s.Within [.disk, .current] (s.setCurrentDataset token).2 :=
  .of_same (fun p hp => by cases p <;> first | exact absurd (by decide) hp | rfl) rfl rfl

/-- The mark on disk and the one in memory are set or taken away together. -/
theorem setInitPending_within (s : System) (pending : Bool) (name folderName : String) :
    s.Within [.disk, .marks] (s.setInitPending pending name folderName) := by
  obtain ⟨pendingInits, disk, hset⟩ : ∃ pendingInits disk,
      s.setInitPending pending name folderName = { s with disk }.onEngine fun e =>
        { e with transports := { e.transports with pendingInits } } := by
    unfold setInitPending TransportRegistry.setInitPending
    cases pending <;> exact ⟨_, _, rfl⟩
  rw [hset]
  exact .of_same (fun p hp => by cases p <;> first | exact absurd (by decide) hp | rfl) rfl rfl

theorem retryInit_within (s : System) (transport : String) :
    s.Within [.numbers, .timers .wipes] (s.retryInit transport) :=
  s.postDelayed_within .wipes rfl _

/-- A transport is marked, unless nobody knows its folder, and the wipe is tried again later. -/
theorem markForInit_within (s : System) (transport : String) :
    s.Within .marking (s.markForInit transport) := by
  unfold markForInit
  split
  · exact .refl s
  · exact (s.setInitPending_within _ _ _).andThen (retryInit_within _ _)

/-- A task that was told so by its transport marks it. -/
theorem heedInit_within (s : System) (t : Task) : s.Within .marking (s.heedInit t) := by
  unfold heedInit
  split
  · exact s.markForInit_within _
  · exact .refl s

theorem withDisk_within (s : System) (disk : Disk) : s.Within [.disk] { s with disk } :=
  .of_same (fun p hp => by cases p <;> first | exact absurd (by decide) hp | rfl) rfl rfl

theorem withPending_within (s : System) (pending : Pending) (disk : Disk) :
    s.Within [.disk, .pending] ({ s with disk }.onEngine fun e => { e with pending }) :=
  .of_same (fun p hp => by cases p <;> first | exact absurd (by decide) hp | rfl) rfl rfl

/-- What a reset changes, however far it gets. -/
theorem resetBackupState_within (s : System) (transport : String) :
    s.Within ([.disk, .processed, .current, .pending] ++ Footprint.arming)
      (s.resetBackupState transport).2 := by
  have hforgets : s.Within ([.disk, .processed, .current, .pending] ++ Footprint.arming)
      ({ s with disk := (s.engine.processed.reset s.disk).2.2 }.onEngine fun e =>
        { e with processed := (s.engine.processed.reset s.disk).2.1 }) :=
    .of_same (fun p hp => by cases p <;> first | exact absurd (by decide) hp | rfl) rfl rfl
  have hcurrent := hforgets.next (setCurrentDataset_within _ 0) (by decide)
  have hrestage : ∀ (s : System) (disk : Disk) (packages : List String),
      s.Within ([.disk, .processed, .current, .pending] ++ Footprint.arming)
        ({ s with disk }.restage packages).scheduleKeyValueJob := by
    intro s disk packages
    exact (((s.withDisk_within disk).andThen (withPending_within _ _ _)).andThen
      (scheduleKeyValueJob_within _)).mono (by decide)
  unfold resetBackupState
  simp only
  split
  -- the dataset could not be stored
  · rename_i heq
    rw [← congrArg Prod.snd heq]
    exact hcurrent
  · rename_i heq
    rw [congrArg Prod.snd heq] at hcurrent
    split
    -- nobody knows the folder of the transport
    · exact hcurrent
    · exact hcurrent.trans (hrestage _ _ _)

/-- A pass that has drained the pending packages retires their journal, after staging them again if
it failed. -/
theorem closeDrained_within (s : System) (drained : Option Drained) (success : Bool) :
    s.Within [.disk, .pending] (s.closeDrained drained success) := by
  cases drained with
  | none => exact .refl s
  | some pass => exact s.withPending_within _ _

/-- Only the task that holds the slot of full backups clears it. -/
theorem clearRunningFull_within (s : System) (token : Option OpToken) :
    s.Within [.runningFull] (s.clearRunningFull token) := by
  unfold clearRunningFull
  split
  · split
    · exact .of_same (fun p hp => by cases p <;> first | exact absurd (by decide) hp | rfl) rfl rfl
    · exact .refl s
  · exact .refl s

theorem writeMetadata_within (s : System) (transport : String) :
    s.Within [.disk] (s.writeMetadata transport) := by
  unfold writeMetadata
  split
  · exact .refl s
  · exact s.withDisk_within _

/-- The dataset that a transport names is stored, unless there is none. -/
theorem storeDataset_within (s : System) (transport : String) :
    s.Within [.disk, .current] (s.storeDataset transport) := by
  unfold storeDataset
  split
  · split
    · exact .refl s
    · exact s.setCurrentDataset_within _
  · exact .refl s

/-! ## Winding down -/

/-- A pass announces its end before it gives anything back. -/
theorem endKeyValue_within (s : System) (t : Task) (drained : Option Drained) (status : Status) :
    s.Within .winding (s.endKeyValue t drained status) :=
  ((((s.heedInit_within t).andThen (closeDrained_within _ _ _)).andThen
    (post_within _ .passes rfl)).andThen (moveTo_within _ _ _)).mono (by decide)

/-- A pass that has announced its end tells its observer and gives back what it holds. It arms the
job if it failed. -/
theorem closeKeyValue_within (s : System) (t : Task) (observer : Option String)
    (status : Status) : s.Within .closing (s.closeKeyValue t observer status) := by
  have harm : ∀ s : System, s.Within .arming
      (if status = .success ∨ status = .cancelled then s else s.scheduleKeyValueJob) := by
    intro s
    split
    · exact .refl s
    · exact s.scheduleKeyValueJob_within
  exact ((((((s.tellFinished_within _ _).andThen (dropToken_within _ _)).andThen (harm _)).andThen
    (releaseWake_within _)).andThen (dispose_within _ _)).andThen (dropTask_within _ _)).mono
      (by decide)

/-- A full backup that was not accepted draws the delay of its next attempt, whatever comes of that.
-/
theorem drawnRetry_within (s : System) (t : Task) :
    s.Within (Footprint.marking ++ [.chance]) (s.drawnRetry t) :=
  (s.heedInit_within t).andThen (draw_within _ _)

/-- A task that breaks down gives back its lease and nothing else. -/
theorem fall_within (s : System) (t : Task) : s.Within [.leases, .tasks] (s.fall t) :=
  (s.dispose_within _).andThen (setTask_within _ _)

/-- A full backup that ends changes the schedule, unless the time of its next attempt overflows:
then the task falls. -/
theorem endFull_within (s : System) (t : Task) (package : String) (lastBackup : Int)
    (status : Status) : s.Within .winding (s.endFull t package lastBackup status) := by
  refine endFull_elim ?succeeds ?retries ?falls
  case succeeds =>
    exact fun _ => (((s.heedInit_within t).andThen (enqueueFull_within _ _ _)).andThen
      (moveTo_within _ _ _)).mono (by decide)
  case retries =>
    exact fun _ _ => (((s.drawnRetry_within t).andThen (deferFull_within _ _ _ _)).andThen
      (moveTo_within _ _ _)).mono (by decide)
  case falls =>
    exact fun _ => ((s.drawnRetry_within t).andThen (fall_within _ _)).mono (by decide)

/-- A full backup gives up its slot once its package is back in the schedule. -/
theorem vacate_within (s : System) (t : Task) : s.Within [.runningFull, .tasks] (s.vacate t) :=
  (s.clearRunningFull_within _).andThen (moveTo_within _ _ _)

/-- Then it gives back the rest, and the job is armed anew. -/
theorem leave_within (s : System) (t : Task) :
    s.Within [.operations, .wake, .notices .fullJob, .leases, .tasks] (s.leave t) := by
  unfold leave
  split
  · exact ((((s.dropToken_within t).andThen (releaseWake_within _)).andThen
      (scheduleNextFullJob_within _ 0)).andThen (dispose_within _ _)).andThen (dropTask_within _ _)
  all_goals exact .refl s

/-- What follows the announcement of the end: for a pass, all the rest; for a full backup, the slot.
-/
theorem closeTask_within (s : System) (t : Task) (status : Status) :
    s.Within .closing (s.closeTask t status) := by
  unfold closeTask
  split
  · exact s.closeKeyValue_within t _ status
  · exact (s.vacate_within t).mono (by decide)
  all_goals exact .refl s

/-- A task that has nothing to announce gives back what it holds. -/
theorem endPlain_within (s : System) (t : Task) :
    s.Within [.wake, .leases, .tasks] (s.endPlain t) :=
  ((s.releaseWake_within).andThen (dispose_within _ _)).andThen (dropTask_within _ _)

/-- A restore says which dataset has become the ancestral one. -/
theorem endRestore_within (s : System) (t : Task) (order : RestoreOrder) (started : Bool) :
    s.Within [.disk, .ancestral, .notices .installer, .wake, .leases, .mail .restores, .tasks]
      (s.endRestore t order started) := by
  have hancestral : s.Within [.disk, .ancestral]
      (if started && order.recordAncestral then
        (s.setDatasets
          { s.engine.datasets with
            ancestral := order.token
            packages := some (NameSet.ofList order.packages) }).2
      else s) := by
    split
    · exact .of_same (fun p hp => by cases p <;> first | exact absurd (by decide) hp | rfl) rfl rfl
    · exact .refl s
  have hgivesBack : ∀ s : System, s.Within [.wake, .leases, .mail .restores, .tasks]
      (((s.releaseWake.dispose t.lease).post (.restoreFinished order.session)).dropTask t.number) :=
    fun s => ((s.releaseWake_within.andThen (dispose_within _ _)).andThen
      (post_within _ .restores rfl)).andThen (dropTask_within _ _)
  unfold endRestore
  cases order.installToken with
  | none => exact (hancestral.andThen (hgivesBack _)).mono (by decide)
  | some token =>
    exact ((hancestral.andThen (note_within _ .installer rfl)).andThen (hgivesBack _)).mono
      (by decide)

/-! ## Packages of a pass -/

/-- The outcome of a package is told, and then the pass goes on or, after some outcomes, ends. -/
theorem packageDone_within (s : System) (t : Task) (drained : Option Drained)
    (observer : Option String) (package : String) (status : Status) :
    s.Within .winding (s.packageDone t drained observer package status) := by
  have htold := (s.tellResult_within observer package status).mono
    (show ∀ p ∈ [Part.notices .observers], p ∈ Footprint.winding by decide)
  unfold packageDone
  simp only
  split
  · exact htold.trans (endKeyValue_within _ _ _ _)
  · exact htold.next (moveTo_within _ _ _) (by decide)

theorem withBinder_within (s : System) (binder : Binder) :
    s.Within [.line, .arrival] (s.onEngine fun e => { e with binder }) :=
  .of_same (fun p hp => by cases p <;> first | exact absurd (by decide) hp | rfl) rfl rfl

/-- A task joins the line of binds and waits for its turn. -/
theorem visit_within (s : System) (t : Task) (v : Visit) :
    s.Within [.line, .arrival, .tasks] (s.visit t v) :=
  (s.withBinder_within _).andThen (moveTo_within _ _ _)

/-- An agent that did not do its work costs a pass or a restore one package, and ends a full backup.
-/
theorem visitFailed_within (s : System) (t : Task) (v : Visit) (status : Status) :
    s.Within .winding (s.visitFailed t v status) := by
  unfold visitFailed
  split
  · exact s.packageDone_within _ _ _ _ _
  · exact s.endFull_within _ _ _ _
  all_goals exact (s.moveTo_within _ _).mono (by decide)

/-- The host is asked to bind. It refuses, or the agent is there at once, or a timer bounds the
wait. -/
theorem askHost_within (s : System) (t : Task) (v : Visit) (ticket : Nat) :
    s.Within .working (s.askHost t v ticket) := by
  have hasked : ∀ binder : Binder, s.Within .working
      ((s.note (.agent v.package.name (.bind v.mode))).onEngine fun e => { e with binder }) :=
    fun binder =>
      ((s.note_within .agents rfl).andThen (withBinder_within _ binder)).mono (by decide)
  unfold askHost
  simp only
  split
  -- the host accepts; an agent that came up inside the call needs no timer
  · split
    · exact (hasked _).next (moveTo_within _ _ _) (by decide)
    · exact ((hasked _).next (setTimer_within _ .binds rfl _) (by decide)).next
        (moveTo_within _ _ _) (by decide)
  · exact (hasked _).next (visitFailed_within _ _ _ _) (by decide)

/-- The work is registered before the agent is told of it, so that an answer finds it. -/
theorem prepare_within (s : System) (t : Task) (v : Visit) :
    s.Within [.words, .tokens, .operations, .tasks] (s.prepare t v) := by
  have hregister := withOps_within s.freshToken.2 (s.freshToken.2.engine.ops.act_clock
    (.register s.freshToken.1 (workKind v.mode) (.agent v.package.name)
      (workTimeout s.engine.settings v.mode)))
  exact (s.freshToken_within.andThen hregister).andThen (moveTo_within _ _ _)

/-- A task that was canceled in the meantime cancels the work that it has registered. -/
theorem heedCancel_within (s : System) (t : Task) (v : Visit) (token : OpToken) :
    s.Within [.operations, .tasks] (s.heedCancel t v token) := by
  unfold heedCancel
  split
  · exact (s.cancelOperation_within token).next (moveTo_within _ _ _) (by decide)
  · exact (s.moveTo_within _ _).mono (by decide)

/-- What an agent does at once takes no time. -/
theorem agentReacts_clock (behaviour : Device.Behaviour) (token : OpToken)
    (ops : OperationTable Watcher) : (agentReacts behaviour token ops).clock = ops.clock := by
  have hcomplete : ∀ (ops : OperationTable Watcher) result,
      (ops.complete token result).clock = ops.clock :=
    fun ops result => ops.act_clock (.complete token result)
  cases behaviour with
  | double => exact (hcomplete _ 1).trans (hcomplete ops 0)
  | normal | refuse | disconnect | wrong => exact hcomplete ops 0
  | silent | unreachable => rfl

/-- An agent is told to begin, and answers at once or later. -/
theorem handWork_within (s : System) (t : Task) (v : Visit) (token : OpToken) :
    s.Within [.notices .agents, .handed, .operations]
      ((s.note (.agent v.package.name (workNotice t v.mode))).onEngine fun e =>
        { e with
          handed := Device.setKey v.package.name token e.handed
          ops := agentReacts (s.device.behaviour v.package.name) token e.ops }) := by
  have hgives : ∀ (s : System) (ops : OperationTable Watcher), ops.clock = s.engine.ops.clock →
      s.Within [.handed, .operations] (s.onEngine fun e =>
        { e with handed := Device.setKey v.package.name token e.handed, ops }) := by
    intro s ops hclock
    refine .of_same (fun p hp => ?_) rfl rfl
    cases p <;> first | exact absurd (by decide) hp | rfl | exact hclock
  exact (s.note_within .agents rfl).andThen (hgives _ _ (agentReacts_clock _ token _))

/-- The agent is told to begin, and the task waits. -/
theorem giveWork_within (s : System) (t : Task) (v : Visit) (token : OpToken) :
    s.Within [.notices .agents, .handed, .operations, .tasks] (s.giveWork t v token) :=
  (s.handWork_within t v token).andThen (moveTo_within _ _ _)

/-- The bind is over for the others in the line, whatever came of it. -/
theorem meetAgent_within (s : System) (t : Task) (v : Visit) :
    s.Within .working (s.meetAgent t v) := by
  have hleft := (s.withBinder_within s.engine.binder.leave).mono
    (show ∀ p ∈ [Part.line, .arrival], p ∈ Footprint.working by decide)
  refine meetAgent_elim ?prepares ?fails
  case prepares => exact fun _ => hleft.next (prepare_within _ _ _) (by decide)
  case fails =>
    rintro left - (rfl | rfl)
    · exact hleft.next (visitFailed_within _ _ _ _) (by decide)
    · exact (hleft.next (note_within _ .agents rfl) (by decide)).next
        (visitFailed_within _ _ _ _) (by decide)

/-- An agent is unbound, and its process killed unless that belongs to the system. -/
theorem tearDown_within (s : System) (p : Package) :
    s.Within [.notices .agents] (s.tearDown p) := by
  have hunbound : s.Within [.notices .agents] (s.note (.agent p.name .unbind)) :=
    s.note_within .agents rfl
  unfold tearDown
  simp only
  split
  · exact hunbound.trans (note_within _ .agents rfl)
  · exact hunbound

/-- What came of a wait is taken, and the agent is unbound. -/
theorem collected_within (s : System) (v : Visit) (token : OpToken) :
    s.Within [.operations, .notices .agents] (s.collected v token) :=
  (s.withOps_within (s.engine.ops.act_clock (.wait token))).andThen (tearDown_within _ _)

/-- What the agent brought is offered to the transport, or the visit has failed. -/
theorem collectWork_within (s : System) (t : Task) (v : Visit) (token : OpToken) :
    s.Within .working (s.collectWork t v token) := by
  have hcollected : s.Within .working (s.collected v token) :=
    (s.collected_within v token).mono (by decide)
  refine collectWork_elim ?offers ?offersFull ?restores ?fails
  case offers =>
    exact fun _ _ _ _ _ _ _ => hcollected.next (call_within _ _ _) (by decide)
  case offersFull => exact fun _ _ _ => hcollected.next (call_within _ _ _) (by decide)
  case restores => exact fun _ _ => hcollected.next (moveTo_within _ _ _) (by decide)
  case fails => exact hcollected.next (visitFailed_within _ _ _ _) (by decide)

/-! ## Stages -/

/-- The first step of a task: most acquire the wake lock, and a full backup, which holds it already,
joins the line of binds. A pass whose transport waits for a wipe is over at once. -/
theorem openTask_within (s : System) (t : Task) : s.Within .working (s.openTask t) := by
  have hwake := s.acquireWake_within.mono
    (show ∀ p ∈ [Part.wake], p ∈ Footprint.working by decide)
  unfold openTask
  split
  · simp only
    split
    · exact hwake.next (endKeyValue_within _ _ _ _) (by decide)
    · exact hwake.next (moveTo_within _ _ _) (by decide)
  · exact (s.visit_within _ _).mono (by decide)
  · exact hwake.next (moveTo_within _ _ _) (by decide)
  · exact hwake.next (call_within _ _ _) (by decide)
  · exact hwake.next (call_within _ _ _) (by decide)

/-- The choices of a pass. -/
theorem chooseKeyValue_within (s : System) (t : Task) (drained : Option Drained)
    (keyValue full : List String) (observer : Option String) (nonIncremental : Bool) :
    s.Within .working (s.chooseKeyValue t drained keyValue full observer nonIncremental) := by
  refine chooseKeyValue_elim ?commits ?breaksOff ?offers ?visits ?skips
  case commits => exact (s.call_within _ _).mono (by decide)
  case breaksOff => exact fun _ => (s.endKeyValue_within _ _ _).mono (by decide)
  case offers => exact fun _ _ => (s.call_within _ _).mono (by decide)
  case visits => exact fun _ _ _ => (s.visit_within _ _).mono (by decide)
  case skips => exact fun _ _ _ _ _ => (s.packageDone_within _ _ _ _ _).mono (by decide)

/-- A wipe takes one transport after the other and tells of the outcome of each. -/
theorem chooseInit_within (s : System) (t : Task) (names : List String)
    (observer : Option String) (overall : Status) :
    s.Within [.notices .observers, .notices .transports, .wake, .leases, .tasks]
      (s.chooseInit t names observer overall) := by
  refine chooseInit_elim ?ends ?skips ?wipes
  case ends =>
    exact ((s.tellFinished_within _ _).andThen (endPlain_within _ _)).mono (by decide)
  case skips =>
    exact fun _ _ _ => ((s.tellResult_within _ _ _).andThen (moveTo_within _ _ _)).mono (by decide)
  case wipes =>
    exact fun _ _ => ((s.lend_within _ _).andThen (call_within _ _ _)).mono (by decide)

/-- A restore takes one package after the other, and those that are not installed are skipped. -/
theorem chooseRestore_within (s : System) (t : Task) (order : RestoreOrder)
    (rest : List String) :
    s.Within [.notices .transports, .line, .arrival, .tasks] (s.chooseRestore t order rest) := by
  refine chooseRestore_elim ?commits ?visits ?skips
  case commits => exact (s.call_within _ _).mono (by decide)
  case visits => exact fun _ _ => (s.visit_within _ _).mono (by decide)
  case skips => exact fun _ => (s.moveTo_within _ _).mono (by decide)

/-- The choices of all sorts of tasks. -/
theorem choose_within (s : System) (t : Task) : s.Within .working (s.choose t) := by
  unfold choose
  split
  · exact s.chooseKeyValue_within _ _ _ _ _ _
  · exact (s.endFull_within _ _ _ _).mono (by decide)
  · exact (s.chooseInit_within _ _ _ _).mono (by decide)
  · exact (s.endPlain_within _).mono (by decide)
  · exact (s.chooseRestore_within _ _ _).mono (by decide)

end System

end Holdfast
