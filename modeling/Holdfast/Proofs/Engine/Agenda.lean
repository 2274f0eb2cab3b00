import Holdfast.Proofs.Engine.Matters

/-!
# The agenda of the engine

When packages are backed up next shows up in a few fields of the state: who takes part, what is
pending, the schedule of full backups with the one that runs, and whether the key-value job is
armed. The agenda is the extract of these fields, and this module says what the small operations of
the engine do to it.

- `System.agenda`: the extract; `Errand` is what it knows of a task;
- `Agenda.post`, `Agenda.request`, `Agenda.arm`, `Agenda.seat`, …: what is done to an agenda;
- `Agenda.parts` and `Within.agenda`: an operation leaves the agenda as it is when its footprint has
  no part in common with it;
- one equation for each operation of the other kind (`System.enqueueFull_agenda`, …), and for those
  that the steps of tasks are made of.
-/

namespace Holdfast

/-- A task as the agenda knows it. -/
inductive Errand where
  /-- A key-value pass, with what it has drained. -/
  | pass (drained : Option Drained) (canceled : Bool)
  /-- A key-value pass that has announced its end. -/
  | passed (status : Status)
  /-- A scheduled full backup, with the last backup that its entry told of. -/
  | full (package : Package) (lastBackup : Int) (token : Option OpToken) (stage : Stage)
  | other

/-- Whether a task is a scheduled full backup. -/
def Errand.isFull : Errand → Bool
  | .full _ _ _ _ => true
  | .pass _ _ | .passed _ | .other => false

/-- Whether a task is neither a scheduled full backup nor near its end. It has one errand all the
while. -/
def Errand.isPlain : Errand → Bool
  | .pass _ _ | .other => true
  | .passed _ | .full _ _ _ _ => false

/-- The errand of a canceled task. -/
def Errand.cancel : Errand → Errand
  | .pass drained _ => .pass drained true
  | .passed status => .passed status
  | .full package lastBackup token stage => .full package lastBackup token stage
  | .other => .other

/-- What the agenda knows of a task. -/
def Task.errand (t : Task) : Errand :=
  match t.job with
  | .keyValue drained _ _ _ _ =>
    match t.stage with
    | .closing status => .passed status
    | _ => .pass drained t.canceled
  | .full package lastBackup => .full package lastBackup t.token t.stage
  | .wipe _ _ _ | .clearData _ | .restore _ _ => .other

/-- A task that is canceled has the same errand, canceled. -/
theorem Task.errand_cancel (t : Task) :
    ({ t with canceled := true, agentToken := none } : Task).errand = t.errand.cancel := by
  unfold Task.errand
  cases t.job with
  | keyValue =>
    simp only
    cases t.stage <;> rfl
  | full | wipe | clearData | restore => rfl

/-- Whether a command has a pass run or the schedule written. -/
def Command.isChore : Command → Bool
  | .runKeyValue | .writeSchedule => true
  | _ => false

/-- The chore that a timer will post. -/
def TimerAction.chore? : TimerAction → Option Command
  | .post command => if command.isChore then some command else none
  | .expireBind _ => none

/-- Whether the key-value job was armed or canceled. -/
def Device.Notice.job? : Notice → Option Bool
  | .keyValueJob _ => some true
  | .keyValueJobCanceled => some false
  | _ => none

/-- What is drawn below a bound. -/
def Device.drawn (bound : Nat) (chance : List Nat) : Nat :=
  match bound, chance with
  | 0, _ => 0
  | _, [] => 0
  | bound, drawn :: _ => drawn % bound

/-- The draws that are left after one below a bound. -/
def Device.undrawn (bound : Nat) (chance : List Nat) : List Nat :=
  match bound, chance with
  | 0, chance => chance
  | _, [] => []
  | _, _ :: rest => rest

/-- What is drawn, and what is left to draw. -/
theorem Device.draw_eq (d : Device) (bound : Nat) :
    d.draw bound = (drawn bound d.chance, { d with chance := undrawn bound d.chance }) := by
  obtain ⟨catalog, foreground, behaviours, stations, now, chance, log, acquired, released⟩ := d
  cases bound with
  | zero => rfl
  | succ bound => cases chance <;> rfl

/-- A draw stays within its bound. -/
theorem Device.drawn_le (bound : Nat) (chance : List Nat) : drawn bound chance ≤ bound := by
  unfold drawn
  split
  · exact Nat.le_refl _
  · exact Nat.zero_le _
  · rename_i bound drawn _ hbound
    exact Nat.le_of_lt (Nat.mod_lt _ (Nat.pos_of_ne_zero hbound))

/-- The extract of the state that says what is backed up next. -/
structure Agenda where
  settings : Settings
  policy : Policy
  participants : List (Nat × NameSet)
  pending : Pending
  schedule : Schedule
  /-- The scheduled full backup that runs. -/
  running : Option (OpToken × String)
  /-- Whether a write of the schedule is on its way. -/
  writing : Bool
  passes : Nat
  looping : Bool
  /-- Queued chores, oldest first. -/
  mail : List Command
  /-- Chores that timers will post. -/
  delayed : List Command
  /-- Tasks by their numbers. -/
  errands : List (Nat × Errand)
  /-- Registered transports. -/
  transports : List (String × TransportDescription)
  /-- The folder of the transports, as written. -/
  root : String
  /-- The file of processed packages. -/
  processed : Path
  catalog : List Package
  now : Int
  chance : List Nat
  /-- When the key-value job was armed and when it was canceled, newest first. -/
  jobs : List Bool

namespace Agenda

/-- The parts of the state that the agenda is read from. -/
def parts : Footprint :=
  [.givens, .policy, .participants, .pending, .schedule, .runningFull, .writeRequested, .passes,
    .looping, .mail .chores, .timers .chores, .tasks, .directory, .chance, .notices .keyValueJob]

/-- A chore is posted; it is lost when the loop has stopped. -/
def post (a : Agenda) (command : Command) : Agenda :=
  if a.looping then { a with mail := a.mail ++ [command] } else a

/-- The schedule is to be written. -/
def request (a : Agenda) : Agenda :=
  if a.writing then a else { a with writing := true }.post .writeSchedule

/-- Another schedule, which is to be written. -/
def reschedule (a : Agenda) (schedule : Schedule) : Agenda := { a with schedule }.request

/-- The key-value job is armed after a random spread. -/
def arm (a : Agenda) : Agenda :=
  { a with
    jobs := true :: a.jobs
    chance := Device.undrawn a.settings.keyValueFuzz a.chance }

/-- When a full backup that fails now is tried again, if a clock can show that. -/
def retryAt? (a : Agenda) : Option Int :=
  System.retryAt? a.now a.settings.busyMin (Device.drawn a.settings.busyFuzz a.chance)

/-- A full backup that failed has drawn the spread of its delay. -/
def drawRetry (a : Agenda) : Agenda :=
  { a with chance := Device.undrawn a.settings.busyFuzz a.chance }

/-- A package is back in the schedule after a full backup that failed. -/
def putBack (a : Agenda) (package : String) (lastBackup dueAt : Int) : Agenda :=
  a.drawRetry.reschedule (a.schedule.defer package lastBackup dueAt)

/-- The scheduled full backup of a token is over. -/
def vacate (a : Agenda) (token : Option OpToken) : Agenda :=
  match a.running with
  | some (running, _) => if some running = token then { a with running := none } else a
  | none => a

/-- Another errand for the task of a number. -/
def seat (a : Agenda) (number : Nat) (errand : Errand) : Agenda :=
  { a with
    errands := a.errands.map fun entry => if entry.1 = number then (number, errand) else entry }

/-- A task is over. -/
def drop (a : Agenda) (number : Nat) : Agenda :=
  { a with errands := a.errands.filter (fun entry => entry.1 ≠ number) }

/-- A task begins. -/
def enter (a : Agenda) (number : Nat) (errand : Errand) : Agenda :=
  { a with errands := a.errands ++ [(number, errand)] }

/-- A task is canceled. -/
def cancel (a : Agenda) (number : Nat) : Agenda :=
  { a with
    errands := a.errands.map fun entry =>
      if entry.1 = number then (entry.1, entry.2.cancel) else entry }

/-- Each number belongs to one task. -/
def Distinct (a : Agenda) : Prop := (a.errands.map (·.1)).Nodup

variable {a : Agenda} {number : Nat} {errand : Errand}

/-- A number stands for one errand. -/
theorem Distinct.eq (h : a.Distinct) {errand' : Errand} (hmem : (number, errand) ∈ a.errands)
    (hmem' : (number, errand') ∈ a.errands) : errand = errand' :=
  congrArg Prod.snd (List.inj_on_of_nodup_map h hmem hmem' rfl)

/-- The errand that a task has already. -/
theorem seat_of_mem (h : a.Distinct) (hmem : (number, errand) ∈ a.errands) :
    a.seat number errand = a := by
  have hsame : ∀ entry ∈ a.errands,
      (if entry.1 = number then (number, errand) else entry) = entry := by
    intro entry hentry
    split
    · rename_i hnumber
      exact (List.inj_on_of_nodup_map h hentry hmem hnumber).symm
    · rfl
  rw [seat, List.map_congr_left hsame, List.map_id']

/-- An entry is the new one, or it was there under another number. -/
theorem mem_seat {entry : Nat × Errand} (hmem : entry ∈ (a.seat number errand).errands) :
    entry = (number, errand) ∨ (entry ∈ a.errands ∧ entry.1 ≠ number) := by
  obtain ⟨old, hold, rfl⟩ := List.mem_map.1 hmem
  split
  · exact .inl rfl
  · exact .inr ⟨hold, ‹_›⟩

/-- The other entries are kept. -/
theorem mem_drop {entry : Nat × Errand} :
    entry ∈ (a.drop number).errands ↔ entry ∈ a.errands ∧ entry.1 ≠ number := by
  simp [drop]

/-- An entry was there, or it is the new one. -/
theorem mem_enter {entry : Nat × Errand} :
    entry ∈ (a.enter number errand).errands ↔ entry ∈ a.errands ∨ entry = (number, errand) := by
  simp [enter]

/-- An entry was there, canceled or not. -/
theorem mem_cancel {entry : Nat × Errand} (hmem : entry ∈ (a.cancel number).errands) :
    ∃ errand, (entry.1, errand) ∈ a.errands ∧ (entry.2 = errand ∨ entry.2 = errand.cancel) := by
  obtain ⟨old, hold, rfl⟩ := List.mem_map.1 hmem
  split
  · exact ⟨old.2, hold, .inr rfl⟩
  · exact ⟨old.2, hold, .inl rfl⟩

/-- Numbers stay distinct where an errand is canceled. -/
theorem Distinct.cancel (h : a.Distinct) (number : Nat) :
    (a.cancel number).Distinct := by
  have hnumbers : (a.cancel number).errands.map (·.1) = a.errands.map (·.1) := by
    rw [Agenda.cancel, List.map_map]
    refine List.map_congr_left fun entry _ => ?_
    simp only [Function.comp_apply]
    split <;> rfl
  unfold Distinct
  rw [hnumbers]
  exact h

/-- Whoever is canceled, only errands change. -/
theorem cancelAll_eq (a : Agenda) (numbers : List Nat) :
    ∃ errands, numbers.foldl cancel a = { a with errands } := by
  induction numbers generalizing a with
  | nil => exact ⟨a.errands, rfl⟩
  | cons number numbers ih => exact ih (a.cancel number)

/-- The canceled errand of a task. -/
theorem seat_cancel (h : a.Distinct) (hmem : (number, errand) ∈ a.errands) :
    a.seat number errand.cancel = a.cancel number := by
  rw [seat, cancel]
  congr 1
  refine List.map_congr_left fun entry hentry => ?_
  split
  · rename_i hnumber
    rw [List.inj_on_of_nodup_map h hentry hmem hnumber]
  · rfl

/-- What a request for a write leaves alone. -/
theorem request_eq (a : Agenda) :
    ∃ writing mail, a.request = { a with writing, mail } := by
  unfold request post
  split
  · exact ⟨_, _, rfl⟩
  · split <;> exact ⟨_, _, rfl⟩

/-- What the end of a full backup leaves alone. -/
theorem vacate_eq (a : Agenda) (token : Option OpToken) :
    ∃ running, a.vacate token = { a with running } := by
  unfold vacate
  split
  · split <;> exact ⟨_, rfl⟩
  · exact ⟨_, rfl⟩

@[simp] theorem request_schedule (a : Agenda) : a.request.schedule = a.schedule := by
  obtain ⟨_, _, heq⟩ := a.request_eq
  rw [heq]

@[simp] theorem request_errands (a : Agenda) : a.request.errands = a.errands := by
  obtain ⟨_, _, heq⟩ := a.request_eq
  rw [heq]

@[simp] theorem request_running (a : Agenda) : a.request.running = a.running := by
  obtain ⟨_, _, heq⟩ := a.request_eq
  rw [heq]

end Agenda

namespace System

/-- The agenda of the engine. -/
def agenda (s : System) : Agenda where
  settings := s.engine.settings
  policy := s.engine.policy
  participants := s.engine.participants
  pending := s.engine.pending
  schedule := s.engine.schedule
  running := s.engine.runningFull
  writing := s.engine.writeRequested
  passes := s.engine.runningPasses
  looping := s.engine.looping
  mail := s.engine.inbox.filter Command.isChore
  delayed := s.engine.timers.filterMap (fun timer => timer.action.chore?)
  errands := s.engine.tasks.map fun t => (t.number, t.errand)
  transports := s.engine.transports.transports
  root := s.engine.transports.root
  processed := s.engine.processed.path
  catalog := s.device.catalog
  now := s.device.now
  chance := s.device.chance
  jobs := s.device.log.filterMap Device.Notice.job?

variable {s s' : System} {t : Task}

/-- What keeps away from its parts leaves the agenda as it is. -/
theorem Within.agenda {parts : Footprint} (h : s.Within parts s')
    (hparts : ∀ p ∈ Agenda.parts, p ∉ parts) : s'.agenda = s.agenda := by
  have hgivens : (s'.engine.settings, s'.engine.transports.root, s'.engine.processed.path,
      s'.device.catalog, s'.device.foreground, s'.device.behaviours, s'.device.now) =
      (s.engine.settings, s.engine.transports.root, s.engine.processed.path, s.device.catalog,
        s.device.foreground, s.device.behaviours, s.device.now) :=
    h.same .givens (hparts _ (by decide))
  simp only [Prod.mk.injEq] at hgivens
  obtain ⟨hsettings, hroot, hpath, hcatalog, -, -, hnow⟩ := hgivens
  have hpolicy : s'.engine.policy = s.engine.policy := h.same .policy (hparts _ (by decide))
  have hparticipants : s'.engine.participants = s.engine.participants :=
    h.same .participants (hparts _ (by decide))
  have hpending : s'.engine.pending = s.engine.pending := h.same .pending (hparts _ (by decide))
  have hschedule : s'.engine.schedule = s.engine.schedule := h.same .schedule (hparts _ (by decide))
  have hrunning : s'.engine.runningFull = s.engine.runningFull :=
    h.same .runningFull (hparts _ (by decide))
  have hwriting : s'.engine.writeRequested = s.engine.writeRequested :=
    h.same .writeRequested (hparts _ (by decide))
  have hpasses : s'.engine.runningPasses = s.engine.runningPasses :=
    h.same .passes (hparts _ (by decide))
  have hlooping : s'.engine.looping = s.engine.looping := h.same .looping (hparts _ (by decide))
  have htasks : s'.engine.tasks = s.engine.tasks := h.same .tasks (hparts _ (by decide))
  have htransports : s'.engine.transports.transports = s.engine.transports.transports :=
    h.same .directory (hparts _ (by decide))
  have hchance : s'.device.chance = s.device.chance := h.same .chance (hparts _ (by decide))
  have hmail : s'.engine.inbox.filter Command.isChore = s.engine.inbox.filter Command.isChore := by
    simp only [← List.filterMap_eq_filter]
    refine h.inbox_filterMap fun command hmail => ?_
    have hchores := hparts (.mail .chores) (by decide)
    cases command <;> first | rfl | contradiction
  have hdelayed : s'.engine.timers.filterMap (fun timer => timer.action.chore?) =
      s.engine.timers.filterMap (fun timer => timer.action.chore?) := by
    refine h.timers_filterMap (hparts (.timers .chores) (by decide)) fun timer hother => ?_
    cases haction : timer.action with
    | expireBind ticket => rfl
    | post command =>
      rw [haction] at hother
      cases command <;> first | rfl | exact absurd rfl hother
  have hjobs : s'.device.log.filterMap Device.Notice.job? =
      s.device.log.filterMap Device.Notice.job? :=
    h.log_filterMap (hparts (.notices .keyValueJob) (by decide)) fun notice hother => by
      cases notice <;> first | rfl | exact absurd rfl hother
  simp only [System.agenda, hsettings, hroot, hpath, hcatalog, hnow, hpolicy, hparticipants,
    hpending, hschedule, hrunning, hwriting, hpasses, hlooping, htasks, htransports, hchance, hmail,
    hdelayed, hjobs]

/-- No two tasks have one number. -/
theorem Numbered.distinct (h : s.Numbered) : s.agenda.Distinct := by
  have hnodup := h.nodup
  unfold entries at hnodup
  unfold Agenda.Distinct agenda
  rw [List.map_map] at hnodup ⊢
  exact hnodup

/-- Every task has its errand. -/
theorem mem_errands (hmem : t ∈ s.engine.tasks) : (t.number, t.errand) ∈ s.agenda.errands :=
  List.mem_map_of_mem hmem

/-! ## Notices, commands and timers -/

/-- A notice that arms no job. -/
theorem note_agenda (s : System) {notice : Device.Notice} (h : notice.job? = none) :
    (s.note notice).agenda = s.agenda := by
  simp only [agenda, note, Device.note, List.filterMap_cons, h]

/-- A job is armed, or called off. -/
theorem note_job (s : System) {notice : Device.Notice} {armed : Bool}
    (h : notice.job? = some armed) :
    (s.note notice).agenda = { s.agenda with jobs := armed :: s.agenda.jobs } := by
  simp only [agenda, note, Device.note, List.filterMap_cons, h]

@[simp] theorem tellResult_agenda (s : System) (observer : Option String) (package : String)
    (status : Status) : (s.tellResult observer package status).agenda = s.agenda :=
  (s.tellResult_within observer package status).agenda (by decide)

@[simp] theorem tellFinished_agenda (s : System) (observer : Option String) (status : Status) :
    (s.tellFinished observer status).agenda = s.agenda :=
  (s.tellFinished_within observer status).agenda (by decide)

@[simp] theorem acquireWake_agenda (s : System) : s.acquireWake.agenda = s.agenda :=
  s.acquireWake_within.agenda (by decide)

@[simp] theorem releaseWake_agenda (s : System) : s.releaseWake.agenda = s.agenda :=
  s.releaseWake_within.agenda (by decide)

@[simp] theorem freshNumber_agenda (s : System) : s.freshNumber.2.agenda = s.agenda :=
  s.freshNumber_within.agenda (by decide)

@[simp] theorem freshToken_agenda (s : System) : s.freshToken.2.agenda = s.agenda :=
  s.freshToken_within.agenda (by decide)

/-- A command that is no chore. -/
theorem post_agenda (s : System) {command : Command} (h : command.isChore = false) :
    (s.post command).agenda = s.agenda := by
  unfold post
  split
  · simp [agenda, onEngine, h]
  · rfl

/-- A chore is queued. -/
theorem post_chore (s : System) {command : Command} (h : command.isChore = true) :
    (s.post command).agenda = s.agenda.post command := by
  unfold post Agenda.post
  by_cases hloop : s.engine.looping = true
  · rw [if_pos hloop, if_pos (show s.agenda.looping = true from hloop)]
    simp [agenda, onEngine, h]
  · rw [if_neg hloop, if_neg (show ¬ s.agenda.looping = true from hloop)]

/-- A command that is no chore is sent. -/
theorem send_agenda (s : System) {command : Command} (h : command.isChore = false) :
    (s.send command).2.agenda = s.agenda := by
  rw [send_snd, post_agenda s h]

/-- A timer that posts no chore. -/
theorem setTimer_agenda (s : System) {action : TimerAction} (h : action.chore? = none)
    (delay : Nat) : (s.setTimer action delay).2.agenda = s.agenda := by
  simp [setTimer, freshNumber, agenda, onEngine, h]

/-- A command that is no chore, later. -/
theorem postDelayed_agenda (s : System) {command : Command} (h : command.isChore = false)
    (delay : Nat) : (s.postDelayed command delay).2.agenda = s.agenda :=
  s.setTimer_agenda (by simp [TimerAction.chore?, h]) delay

/-- Fewer timers lose no chore if none is on a timer. -/
theorem withTimers_agenda (s : System) {timers : List Timer} (hsubset : timers ⊆ s.engine.timers)
    (h : s.agenda.delayed = []) : (s.onEngine fun e => { e with timers }).agenda = s.agenda := by
  have hnone : ∀ timer ∈ s.engine.timers, timer.action.chore? = none :=
    List.filterMap_eq_nil_iff.1 h
  have hstill : timers.filterMap (fun timer => timer.action.chore?) = [] :=
    List.filterMap_eq_nil_iff.2 fun timer hmem => hnone timer (hsubset hmem)
  show { s.agenda with delayed := timers.filterMap fun timer => timer.action.chore? } = s.agenda
  rw [hstill, ← h]

/-- Where no chore is delayed, no timer that is stopped is one. -/
theorem stopTimer_agenda (s : System) (number : Nat) (h : s.agenda.delayed = []) :
    (s.stopTimer number).agenda = s.agenda :=
  s.withTimers_agenda List.filter_sublist.subset h

@[simp] theorem dispose_agenda (s : System) (lease : Option Lease) :
    (s.dispose lease).agenda = s.agenda := (s.dispose_within lease).agenda (by decide)

@[simp] theorem dropToken_agenda (s : System) (t : Task) : (s.dropToken t).agenda = s.agenda :=
  (s.dropToken_within t).agenda (by decide)

/-- The transports stay as they are when a lease is handed out. -/
@[simp] theorem lend_agenda (s : System) (name caller : String) :
    (s.lend name caller).agenda = s.agenda := (s.lend_within name caller).agenda (by decide)

/-! ## Tasks -/

/-- A task that is changed may have another errand. -/
theorem setTask_agenda (s : System) (t : Task) :
    (s.setTask t).agenda = s.agenda.seat t.number t.errand := by
  simp only [setTask, agenda, onEngine, Agenda.seat, List.map_map]
  congr 1
  refine List.map_congr_left fun other _ => ?_
  simp only [Function.comp]
  split <;> rfl

/-- So may one that moves on to another stage. -/
theorem moveTo_agenda (s : System) (t : Task) (stage : Stage) :
    (s.moveTo t stage).agenda = s.agenda.seat t.number { t with stage }.errand :=
  s.setTask_agenda _

/-- A transport call is a move as far as the agenda goes. -/
theorem call_agenda (s : System) (t : Task) (call : TransportCall) :
    (s.call t call).agenda = (s.moveTo t (.calling call)).agenda := by
  rw [System.call, moveTo_agenda, moveTo_agenda, note_agenda _ rfl]

/-- A task is over. -/
theorem dropTask_agenda (s : System) (number : Nat) :
    (s.dropTask number).agenda = s.agenda.drop number := by
  simp only [dropTask, agenda, onEngine, Agenda.drop, List.filter_map]
  rfl

/-- A task begins. -/
theorem spawn_agenda (s : System) (t : Task) :
    (s.spawn t).agenda = s.agenda.enter t.number t.errand := by
  simp [spawn, agenda, onEngine, Agenda.enter]

/-- Canceling an operation cancels one task at most. -/
theorem cancelOperation_agenda (hs : s.agenda.Distinct) (token : OpToken) :
    (s.cancelOperation token).agenda = s.agenda ∨
      ∃ number, (s.engine.ops.cancel token).1 = some (.task number) ∧
        (s.cancelOperation token).agenda = s.agenda.cancel number := by
  unfold cancelOperation
  simp only
  generalize s.engine.ops.cancel token = answer
  obtain ⟨watcher, ops⟩ := answer
  simp only
  split
  · rename_i number
    split
    · rename_i task hfind
      obtain rfl : task.number = number := by simpa using List.find?_some hfind
      have hset : ((s.onEngine fun e => { e with ops }).setTask
          { task with canceled := true, agentToken := none }).agenda =
            s.agenda.cancel task.number := by
        rw [setTask_agenda, Task.errand_cancel]
        exact Agenda.seat_cancel hs (mem_errands (List.mem_of_find?_eq_some hfind))
      -- the operation of its agent is canceled too, but the agenda knows no operations
      refine .inr ⟨_, rfl, ?_⟩
      split
      · exact hset
      · exact hset
    · exact .inl rfl
  · exact .inl rfl
  · exact .inl rfl

/-! ## Upkeep -/

/-- A number is drawn. -/
theorem draw_agenda (s : System) (bound : Nat) :
    (s.draw bound).2.agenda =
      { s.agenda with chance := Device.undrawn bound s.agenda.chance } := by
  simp only [draw, Device.draw_eq]
  rfl

@[simp] theorem scheduleKeyValueJob_agenda (s : System) :
    s.scheduleKeyValueJob.agenda = s.agenda.arm := by
  rw [scheduleKeyValueJob, note_job _ rfl, draw_agenda]
  rfl

@[simp] theorem scheduleNextFullJob_agenda (s : System) (latency : Nat) :
    (s.scheduleNextFullJob latency).agenda = s.agenda :=
  (s.scheduleNextFullJob_within latency).agenda (by decide)

@[simp] theorem requestScheduleWrite_agenda (s : System) :
    s.requestScheduleWrite.agenda = s.agenda.request := by
  unfold requestScheduleWrite Agenda.request
  by_cases hwriting : s.engine.writeRequested = true
  · rw [if_pos hwriting, if_pos (show s.agenda.writing = true from hwriting)]
  · rw [if_neg hwriting, if_neg (show ¬ s.agenda.writing = true from hwriting), post_chore _ rfl]
    rfl

@[simp] theorem enqueueFull_agenda (s : System) (package : String) (lastBackup : Int) :
    (s.enqueueFull package lastBackup).agenda =
      s.agenda.reschedule (s.agenda.schedule.enqueue package lastBackup) := by
  rw [enqueueFull, requestScheduleWrite_agenda]
  rfl

@[simp] theorem deferFull_agenda (s : System) (package : String) (lastBackup dueAt : Int) :
    (s.deferFull package lastBackup dueAt).agenda =
      s.agenda.reschedule (s.agenda.schedule.defer package lastBackup dueAt) := by
  rw [deferFull, requestScheduleWrite_agenda]
  rfl

/-- The task that holds the slot of full backups gives it up. -/
theorem clearRunningFull_agenda (s : System) (token : Option OpToken) :
    (s.clearRunningFull token).agenda = s.agenda.vacate token := by
  have hsame : s.agenda.running = s.engine.runningFull := rfl
  unfold clearRunningFull Agenda.vacate
  cases hrunning : s.engine.runningFull with
  | none => simp only [hsame, hrunning]
  | some running =>
    simp only [hsame, hrunning]
    split <;> rfl

@[simp] theorem recordProcessed_agenda (s : System) (package : String) :
    (s.recordProcessed package).agenda = s.agenda :=
  (s.recordProcessed_within package).agenda (by decide)

@[simp] theorem setInitPending_agenda (s : System) (pending : Bool) (name folderName : String) :
    (s.setInitPending pending name folderName).agenda = s.agenda :=
  (s.setInitPending_within pending name folderName).agenda (by decide)

@[simp] theorem retryInit_agenda (s : System) (transport : String) :
    (s.retryInit transport).agenda = s.agenda := (s.retryInit_within transport).agenda (by decide)

@[simp] theorem heedInit_agenda (s : System) (t : Task) : (s.heedInit t).agenda = s.agenda :=
  (s.heedInit_within t).agenda (by decide)

@[simp] theorem writeMetadata_agenda (s : System) (transport : String) :
    (s.writeMetadata transport).agenda = s.agenda :=
  (s.writeMetadata_within transport).agenda (by decide)

@[simp] theorem storeDataset_agenda (s : System) (transport : String) :
    (s.storeDataset transport).agenda = s.agenda :=
  (s.storeDataset_within transport).agenda (by decide)

/-- Packages are staged again. -/
theorem restage_agenda (s : System) (packages : List String) :
    (s.restage packages).agenda =
      { s.agenda with pending := (s.agenda.pending.restage packages s.disk).1 } := rfl

/-- What a pass has drained is closed, on the disk as it is then. -/
theorem closeDrained_agenda (s : System) (drained : Option Drained) (success : Bool) :
    (s.closeDrained drained success).agenda =
      { s.agenda with
        pending := match drained with
          | some pass => (s.agenda.pending.finish pass success s.disk).1
          | none => s.agenda.pending } := by
  cases drained <;> rfl

/-- A wiped transport: everybody is staged again and the job is armed, or nothing happens. -/
theorem resetBackupState_agenda (s : System) (transport : String) :
    (s.resetBackupState transport).2.agenda = s.agenda ∨
      ∃ packages disk, (s.resetBackupState transport).2.agenda =
        ({ s.agenda with pending := (s.agenda.pending.restage packages disk).1 } : Agenda).arm := by
  unfold resetBackupState
  simp only
  split
  · rename_i heq
    exact .inl (congrArg (fun outcome => outcome.2.agenda) heq).symm
  · rename_i reset heq
    have hreset : reset.agenda = s.agenda := (congrArg (fun outcome => outcome.2.agenda) heq).symm
    split
    · exact .inl hreset
    · rw [← hreset, scheduleKeyValueJob_agenda, restage_agenda]
      exact .inr ⟨_, _, rfl⟩

/-- Whatever a transport answers, the agenda stays as it is. -/
@[simp] theorem answer_agenda (s : System) (transport : String) (call : TransportCall) :
    { s with device := (s.device.answer transport call).2 }.agenda = s.agenda := rfl

@[simp] theorem tearDown_agenda (s : System) (p : Package) : (s.tearDown p).agenda = s.agenda :=
  (s.tearDown_within p).agenda (by decide)

end System

end Holdfast
