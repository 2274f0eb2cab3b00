import Holdfast.Proofs.Engine.Matters

/-!
# The roster of the engine

Two things have to be on their way at any time: the end of a pass that was canceled, and the wipe of
a transport that is marked for one. Both show up in the tasks, in the table of operations with the
tokens that were issued and handed out, and in the commands and timers that ask for a wipe. The
roster is the extract of these fields, and this module says what the small operations of the engine
do to it.

- `System.roster`: the extract;
- `Roster.issue`, `Roster.delay`, `Roster.heed`, `Roster.cancel`, …: what is done to a roster;
- `Roster.parts` and `Within.roster`: an operation leaves the roster as it is when its footprint has
  no part in common with it;
- one equation for each operation of the other kind (`System.markForInit_roster`,
  `System.cancelOperation_roster`, …), and for those that the steps of tasks are made of.
-/

namespace Holdfast

/-- The transports that a command has wiped. -/
def Command.wiped? : Command → Option (List String)
  | .wipe transports _ => some transports
  | _ => none

/-- The transports that a timer will have wiped. -/
def TimerAction.wiped? : TimerAction → Option (List String)
  | .post command => command.wiped?
  | .expireBind _ => none

/-- Whether a job is a pass. -/
def Job.isPass : Job → Bool
  | .keyValue _ _ _ _ _ | .full _ _ => true
  | .wipe _ _ _ | .clearData _ | .restore _ _ => false

/-- The transports that a task has still to wipe. The one whose answer is awaited is one of them. -/
def Task.wipes (t : Task) : List String :=
  match t.job, t.stage with
  | .wipe rest _ _, .calling _ => t.transport :: rest
  | .wipe rest _ _, _ => rest
  | _, _ => []

/-- Whether an agent was told to back up. -/
def Device.Notice.isWork : Notice → Bool
  | .agent _ (.backup _) | .agent _ .fullBackup => true
  | _ => false

/-- The extract of the state that says which tasks run and can be canceled, and which transports are
to be wiped. -/
structure Roster where
  ops : OperationTable Watcher
  tokens : TokenSource
  /-- The latest token given to each package's agent. -/
  handed : List (String × OpToken)
  tasks : List Task
  /-- Names of the registered transports. -/
  registered : List String
  /-- Transports that are marked for wiping. -/
  marks : NameSet
  /-- The transports of the queued wipes, oldest first. -/
  mail : List (List String)
  /-- The transports of the wipes that timers will post, by the numbers of the timers. -/
  delayed : List (Nat × List String)
  /-- The timer of the open session. -/
  alarm : Option Nat
  looping : Bool
  nextNumber : Nat
  /-- The backups that agents were told to do, oldest first. -/
  worked : List Device.Notice

/-- A name is registered if something is found under it. -/
theorem TransportRegistry.lookup_names (transports : List (String × TransportDescription))
    (name : String) : (transports.lookup name).isSome = true ↔ name ∈ transports.map (·.1) := by
  rw [List.lookup_isSome_iff]
  simp

namespace Roster

/-- The parts of the state that the roster is read from. -/
def parts : Footprint :=
  [.operations, .clock, .tokens, .handed, .tasks, .directory, .marks, .mail .wipes, .timers .wipes,
    .session, .looping, .numbers, .notices .agents]

/-- The next token is issued. Which one that is depends on a random word; what is left of the source
does not. -/
def issue (r : Roster) : Roster := { r with tokens := (r.tokens.next 0).2 }

/-- A number is handed out. -/
def count (r : Roster) : Roster := { r with nextNumber := r.nextNumber + 1 }

/-- A wipe is queued; it is lost when the loop has stopped. -/
def post (r : Roster) (names : List String) : Roster :=
  if r.looping then { r with mail := r.mail ++ [names] } else r

/-- A timer is set for a wipe. -/
def delay (r : Roster) (names : List String) : Roster :=
  { r with delayed := r.delayed ++ [(r.nextNumber, names)] }.count

/-- A transport is marked. -/
def mark (r : Roster) (name : String) : Roster := { r with marks := r.marks.insert name }

/-- A mark is taken away. -/
def unmark (r : Roster) (name : String) : Roster := { r with marks := r.marks.erase name }

/-- A registered transport is marked and wiped later. -/
def heed (r : Roster) (name : String) : Roster :=
  if name ∈ r.registered then (r.mark name).delay [name] else r

/-- The transport of a task is heeded if it asked for that. -/
def mind (r : Roster) (t : Task) : Roster := if t.needsInit then r.heed t.transport else r

/-- Another state of a task. -/
def seat (r : Roster) (t : Task) : Roster :=
  { r with tasks := r.tasks.map fun other => if other.number = t.number then t else other }

/-- A task is over. -/
def drop (r : Roster) (number : Nat) : Roster :=
  { r with tasks := r.tasks.filter (fun t => t.number ≠ number) }

/-- A task begins. -/
def enter (r : Roster) (t : Task) : Roster := { r with tasks := r.tasks ++ [t] }

/-- A token is taken out of the table. -/
def forget (r : Roster) (token : Option OpToken) : Roster :=
  match token with
  | some token => { r with ops := r.ops.remove token }
  | none => r

/-- An operation is canceled, and with a task the operation of its agent. -/
def cancel (r : Roster) (token : OpToken) : Roster :=
  let r' : Roster := { r with ops := (r.ops.cancel token).2 }
  match (r.ops.cancel token).1 with
  | some (.task number) =>
    match r.tasks.find? (·.number == number) with
    | some t =>
      let r' := r'.seat { t with canceled := true, agentToken := none }
      match t.agentToken with
      | some agentToken => { r' with ops := (r'.ops.cancel agentToken).2 }
      | none => r'
    | none => r'
  | some (.agent _) | none => r'

/-- No wipe is on the timer of the session, and the numbers of timers are below the next one. -/
def Timed (r : Roster) : Prop :=
  ∀ entry ∈ r.delayed, entry.1 < r.nextNumber ∧ r.alarm ≠ some entry.1

end Roster

namespace System

/-- The roster of the engine. -/
def roster (s : System) : Roster where
  ops := s.engine.ops
  tokens := s.engine.tokens
  handed := s.engine.handed
  tasks := s.engine.tasks
  registered := s.engine.transports.transports.map (·.1)
  marks := s.engine.transports.pendingInits
  mail := s.engine.inbox.filterMap Command.wiped?
  delayed := s.engine.timers.filterMap fun timer => timer.action.wiped?.map (timer.number, ·)
  alarm := s.engine.session.bind (·.timer)
  looping := s.engine.looping
  nextNumber := s.engine.nextNumber
  worked := (s.device.log.filter Device.Notice.isWork).reverse

variable {s s' : System} {t : Task}

/-- What keeps away from its parts leaves the roster as it is. -/
theorem Within.roster {parts : Footprint} (h : s.Within parts s')
    (hparts : ∀ p ∈ Roster.parts, p ∉ parts) : s'.roster = s.roster := by
  have hoperations : { s'.engine.ops with clock := 0 } = { s.engine.ops with clock := 0 } :=
    h.same .operations (hparts _ (by decide))
  have hclock : s'.engine.ops.clock = s.engine.ops.clock := h.same .clock (hparts _ (by decide))
  have hops : s'.engine.ops = s.engine.ops := by
    have hclocked := congrArg (fun ops : OperationTable Watcher =>
      { ops with clock := s'.engine.ops.clock }) hoperations
    rw [hclock] at hclocked
    exact (congrArg (fun clock => { s'.engine.ops with clock }) hclock).trans hclocked
  have htokens : s'.engine.tokens = s.engine.tokens := h.same .tokens (hparts _ (by decide))
  have hhanded : s'.engine.handed = s.engine.handed := h.same .handed (hparts _ (by decide))
  have htasks : s'.engine.tasks = s.engine.tasks := h.same .tasks (hparts _ (by decide))
  have htransports : s'.engine.transports.transports = s.engine.transports.transports :=
    h.same .directory (hparts _ (by decide))
  have hmarks : s'.engine.transports.pendingInits = s.engine.transports.pendingInits :=
    h.same .marks (hparts _ (by decide))
  have hsession : s'.engine.session = s.engine.session := h.same .session (hparts _ (by decide))
  have hlooping : s'.engine.looping = s.engine.looping := h.same .looping (hparts _ (by decide))
  have hnumbers : s'.engine.nextNumber = s.engine.nextNumber :=
    h.same .numbers (hparts _ (by decide))
  have hmail : s'.engine.inbox.filterMap Command.wiped? =
      s.engine.inbox.filterMap Command.wiped? := by
    refine h.inbox_filterMap fun command hmail => ?_
    have hwipes := hparts (.mail .wipes) (by decide)
    cases command <;> first | rfl | contradiction
  have hdelayed : s'.engine.timers.filterMap
        (fun timer => timer.action.wiped?.map (timer.number, ·)) =
      s.engine.timers.filterMap fun timer => timer.action.wiped?.map (timer.number, ·) := by
    refine h.timers_filterMap (hparts (.timers .wipes) (by decide)) fun timer hother => ?_
    cases haction : timer.action with
    | expireBind ticket => rfl
    | post command =>
      rw [haction] at hother
      cases command <;> first | rfl | exact absurd rfl hother
  have hworked : s'.device.log.filter Device.Notice.isWork =
      s.device.log.filter Device.Notice.isWork := by
    simp only [← List.filterMap_eq_filter]
    refine h.log_filterMap (hparts (.notices .agents) (by decide)) fun notice hother => ?_
    cases notice <;> first | rfl | exact absurd rfl hother
  simp only [System.roster, hops, htokens, hhanded, htasks, htransports, hmarks, hsession, hlooping,
    hnumbers, hmail, hdelayed, hworked]

/-! ## Notices, commands and timers -/

/-- A notice that gives no agent its work. -/
theorem note_roster (s : System) {notice : Device.Notice} (h : notice.isWork = false) :
    (s.note notice).roster = s.roster := by
  simp only [roster, note, Device.note, List.filter_cons, h, Bool.false_eq_true, if_false]

@[simp] theorem tellResult_roster (s : System) (observer : Option String) (package : String)
    (status : Status) : (s.tellResult observer package status).roster = s.roster :=
  (s.tellResult_within observer package status).roster (by decide)

@[simp] theorem tellFinished_roster (s : System) (observer : Option String) (status : Status) :
    (s.tellFinished observer status).roster = s.roster :=
  (s.tellFinished_within observer status).roster (by decide)

@[simp] theorem releaseWake_roster (s : System) : s.releaseWake.roster = s.roster :=
  s.releaseWake_within.roster (by decide)

@[simp] theorem freshNumber_roster (s : System) : s.freshNumber.2.roster = s.roster.count := rfl

@[simp] theorem freshToken_roster (s : System) : s.freshToken.2.roster = s.roster.issue := by
  obtain ⟨words, hwords⟩ := s.device.drawWord_eq s.engine.tokens.counter
  simp only [freshToken, hwords]
  rfl

/-- A command that wipes nothing. -/
theorem post_roster (s : System) {command : Command} (h : command.wiped? = none) :
    (s.post command).roster = s.roster := by
  unfold post
  split
  · simp [roster, onEngine, h]
  · rfl

/-- A wipe is queued. -/
theorem post_wipe (s : System) (names : List String) (observer : Option String) :
    (s.post (.wipe names observer)).roster = s.roster.post names := by
  unfold post Roster.post
  by_cases hloop : s.engine.looping = true
  · rw [if_pos hloop, if_pos (show s.roster.looping = true from hloop)]
    simp [roster, onEngine, Command.wiped?]
  · rw [if_neg hloop, if_neg (show ¬ s.roster.looping = true from hloop)]

/-- A timer that wipes nothing has a number all the same. -/
theorem setTimer_roster (s : System) {action : TimerAction} (h : action.wiped? = none)
    (delay : Nat) : (s.setTimer action delay).2.roster = s.roster.count := by
  simp [setTimer, freshNumber, roster, onEngine, h, Roster.count]

/-- A command that wipes nothing, later. -/
theorem postDelayed_roster (s : System) {command : Command} (h : command.wiped? = none)
    (delay : Nat) : (s.postDelayed command delay).2.roster = s.roster.count :=
  @setTimer_roster s (.post command) h delay

/-- A wipe, later. -/
theorem postDelayed_wipe (s : System) (names : List String) (observer : Option String)
    (delay : Nat) :
    (s.postDelayed (.wipe names observer) delay).2.roster = s.roster.delay names := by
  simp [postDelayed, setTimer, freshNumber, roster, onEngine, TimerAction.wiped?, Command.wiped?,
    Roster.delay, Roster.count]

/-- A timer that is no wipe's can be stopped. -/
theorem stopTimer_roster (s : System) {number : Nat}
    (h : ∀ entry ∈ s.roster.delayed, entry.1 ≠ number) :
    (s.stopTimer number).roster = s.roster := by
  have hsame : (s.engine.timers.filter fun timer => timer.number ≠ number).filterMap
      (fun timer => timer.action.wiped?.map (timer.number, ·)) = s.roster.delayed := by
    rw [List.filterMap_filter]
    refine List.filterMap_congr fun timer hmem => ?_
    cases hwiped : timer.action.wiped? with
    | none => simp
    | some names =>
      have hne : timer.number ≠ number :=
        h (timer.number, names) (List.mem_filterMap.2 ⟨timer, hmem, by rw [hwiped]; rfl⟩)
      simp [hne]
  show ({ s.roster with delayed := (s.engine.timers.filter fun timer =>
    timer.number ≠ number).filterMap fun timer => timer.action.wiped?.map (timer.number, ·) } :
      Roster) = s.roster
  rw [hsame]

@[simp] theorem dispose_roster (s : System) (lease : Option Lease) :
    (s.dispose lease).roster = s.roster := (s.dispose_within lease).roster (by decide)

/-- The operation of a task is struck off. -/
theorem dropToken_roster (s : System) (t : Task) :
    (s.dropToken t).roster = s.roster.forget t.token := by
  unfold dropToken Roster.forget
  cases t.token <;> rfl

/-- A transport is found if it is registered. -/
theorem registered_iff (s : System) (name : String) :
    (s.engine.transports.get? name).isSome = true ↔ name ∈ s.roster.registered :=
  TransportRegistry.lookup_names _ name

@[simp] theorem lend_roster (s : System) (name caller : String) :
    (s.lend name caller).roster = s.roster := (s.lend_within name caller).roster (by decide)

/-! ## Tasks -/

/-- A task moves on to another stage. -/
theorem moveTo_roster (s : System) (t : Task) (stage : Stage) :
    (s.moveTo t stage).roster = s.roster.seat { t with stage } := rfl

/-- A task waits for the answer of its transport. -/
theorem call_roster (s : System) (t : Task) (call : TransportCall) :
    (s.call t call).roster = s.roster.seat { t with stage := .calling call } := by
  rw [System.call, moveTo_roster, note_roster _ rfl]

/-- A task is over. -/
theorem dropTask_roster (s : System) (number : Nat) :
    (s.dropTask number).roster = s.roster.drop number := rfl

/-- A task begins. -/
theorem spawn_roster (s : System) (t : Task) : (s.spawn t).roster = s.roster.enter t := rfl

/-- An operation is canceled, with its task and the agent of that. -/
theorem cancelOperation_roster (s : System) (token : OpToken) :
    (s.cancelOperation token).roster = s.roster.cancel token := by
  have hops : s.roster.ops = s.engine.ops := rfl
  have htasks : s.roster.tasks = s.engine.tasks := rfl
  unfold cancelOperation Roster.cancel
  rw [hops, htasks]
  generalize s.engine.ops.cancel token = answer
  obtain ⟨watcher, ops⟩ := answer
  cases watcher with
  | none => rfl
  | some watcher =>
    cases watcher with
    | agent package => rfl
    | task number =>
      simp only [onEngine]
      cases s.engine.tasks.find? (·.number == number) with
      | none => rfl
      | some t =>
        cases hagent : t.agentToken <;> simp only [hagent] <;> rfl

/-! ## Upkeep -/

@[simp] theorem draw_roster (s : System) (bound : Nat) : (s.draw bound).2.roster = s.roster :=
  (s.draw_within bound).roster (by decide)

@[simp] theorem scheduleKeyValueJob_roster (s : System) :
    s.scheduleKeyValueJob.roster = s.roster := s.scheduleKeyValueJob_within.roster (by decide)

@[simp] theorem scheduleNextFullJob_roster (s : System) (latency : Nat) :
    (s.scheduleNextFullJob latency).roster = s.roster :=
  (s.scheduleNextFullJob_within latency).roster (by decide)

@[simp] theorem requestScheduleWrite_roster (s : System) :
    s.requestScheduleWrite.roster = s.roster := s.requestScheduleWrite_within.roster (by decide)

@[simp] theorem enqueueFull_roster (s : System) (package : String) (lastBackup : Int) :
    (s.enqueueFull package lastBackup).roster = s.roster :=
  (s.enqueueFull_within package lastBackup).roster (by decide)

@[simp] theorem deferFull_roster (s : System) (package : String) (lastBackup dueAt : Int) :
    (s.deferFull package lastBackup dueAt).roster = s.roster :=
  (s.deferFull_within package lastBackup dueAt).roster (by decide)

@[simp] theorem clearRunningFull_roster (s : System) (token : Option OpToken) :
    (s.clearRunningFull token).roster = s.roster :=
  (s.clearRunningFull_within token).roster (by decide)

@[simp] theorem recordProcessed_roster (s : System) (package : String) :
    (s.recordProcessed package).roster = s.roster :=
  (s.recordProcessed_within package).roster (by decide)

@[simp] theorem closeDrained_roster (s : System) (drained : Option Drained) (success : Bool) :
    (s.closeDrained drained success).roster = s.roster :=
  (s.closeDrained_within drained success).roster (by decide)

/-- A transport is marked, or its mark is taken away. -/
theorem setInitPending_roster (s : System) (pending : Bool) (name folderName : String) :
    (s.setInitPending pending name folderName).roster =
      if pending then s.roster.mark name else s.roster.unmark name := by
  have hregistry : ∀ (r : TransportRegistry) (d : Disk),
      (r.setInitPending pending name folderName d).2.1 =
        { r with
          pendingInits := if pending then r.pendingInits.insert name
            else r.pendingInits.erase name } := by
    intro r d
    unfold TransportRegistry.setInitPending
    cases pending with
    | false => rw [if_neg Bool.false_ne_true, if_neg Bool.false_ne_true]
    | true => rw [if_pos rfl, if_pos rfl]
  unfold setInitPending
  have hroster := hregistry s.engine.transports s.disk
  generalize TransportRegistry.setInitPending _ _ _ _ _ = answer at hroster ⊢
  obtain ⟨_, transports, disk⟩ := answer
  obtain rfl : transports = _ := hroster
  cases pending <;> rfl

/-- The wipe of a transport is tried again later. -/
theorem retryInit_roster (s : System) (transport : String) :
    (s.retryInit transport).roster = s.roster.delay [transport] :=
  s.postDelayed_wipe _ _ _

/-- The folder of a transport is known if the transport is registered. -/
theorem folderName_roster (s : System) (name : String) :
    (name ∉ s.roster.registered ∧ ∃ fault, s.engine.transports.folderName name = .error fault) ∨
      (name ∈ s.roster.registered ∧
        ∃ folderName, s.engine.transports.folderName name = .ok folderName) := by
  have hiff := s.registered_iff name
  unfold TransportRegistry.folderName
  cases hget : s.engine.transports.get? name with
  | none =>
    rw [hget] at hiff
    exact .inl ⟨fun hmem => absurd (hiff.2 hmem) nofun, _, rfl⟩
  | some t =>
    rw [hget] at hiff
    exact .inr ⟨hiff.1 rfl, _, rfl⟩

/-- A transport that asked for it is marked and wiped later, if it is registered. -/
theorem markForInit_roster (s : System) (transport : String) :
    (s.markForInit transport).roster = s.roster.heed transport := by
  unfold markForInit Roster.heed
  rcases s.folderName_roster transport with ⟨hunknown, _, hfolder⟩ | ⟨hknown, _, hfolder⟩
  · rw [if_neg hunknown]
    simp only [hfolder]
  · rw [if_pos hknown]
    simp only [hfolder]
    rw [retryInit_roster, setInitPending_roster]
    rfl

/-- A task marks its transport if that asked for it. -/
theorem heedInit_roster (s : System) (t : Task) :
    (s.heedInit t).roster = s.roster.mind t := by
  unfold heedInit Roster.mind
  split
  · exact s.markForInit_roster _
  · rfl

@[simp] theorem writeMetadata_roster (s : System) (transport : String) :
    (s.writeMetadata transport).roster = s.roster :=
  (s.writeMetadata_within transport).roster (by decide)

@[simp] theorem storeDataset_roster (s : System) (transport : String) :
    (s.storeDataset transport).roster = s.roster :=
  (s.storeDataset_within transport).roster (by decide)

@[simp] theorem resetBackupState_roster (s : System) (transport : String) :
    (s.resetBackupState transport).2.roster = s.roster :=
  (s.resetBackupState_within transport).roster (by decide)

/-- Whatever a transport answers, the roster stays as it is. -/
@[simp] theorem answer_roster (s : System) (transport : String) (call : TransportCall) :
    { s with device := (s.device.answer transport call).2 }.roster = s.roster := rfl

@[simp] theorem tearDown_roster (s : System) (p : Package) : (s.tearDown p).roster = s.roster := by
  unfold tearDown
  simp only
  split <;> rfl

end System

end Holdfast
