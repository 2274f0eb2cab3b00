import Holdfast.Proofs.Engine.Footprint
import Holdfast.Proofs.Operation.Table
import Mathlib.Data.List.Nodup

/-!
# The books of the engine

Whatever the engine takes and has to give back shows up in a few fields of its state. The
ledger is the extract of these fields, and this module says what the small operations of the
engine do to it.

- `System.ledger`: the extract;
- `System.Later`: nothing that counts changed, apart from numbers handed out and from what
  observers were told. Upkeep is of this kind (`markForInit_later`, `heedInit_later`, …);
- one equation for each operation that does change the books (`dispose_ledger`,
  `setTask_ledger`, `dropTask_ledger`, …).
-/

namespace Holdfast

/-- What the books say of a task. -/
structure Seat where
  number : Nat
  job : Job
  stage : Stage
  lease : Option Lease
  token : Option OpToken

/-- The entry of a task in the books. -/
def Task.seat (t : Task) : Seat := ⟨t.number, t.job, t.stage, t.lease, t.token⟩

/-- Whether a command hands on something that would be missed if the command were lost. -/
def Command.counts : Command → Bool
  | .requestBackup _ | .passFinished | .startRestore _ | .shutdown => true
  | _ => false

/-- The command that a timer will post, if it counts. -/
def TimerAction.counted? : TimerAction → Option Command
  | .post command => if command.counts then some command else none
  | .expireBind _ => none

/-- Whether an observer was told something. -/
def Device.Notice.isTold : Notice → Bool
  | .result _ _ _ | .finished _ _ => true
  | _ => false

/-- The package whose agent was unbound. -/
def Device.Notice.unbound? : Notice → Option String
  | .agent package .unbind => some package
  | _ => none

/-- The extract of the state in which everything that is taken and given back shows up. -/
structure Ledger where
  leases : List Lease
  nextLease : Nat
  seats : List Seat
  nextNumber : Nat
  /-- Requested backups that wait. -/
  requests : List BackupOrder
  /-- Restores that wait. -/
  restores : List RestoreOrder
  /-- Queued commands that count, oldest first. -/
  commands : List Command
  /-- Commands that count and that timers will post. -/
  delayed : List Command
  looping : Bool
  /-- Tokens in the table of operations. -/
  keys : List OpToken
  passes : Nat
  /-- Token of the scheduled full backup that runs. -/
  full : Option OpToken
  acquired : Nat
  released : Nat
  /-- What observers were told, oldest first. -/
  told : List Device.Notice
  /-- Packages whose agents were unbound, oldest first. -/
  unbound : List String

namespace Ledger

/-- The parts of the state that the books are read from, apart from the numbers handed out. -/
def parts : Footprint :=
  [.leases, .tasks, .waitingRequests, .waitingRestores, .mail .passes, .mail .restores, .mail .loop,
    .timers .others, .looping, .operations, .passes, .runningFull, .wake, .notices .observers,
    .notices .agents]

/-- The books after `k` numbers were handed out and `said` was told. -/
def later (l : Ledger) (k : Nat) (said : List Device.Notice) : Ledger :=
  { l with nextNumber := l.nextNumber + k, told := l.told ++ said }

/-- The books without a lease. -/
def reclaim (l : Ledger) (lease : Option Lease) : Ledger :=
  match lease with
  | some lease => { l with leases := l.leases.filter (fun other => other.number ≠ lease.number) }
  | none => l

/-- The books with one more lease out. -/
def lend (l : Ledger) (lease : Lease) : Ledger :=
  { l with leases := lease :: l.leases, nextLease := l.nextLease + 1 }

/-- The books with another entry for a task. -/
def reseat (l : Ledger) (e : Seat) : Ledger :=
  { l with seats := l.seats.map fun other => if other.number = e.number then e else other }

/-- The books without a task. -/
def unseat (l : Ledger) (number : Nat) : Ledger :=
  { l with seats := l.seats.filter (fun e => e.number ≠ number) }

/-- The books without a token. -/
def forget (l : Ledger) (token : Option OpToken) : Ledger :=
  match token with
  | some token => { l with keys := l.keys.filter (fun key => key ≠ token) }
  | none => l

/-- The books with other tokens. -/
def withKeys (l : Ledger) (keys : List OpToken) : Ledger := { l with keys }

/-- The books with one more command queued. -/
def queue (l : Ledger) (command : Command) : Ledger :=
  { l with commands := l.commands ++ [command] }

/-- The books after a command that counts was posted. It is lost when the loop has stopped. -/
def post (l : Ledger) (command : Command) : Ledger := if l.looping then l.queue command else l

theorem post_looping {l : Ledger} {command : Command} (h : l.looping = true) :
    l.post command = l.queue command := if_pos h

/-- The books after the wake lock was taken. -/
def acquire (l : Ledger) : Ledger := { l with acquired := l.acquired + 1 }

/-- The books after the wake lock was released. -/
def release (l : Ledger) : Ledger := { l with released := l.released + 1 }

/-- The books after an agent was unbound. -/
def unbind (l : Ledger) (package : String) : Ledger :=
  { l with unbound := l.unbound ++ [package] }

/-- The books after the scheduled full backup of a token has ended. -/
def endFull (l : Ledger) (token : Option OpToken) : Ledger :=
  { l with full := if l.full = token then none else l.full }

theorem later_zero (l : Ledger) : l.later 0 [] = l := by simp [later]

/-- Another entry for a task has its number. -/
theorem reseat_numbers (l : Ledger) (e : Seat) :
    (l.reseat e).seats.map (·.number) = l.seats.map (·.number) := by
  rw [reseat, List.map_map]
  refine List.map_congr_left fun other _ => ?_
  simp only [Function.comp_apply]
  split
  · rename_i heq
    exact heq.symm
  · rfl

theorem later_later (l : Ledger) (k k' : Nat) (said said' : List Device.Notice) :
    (l.later k said).later k' said' = l.later (k + k') (said ++ said') := by
  simp [later, Nat.add_assoc]

end Ledger

namespace System

/-- The books of the engine. -/
def ledger (s : System) : Ledger where
  leases := s.engine.transports.leases
  nextLease := s.engine.transports.nextLease
  seats := s.engine.tasks.map Task.seat
  nextNumber := s.engine.nextNumber
  requests := s.engine.waitingRequests
  restores := s.engine.waitingRestores
  commands := s.engine.inbox.filter Command.counts
  delayed := s.engine.timers.filterMap (fun timer => timer.action.counted?)
  looping := s.engine.looping
  keys := s.engine.ops.tokens
  passes := s.engine.runningPasses
  full := s.engine.runningFull.map (·.1)
  acquired := s.device.wakeAcquired
  released := s.device.wakeReleased
  told := (s.device.log.filter Device.Notice.isTold).reverse
  unbound := (s.device.log.filterMap Device.Notice.unbound?).reverse

/-- What is read off the commands that count can be read off the inbox. -/
theorem commands_filterMap {α : Type} (s : System) {f : Command → Option α}
    (hf : ∀ command, command.counts = false → f command = none) :
    s.ledger.commands.filterMap f = s.engine.inbox.filterMap f := by
  show (s.engine.inbox.filter Command.counts).filterMap f = _
  rw [List.filterMap_filter]
  refine List.filterMap_congr fun command _ => ?_
  cases hcounts : command.counts with
  | true => rfl
  | false =>
    rw [hf command hcounts]
    rfl

/-- Nothing on the books changed, apart from numbers handed out and what observers were told. -/
def Later (s : System) (said : List Device.Notice) (s' : System) : Prop :=
  ∃ k, s'.ledger = s.ledger.later k said

namespace Later

variable {s s' s'' : System} {said said' : List Device.Notice}

theorem of_eq (h : s'.ledger = s.ledger) : s.Later [] s' := ⟨0, by rw [h, Ledger.later_zero]⟩

theorem refl : s.Later [] s := of_eq rfl

theorem trans (h : s.Later said s') (h' : s'.Later said' s'') : s.Later (said ++ said') s'' := by
  obtain ⟨k, hk⟩ := h
  obtain ⟨k', hk'⟩ := h'
  exact ⟨k + k', by rw [hk', hk, Ledger.later_later]⟩

/-- Upkeep after something was told. -/
theorem and_eq (h : s.Later said s') (h' : s''.ledger = s'.ledger) : s.Later said s'' := by
  obtain ⟨k, hk⟩ := h
  exact ⟨k, h'.trans hk⟩

theorem delayed (h : s.Later said s') : s'.ledger.delayed = s.ledger.delayed := by
  obtain ⟨k, hk⟩ := h
  rw [hk]
  rfl

end Later

/-- Observers were told nothing. -/
theorem Within.log_told {s s' : System} {parts : Footprint} (h : s.Within parts s')
    (hparts : .notices .observers ∉ parts) :
    s'.device.log.filter Device.Notice.isTold = s.device.log.filter Device.Notice.isTold := by
  simp only [← List.filterMap_eq_filter]
  refine h.log_filterMap hparts fun notice hother => ?_
  cases notice <;> first | rfl | exact absurd rfl hother

/-- No agent was unbound. -/
theorem Within.log_unbound {s s' : System} {parts : Footprint} (h : s.Within parts s')
    (hparts : .notices .agents ∉ parts) :
    s'.device.log.filterMap Device.Notice.unbound? =
      s.device.log.filterMap Device.Notice.unbound? :=
  h.log_filterMap hparts fun notice hother => by
    cases notice <;> first | rfl | exact absurd rfl hother

/-- What keeps away from their parts leaves the books as they are, apart from numbers handed out. -/
theorem Within.later {s s' : System} {parts : Footprint} (h : s.Within parts s')
    (hparts : ∀ p ∈ Ledger.parts, p ∉ parts) : s.Later [] s' := by
  have hleases : (s'.engine.transports.leases, s'.engine.transports.nextLease) =
      (s.engine.transports.leases, s.engine.transports.nextLease) :=
    h.same .leases (hparts _ (by decide))
  have htasks : s'.engine.tasks = s.engine.tasks := h.same .tasks (hparts _ (by decide))
  have hrequests : s'.engine.waitingRequests = s.engine.waitingRequests :=
    h.same .waitingRequests (hparts _ (by decide))
  have hrestores : s'.engine.waitingRestores = s.engine.waitingRestores :=
    h.same .waitingRestores (hparts _ (by decide))
  have hlooping : s'.engine.looping = s.engine.looping := h.same .looping (hparts _ (by decide))
  have hoperations : { s'.engine.ops with clock := 0 } = { s.engine.ops with clock := 0 } :=
    h.same .operations (hparts _ (by decide))
  have hkeys : s'.engine.ops.tokens = s.engine.ops.tokens := by
    have htokens := congrArg OperationTable.tokens hoperations
    exact htokens
  have hpasses : s'.engine.runningPasses = s.engine.runningPasses :=
    h.same .passes (hparts _ (by decide))
  have hfull : s'.engine.runningFull = s.engine.runningFull :=
    h.same .runningFull (hparts _ (by decide))
  have hwake : (s'.device.wakeAcquired, s'.device.wakeReleased) =
      (s.device.wakeAcquired, s.device.wakeReleased) := h.same .wake (hparts _ (by decide))
  have hcommands : s'.engine.inbox.filter Command.counts =
      s.engine.inbox.filter Command.counts := by
    simp only [← List.filterMap_eq_filter]
    refine h.inbox_filterMap fun command hmail => ?_
    have hpasses := hparts (.mail .passes) (by decide)
    have hrestores := hparts (.mail .restores) (by decide)
    have hloop := hparts (.mail .loop) (by decide)
    cases command <;> first | rfl | contradiction
  have hdelayed : s'.engine.timers.filterMap (fun timer => timer.action.counted?) =
      s.engine.timers.filterMap (fun timer => timer.action.counted?) := by
    refine h.timers_filterMap (hparts (.timers .others) (by decide)) fun timer hother => ?_
    cases haction : timer.action with
    | expireBind ticket => rfl
    | post command =>
      rw [haction] at hother
      cases command <;> first | rfl | exact absurd rfl hother
  have htold := h.log_told (hparts _ (by decide))
  have hunbound := h.log_unbound (hparts _ (by decide))
  obtain ⟨hleases, hnext⟩ := Prod.mk.inj hleases
  obtain ⟨hacquired, hreleased⟩ := Prod.mk.inj hwake
  refine ⟨s'.engine.nextNumber - s.engine.nextNumber, ?_⟩
  simp only [ledger, Ledger.later, hleases, hnext, htasks, hrequests, hrestores, hlooping, hkeys,
    hpasses, hfull, hacquired, hreleased, hcommands, hdelayed, htold, hunbound,
    Nat.add_sub_of_le h.numbers, List.append_nil]

/-- Where no number was handed out, the books are as they were. -/
theorem Within.ledger {s s' : System} {parts : Footprint} (h : s.Within parts s')
    (hparts : ∀ p ∈ .numbers :: Ledger.parts, p ∉ parts) : s'.ledger = s.ledger := by
  obtain ⟨k, hk⟩ := h.later fun p hp => hparts p (List.mem_cons_of_mem _ hp)
  have hnumbers : s'.engine.nextNumber = s.engine.nextNumber :=
    h.same .numbers (hparts _ List.mem_cons_self)
  have hsum : s'.ledger.nextNumber = s.ledger.nextNumber + k := by rw [hk]; rfl
  obtain rfl : k = 0 := by
    change s'.engine.nextNumber = s.engine.nextNumber + k at hsum
    omega
  rw [hk, Ledger.later_zero]

/-! ## Notices -/

/-- A notice that is neither for an observer nor about an unbound agent. -/
theorem note_ledger (s : System) {notice : Device.Notice} (h : notice.isTold = false)
    (h' : notice.unbound? = none) : (s.note notice).ledger = s.ledger := by
  simp only [ledger, note, Device.note, List.filter_cons, h, Bool.false_eq_true, if_false,
    List.filterMap_cons, h']

theorem note_told (s : System) {notice : Device.Notice} (h : notice.isTold = true)
    (h' : notice.unbound? = none) : (s.note notice).ledger = s.ledger.later 0 [notice] := by
  simp only [ledger, note, Device.note, List.filter_cons, h, if_true, List.filterMap_cons, h',
    List.reverse_cons, Ledger.later, Nat.add_zero]

theorem note_unbind (s : System) (package : String) :
    (s.note (.agent package .unbind)).ledger = s.ledger.unbind package := by
  simp [ledger, note, Device.note, Device.Notice.isTold, Device.Notice.unbound?, Ledger.unbind]

/-- What an observer is told of a package. -/
def resultNotice (observer : Option String) (package : String) (status : Status) :
    List Device.Notice :=
  observer.toList.map (.result · package status)

/-- What an observer is told at the end. -/
def finishedNotice (observer : Option String) (status : Status) : List Device.Notice :=
  observer.toList.map (.finished · status)

theorem tellResult_ledger (s : System) (observer : Option String) (package : String)
    (status : Status) :
    (s.tellResult observer package status).ledger =
      s.ledger.later 0 (resultNotice observer package status) := by
  cases observer with
  | none => exact (Ledger.later_zero _).symm
  | some id => exact s.note_told rfl rfl

theorem tellFinished_ledger (s : System) (observer : Option String) (status : Status) :
    (s.tellFinished observer status).ledger =
      s.ledger.later 0 (finishedNotice observer status) := by
  cases observer with
  | none => exact (Ledger.later_zero _).symm
  | some id => exact s.note_told rfl rfl

theorem releaseWake_ledger (s : System) : s.releaseWake.ledger = s.ledger.release := rfl

/-! ## Commands and timers -/

theorem post_ledger (s : System) {command : Command} (h : command.counts = false) :
    (s.post command).ledger = s.ledger := by
  unfold post
  split
  · simp [ledger, onEngine, h]
  · rfl

theorem post_counts (s : System) {command : Command} (h : command.counts = true) :
    (s.post command).ledger = s.ledger.post command := by
  unfold post Ledger.post
  by_cases hloop : s.engine.looping = true
  · rw [if_pos hloop, if_pos (show s.ledger.looping = true from hloop)]
    simp [ledger, onEngine, h, Ledger.queue]
  · rw [if_neg hloop, if_neg (show ¬ s.ledger.looping = true from hloop)]

theorem post_counted (s : System) {command : Command} (h : command.counts = true)
    (hloop : s.ledger.looping = true) : (s.post command).ledger = s.ledger.queue command := by
  rw [s.post_counts h, Ledger.post_looping hloop]

/-- A stopped loop gets nothing. -/
theorem post_stopped (s : System) (command : Command) (hloop : s.ledger.looping = false) :
    s.post command = s := if_neg fun h => Bool.false_ne_true (hloop.symm.trans h)

theorem setTimer_later (s : System) {action : TimerAction} (h : action.counted? = none)
    (delay : Nat) : s.Later [] (s.setTimer action delay).2 :=
  ⟨1, by simp [setTimer, freshNumber, ledger, onEngine, Ledger.later, h]⟩

theorem postDelayed_later (s : System) {command : Command} (h : command.counts = false)
    (delay : Nat) : s.Later [] (s.postDelayed command delay).2 :=
  s.setTimer_later (by simp [TimerAction.counted?, h]) delay

/-- Fewer timers lose no command that counts if none is on a timer. -/
theorem withTimers_ledger (s : System) {timers : List Timer} (hsubset : timers ⊆ s.engine.timers)
    (h : s.ledger.delayed = []) : (s.onEngine fun e => { e with timers }).ledger = s.ledger := by
  have hnone : ∀ timer ∈ s.engine.timers, timer.action.counted? = none :=
    List.filterMap_eq_nil_iff.1 h
  have hstill : timers.filterMap (fun timer => timer.action.counted?) = [] :=
    List.filterMap_eq_nil_iff.2 fun timer hmem => hnone timer (hsubset hmem)
  show { s.ledger with delayed := timers.filterMap fun timer => timer.action.counted? } = s.ledger
  rw [hstill, ← h]

theorem stopTimer_ledger (s : System) (number : Nat) (h : s.ledger.delayed = []) :
    (s.stopTimer number).ledger = s.ledger :=
  s.withTimers_ledger List.filter_sublist.subset h

/-! ## Leases, tasks and tokens -/

theorem dispose_ledger (s : System) (lease : Option Lease) :
    (s.dispose lease).ledger = s.ledger.reclaim lease := by
  cases lease <;> rfl

theorem lend_ledger (s : System) (name caller : String) :
    (s.lend name caller).ledger =
      s.ledger.lend (s.engine.transports.nextLeaseOf name caller) := rfl

theorem setTask_ledger (s : System) (t : Task) : (s.setTask t).ledger = s.ledger.reseat t.seat := by
  simp only [setTask, ledger, onEngine, Ledger.reseat, List.map_map]
  congr 1
  refine List.map_congr_left fun other _ => ?_
  simp only [Function.comp]
  split
  · rename_i h
    rw [if_pos (show other.seat.number = t.seat.number from h)]
  · rename_i h
    rw [if_neg (show other.seat.number ≠ t.seat.number from h)]

theorem moveTo_ledger (s : System) (t : Task) (stage : Stage) :
    (s.moveTo t stage).ledger = s.ledger.reseat { t.seat with stage } :=
  s.setTask_ledger _

theorem dropTask_ledger (s : System) (number : Nat) :
    (s.dropTask number).ledger = s.ledger.unseat number := by
  simp only [dropTask, ledger, onEngine, Ledger.unseat, List.filter_map]
  rfl

theorem call_ledger (s : System) (t : Task) (call : TransportCall) :
    (s.call t call).ledger = s.ledger.reseat { t.seat with stage := .calling call } := by
  rw [System.call, moveTo_ledger, note_ledger _ rfl rfl]

theorem dropToken_ledger (s : System) (t : Task) :
    (s.dropToken t).ledger = s.ledger.forget t.token := by
  unfold dropToken
  cases t.token with
  | none => rfl
  | some token =>
    simp only [ledger, onEngine, Ledger.forget]
    rw [OperationTable.tokens_remove]

/-- Each number belongs to one task. -/
def Distinct (s : System) : Prop := (s.ledger.seats.map (·.number)).Nodup

/-- Replacing a task by one with the same entry changes nothing on the books. -/
theorem setTask_same {s : System} (hs : s.Distinct) {task task' : Task}
    (hmem : task ∈ s.engine.tasks) (hseat : task'.seat = task.seat) :
    (s.setTask task').ledger = s.ledger := by
  rw [setTask_ledger, hseat]
  have hsame : ∀ e ∈ s.ledger.seats,
      (if e.number = task.seat.number then task.seat else e) = e := by
    intro e he
    split
    · rename_i hnumber
      exact (List.inj_on_of_nodup_map hs he (List.mem_map_of_mem hmem) hnumber).symm
    · rfl
  rw [Ledger.reseat, List.map_congr_left hsame, List.map_id']

theorem withOps_ledger (s : System) (f : OperationTable Watcher → OperationTable Watcher) :
    (s.onEngine fun e => { e with ops := f e.ops }).ledger =
      s.ledger.withKeys (f s.engine.ops).tokens := rfl

/-- Canceling operations touches neither tasks nor other tokens, as far as the books go. -/
theorem cancelOperation_ledger {s : System} (hs : s.Distinct) (token : OpToken) :
    ∃ keys, keys ⊆ s.ledger.keys ∧ (s.cancelOperation token).ledger = s.ledger.withKeys keys := by
  have hfirst := s.engine.ops.cancel_subset token
  unfold cancelOperation
  simp only
  generalize (s.engine.ops.cancel token).2 = ops at hfirst ⊢
  have hledger : (s.onEngine fun e => { e with ops }).ledger = s.ledger.withKeys ops.tokens := rfl
  split
  · split
    · rename_i task hfind
      have hset := setTask_same (s := s.onEngine fun e => { e with ops }) hs
        (List.mem_of_find?_eq_some hfind)
        (rfl : Task.seat { task with canceled := true, agentToken := none } = task.seat)
      split
      · rename_i agentToken _
        refine ⟨_, List.Subset.trans (ops.cancel_subset agentToken) hfirst, ?_⟩
        rw [withOps_ledger _ fun ops => (ops.cancel agentToken).2, hset]
        rfl
      · exact ⟨_, hfirst, hset.trans hledger⟩
    · exact ⟨_, hfirst, rfl⟩
  · exact ⟨_, hfirst, rfl⟩
  · exact ⟨_, hfirst, rfl⟩

/-! ## Upkeep -/

/-- A token that is issued stands in no book yet. -/
theorem freshToken_ledger (s : System) : s.freshToken.2.ledger = s.ledger :=
  s.freshToken_within.ledger (by decide)

theorem scheduleKeyValueJob_ledger (s : System) : s.scheduleKeyValueJob.ledger = s.ledger :=
  s.scheduleKeyValueJob_within.ledger (by decide)

theorem scheduleNextFullJob_ledger (s : System) (latency : Nat) :
    (s.scheduleNextFullJob latency).ledger = s.ledger :=
  (s.scheduleNextFullJob_within latency).ledger (by decide)

theorem requestScheduleWrite_ledger (s : System) : s.requestScheduleWrite.ledger = s.ledger :=
  s.requestScheduleWrite_within.ledger (by decide)

theorem enqueueFull_ledger (s : System) (package : String) (lastBackup : Int) :
    (s.enqueueFull package lastBackup).ledger = s.ledger :=
  (s.enqueueFull_within package lastBackup).ledger (by decide)

theorem deferFull_ledger (s : System) (package : String) (lastBackup dueAt : Int) :
    (s.deferFull package lastBackup dueAt).ledger = s.ledger :=
  (s.deferFull_within package lastBackup dueAt).ledger (by decide)

theorem closeDrained_ledger (s : System) (drained : Option Drained) (success : Bool) :
    (s.closeDrained drained success).ledger = s.ledger :=
  (s.closeDrained_within drained success).ledger (by decide)

theorem setInitPending_ledger (s : System) (pending : Bool) (name folderName : String) :
    (s.setInitPending pending name folderName).ledger = s.ledger :=
  (s.setInitPending_within pending name folderName).ledger (by decide)

theorem retryInit_later (s : System) (transport : String) : s.Later [] (s.retryInit transport) :=
  (s.retryInit_within transport).later (by decide)

theorem heedInit_later (s : System) (t : Task) : s.Later [] (s.heedInit t) :=
  (s.heedInit_within t).later (by decide)

theorem resetBackupState_ledger (s : System) (transport : String) :
    (s.resetBackupState transport).2.ledger = s.ledger :=
  (s.resetBackupState_within transport).ledger (by decide)

theorem answer_ledger (s : System) (transport : String) (call : TransportCall) :
    { s with device := (s.device.answer transport call).2 }.ledger = s.ledger := rfl

theorem writeMetadata_ledger (s : System) (transport : String) :
    (s.writeMetadata transport).ledger = s.ledger :=
  (s.writeMetadata_within transport).ledger (by decide)

theorem storeDataset_ledger (s : System) (transport : String) :
    (s.storeDataset transport).ledger = s.ledger :=
  (s.storeDataset_within transport).ledger (by decide)

/-- The spread of the delay is drawn after the mark for wiping, if any, was set. -/
theorem drawnRetry_later (s : System) (t : Task) : s.Later [] (s.drawnRetry t) :=
  (s.drawnRetry_within t).later (by decide)

end System

end Holdfast
