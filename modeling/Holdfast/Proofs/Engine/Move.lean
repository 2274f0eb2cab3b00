import Holdfast.Proofs.Engine.FootprintWork
import Holdfast.Proofs.Engine.Turn

/-!
# What commands and calls do to the books

Next to the steps of tasks, the books change when the control loop carries out a command, when
a timer or a deadline goes off, and when somebody calls into the engine.

- `Ledger.Deed`: everything that such an event can do. A lease is handed out, moves from a call
  to a command, from a command to a task or to the line, and from the line to a task;
- `Ledger.Move`: a deed after some upkeep;
- `System.handle_move`: **each command is of this kind**, and so are timers
  (`System.fireTimers_ledger`) and events of the operation table (`System.handleEvent_move`).
-/

namespace Holdfast

namespace Ledger

/-- The books with a new task, which stands before its first step. -/
def enter (l : Ledger) (job : Job) (lease : Option Lease) (token : Option OpToken) : Ledger :=
  { l with
    seats := l.seats ++ [⟨l.nextNumber, job, .opening, lease, token⟩]
    nextNumber := l.nextNumber + 1 }

/-- The books with a new key-value pass. -/
def startPass (l : Ledger) (order : BackupOrder) (drained : Option Drained) (token : OpToken) :
    Ledger :=
  { l with passes := l.passes + 1 }.enter
    (.keyValue drained order.keyValue order.full order.observer order.nonIncremental)
    (some order.lease) (some token)

/-- What an event adds to the history: a requested backup that was accepted, or one whose pass
began, with the number of its task. -/
structure Gain where
  accepted : List BackupOrder := []
  begun : List (Nat × BackupOrder) := []

/-- Everything that an event other than the step of a task can do to the books and to the leases
in the hands of callers. -/
inductive Deed (l : Ledger) (hand : List Lease) : Ledger → List Lease → Gain → Prop where
  /-- Tasks and leases are lined up anew, and operations are forgotten. -/
  | settle {keys : List OpToken} {seats : List Seat} {hand' : List Lease} :
    keys ⊆ l.keys → l.seats.Perm seats → hand.Perm hand' →
    Deed l hand { l with keys, seats } hand' {}
  /-- A call takes a lease. -/
  | lend {lease : Lease} :
    lease.number = l.nextLease → Deed l hand (l.lend lease) (lease :: hand) {}
  /-- A call gives its lease back. -/
  | giveBack {lease : Lease} {hand' : List Lease} :
    hand.Perm (lease :: hand') → Deed l hand (l.reclaim (some lease)) hand' {}
  /-- A backup is requested. -/
  | request {order : BackupOrder} :
    l.looping = true → order.lease.number = l.nextLease →
    Deed l hand ((l.lend order.lease).queue (.requestBackup order)) hand { accepted := [order] }
  /-- A restore is requested. -/
  | submit {order : RestoreOrder} :
    l.looping = true → order.lease.number = l.nextLease →
    Deed l hand ((l.lend order.lease).queue (.startRestore order)) hand {}
  /-- A requested backup gets in line behind the pass that runs. -/
  | wait {order : BackupOrder} {rest : List Command} :
    l.commands = .requestBackup order :: rest → 0 < l.passes →
    Deed l hand { l with commands := rest, requests := l.requests ++ [order] } hand {}
  /-- A requested backup begins at once. -/
  | serve {order : BackupOrder} {rest : List Command} {token : OpToken} {keys : List OpToken} :
    l.commands = .requestBackup order :: rest → l.passes = 0 → keys ⊆ token :: l.keys →
    Deed l hand (({ l with commands := rest }.withKeys keys).startPass order none token) hand
      { begun := [(l.nextNumber, order)] }
  /-- The loop learns that a pass ended, and nobody is in line. -/
  | hear {rest : List Command} :
    l.commands = .passFinished :: rest → l.requests = [] →
    Deed l hand { l with commands := rest, passes := l.passes - 1 } hand {}
  /-- The loop learns that a pass ended, and the next one begins. -/
  | next {order : BackupOrder} {rest : List Command} {waiting : List BackupOrder}
      {token : OpToken} {keys : List OpToken} :
    l.commands = .passFinished :: rest → l.requests = order :: waiting →
    keys ⊆ token :: l.keys →
    Deed l hand
      (({ l with commands := rest, requests := waiting, passes := l.passes - 1 }.withKeys
        keys).startPass order none token) hand
      { begun := [(l.nextNumber, order)] }
  /-- A restore gets in line behind the one that runs. -/
  | hold {order : RestoreOrder} {rest : List Command} :
    l.commands = .startRestore order :: rest →
    Deed l hand { l with commands := rest, restores := l.restores ++ [order] } hand {}
  /-- A restore begins at once. -/
  | restore {order : RestoreOrder} {rest : List Command} :
    l.commands = .startRestore order :: rest →
    Deed l hand ({ l with commands := rest }.enter (.restore order order.packages)
      (some order.lease) none) hand {}
  /-- The next restore in line begins. -/
  | nextRestore {order : RestoreOrder} {rest : List RestoreOrder} :
    l.restores = order :: rest →
    Deed l hand ({ l with restores := rest }.enter (.restore order order.packages)
      (some order.lease) none) hand {}
  /-- A pass over everything pending begins. -/
  | drain {order : BackupOrder} {drained : Drained} {token : OpToken} {keys : List OpToken} :
    order.lease.number = l.nextLease → l.passes = 0 → keys ⊆ token :: l.keys →
    Deed l hand (((l.lend order.lease).withKeys keys).startPass order (some drained) token) hand {}
  /-- A scheduled full backup begins. -/
  | full {package : Package} {lastBackup : Int} {lease : Lease} {token : OpToken}
      {keys : List OpToken} :
    lease.number = l.nextLease → l.full = none → keys ⊆ token :: l.keys →
    Deed l hand
      ({ (l.lend lease).withKeys keys with full := some token }.acquire.enter
        (.full package lastBackup) (some lease) (some token)) hand {}
  /-- A wipe begins. -/
  | wipe {transports : List String} {observer : Option String} {overall : Status} :
    Deed l hand (l.enter (.wipe transports observer overall) none none) hand {}
  /-- The data of a package begins to be cleared. -/
  | clear {package : String} {lease : Lease} :
    lease.number = l.nextLease →
    Deed l hand ((l.lend lease).enter (.clearData package) (some lease) none) hand {}

/-- A deed after some upkeep, in which an observer may have heard of packages that cannot be backed
up. -/
def Move (l : Ledger) (hand : List Lease) (l' : Ledger) (hand' : List Lease) (gain : Gain) : Prop :=
  ∃ k observer said, Device.AreResults observer said ∧ Deed (l.later k said) hand l' hand' gain

namespace Move

variable {l l' : Ledger} {hand hand' : List Lease} {gain : Gain}

/-- A deed after upkeep in which nothing was told. -/
theorem of_silent {k : Nat} (h : Deed (l.later k []) hand l' hand' gain) :
    Move l hand l' hand' gain :=
  ⟨k, none, [], fun _ hmem => absurd hmem List.not_mem_nil, h⟩

theorem of_deed (h : Deed l hand l' hand' gain) : Move l hand l' hand' gain :=
  of_silent (k := 0) (by rwa [later_zero])

/-- Operations may be forgotten. -/
theorem of_keys {keys : List OpToken} (h : keys ⊆ l.keys) :
    Move l hand (l.withKeys keys) hand {} :=
  of_deed (.settle h (.refl _) (.refl _))

theorem refl : Move l hand l hand {} := of_keys (List.Subset.refl _)

/-- A lease changes hands outside the engine. -/
theorem of_hand (h : hand.Perm hand') : Move l hand l hand' {} :=
  of_deed (.settle (List.Subset.refl _) (.refl _) h)

/-- Upkeep alone. -/
theorem of_later {s s' : System} (h : s.Later [] s') : Move s.ledger hand s'.ledger hand {} := by
  obtain ⟨k, hk⟩ := h
  rw [hk]
  exact of_silent (.settle (List.Subset.refl _) (.refl _) (.refl _))

theorem of_eq {s s' : System} (h : s'.ledger = s.ledger) :
    Move s.ledger hand s'.ledger hand {} := of_later (.of_eq h)

/-- Upkeep before. -/
theorem after_later {s s' : System} (hlater : s.Later [] s')
    (h : Move s'.ledger hand l' hand' gain) : Move s.ledger hand l' hand' gain := by
  obtain ⟨k, hk⟩ := hlater
  obtain ⟨k', observer, said, hresults, h⟩ := h
  rw [hk, later_later] at h
  exact ⟨_, observer, said, hresults, h⟩

end Move

end Ledger

namespace System

open Ledger

variable {s : System} {hand : List Lease}

/-! ## Starting tasks -/

theorem spawn_ledger (s : System) (task : Task) :
    (s.spawn task).ledger = { s.ledger with seats := s.ledger.seats ++ [task.seat] } := by
  simp [spawn, ledger, onEngine]

/-- A pass begins under a token of its own. -/
theorem startKeyValue_ledger (s : System) (order : BackupOrder) (drained : Option Drained) :
    ∃ token keys, keys ⊆ token :: s.ledger.keys ∧
      (s.startKeyValue order.lease drained order.keyValue order.full order.observer
        order.nonIncremental).ledger =
        (s.ledger.withKeys keys).startPass order drained token := by
  have hledger := s.freshToken_ledger
  unfold startKeyValue
  simp only [spawn_ledger]
  generalize s.freshToken = fresh at hledger ⊢
  obtain ⟨token, s'⟩ := fresh
  rw [← hledger]
  exact ⟨_, _, s'.engine.ops.tokens_registerTask _ (.task s'.engine.nextNumber), rfl⟩

theorem runKeyValue_move : Move s.ledger hand s.runKeyValue.ledger hand {} := by
  refine runKeyValue_elim ?stays ?putsOff ?drains
  case stays => exact fun _ => .refl
  case putsOff => exact .of_eq s.scheduleKeyValueJob_ledger
  case drains =>
    intro name packages hidle _
    obtain ⟨token, keys, hkeys, hstart⟩ := startKeyValue_ledger
      ((s.lend name "key-value").onEngine fun e => { e with pending := s.engine.pending.drain.2 })
      ⟨s.engine.transports.nextLeaseOf name "key-value", packages, [], none, false⟩
      (some s.engine.pending.drain.1)
    rw [hstart]
    exact .of_deed (@Deed.drain _ _ ⟨_, packages, [], none, false⟩ _ _ _ rfl hidle hkeys)

theorem startInit_move (transports : List String) (observer : Option String) :
    Move s.ledger hand (s.startInit transports observer).ledger hand {} := by
  unfold startInit
  split
  · exact .refl
  · simp only [spawn_ledger]
    exact .of_deed .wipe

theorem startClearData_move (transport package : String) :
    Move s.ledger hand (s.startClearData transport package).ledger hand {} := by
  refine startClearData_elim ?putsOff ?starts
  case putsOff => exact .of_later (s.postDelayed_later rfl _)
  case starts =>
    rw [spawn_ledger]
    exact .of_deed (.clear rfl)

/-! ## The line of requested backups -/

/-- A requested backup gets in line or begins. -/
theorem startRequested_deed {order : BackupOrder} {rest : List Command} {l : Ledger}
    (hcommands : l.commands = .requestBackup order :: rest)
    (hledger : s.ledger = { l with commands := rest }) :
    ∃ gain, Deed l hand (s.startRequested order).ledger hand gain ∧ gain.accepted = [] := by
  have hpasses : s.engine.runningPasses = l.passes := congrArg Ledger.passes hledger
  unfold startRequested
  split
  · rename_i hrunning
    have hrunning' : 0 < l.passes := by simpa [isBackupRunning, hpasses] using hrunning
    have hwait : (s.onEngine fun e =>
        { e with waitingRequests := e.waitingRequests ++ [order] }).ledger =
          { s.ledger with requests := s.ledger.requests ++ [order] } := rfl
    rw [hwait, hledger]
    exact ⟨_, .wait hcommands hrunning', rfl⟩
  · rename_i hidle
    have hidle' : l.passes = 0 := by simpa [isBackupRunning, hpasses] using hidle
    obtain ⟨token, keys, hkeys, hstart⟩ := s.startKeyValue_ledger order none
    rw [hledger] at hkeys
    rw [hstart, hledger]
    exact ⟨_, .serve hcommands hidle' hkeys, rfl⟩

/-- The end of a pass is heard, and the next one in line begins. -/
theorem handlePassFinished_deed {rest : List Command} {l : Ledger}
    (hcommands : l.commands = .passFinished :: rest)
    (hledger : s.ledger = { l with commands := rest }) (hsingle : l.passes ≤ 1) :
    ∃ gain, Deed l hand s.handlePassFinished.ledger hand gain ∧ gain.accepted = [] := by
  have hpasses : s.engine.runningPasses = l.passes := congrArg Ledger.passes hledger
  have hrequests : s.engine.waitingRequests = l.requests := congrArg Ledger.requests hledger
  refine handlePassFinished_elim ?hears ?begins
  case hears =>
    intro hlast
    have hnone : l.requests = [] := by
      rw [hpasses, hrequests] at hlast
      exact hlast.resolve_left (by omega)
    have hheard : (s.onEngine fun e => { e with runningPasses := e.runningPasses - 1 }).ledger =
        { l with commands := rest, passes := l.passes - 1 } := by
      show { s.ledger with passes := s.ledger.passes - 1 } = _
      rw [hledger]
    rw [hheard]
    exact ⟨_, .hear hcommands hnone, rfl⟩
  case begins =>
    intro order waiting _ hwaiting
    have hleft : (s.onEngine fun e =>
        { e with runningPasses := e.runningPasses - 1, waitingRequests := waiting }).ledger =
        { l with commands := rest, requests := waiting, passes := l.passes - 1 } := by
      show { s.ledger with passes := s.ledger.passes - 1, requests := waiting } = _
      rw [hledger]
    generalize (s.onEngine fun e =>
      { e with runningPasses := e.runningPasses - 1, waitingRequests := waiting }) = s' at hleft ⊢
    have hidle : ¬ s'.isBackupRunning = true := by
      have hpasses' : s'.engine.runningPasses = l.passes - 1 := congrArg Ledger.passes hleft
      simp only [isBackupRunning, hpasses', decide_eq_true_eq]
      omega
    obtain ⟨token, keys, hkeys, hstart⟩ := s'.startKeyValue_ledger order none
    rw [hleft] at hkeys
    rw [startRequested, if_neg hidle, hstart, hleft]
    exact ⟨_, .next hcommands (hrequests ▸ hwaiting) hkeys, rfl⟩

/-! ## Restores and their sessions -/

theorem dropTimer_ledger (s : System) (timer : Option Nat) (h : s.ledger.delayed = []) :
    (s.dropTimer timer).ledger = s.ledger := by
  cases timer with
  | none => rfl
  | some timer => exact s.stopTimer_ledger timer h

theorem replaceSessionTimer_ledger (s : System) (session : Nat) (timer : Option Nat)
    (h : s.ledger.delayed = []) : (s.replaceSessionTimer session timer).ledger = s.ledger := by
  unfold replaceSessionTimer
  split
  · split
    · exact s.dropTimer_ledger _ h
    · exact s.dropTimer_ledger _ h
  · exact s.dropTimer_ledger _ h

theorem armSession_later (s : System) (session : Nat) (h : s.ledger.delayed = []) :
    s.Later [] (s.armSession session) := by
  have htimer := @postDelayed_later s (.sessionTimeout session) rfl s.engine.settings.restoreTimeout
  unfold armSession
  exact htimer.and_eq (replaceSessionTimer_ledger _ _ _ (htimer.delayed.trans h))

theorem closeSession_ledger (s : System) (session : Nat) (h : s.ledger.delayed = []) :
    (s.closeSession session).ledger = s.ledger := by
  unfold closeSession
  split
  · split
    · exact s.dropTimer_ledger _ h
    · rfl
  · rfl

theorem spawnRestore_ledger (s : System) (order : RestoreOrder) :
    (s.spawnRestore order).ledger =
      s.ledger.enter (.restore order order.packages) (some order.lease) none :=
  spawn_ledger _ _

/-- A restore gets in line or begins. -/
theorem admitRestore_deed {order : RestoreOrder} {rest : List Command} {l : Ledger}
    (hcommands : l.commands = .startRestore order :: rest)
    (hledger : s.ledger = { l with commands := rest }) :
    Deed l hand (s.admitRestore order).ledger hand {} := by
  unfold admitRestore
  split
  · have hwait : (s.onEngine fun e =>
        { e with waitingRestores := e.waitingRestores ++ [order] }).ledger =
          { s.ledger with restores := s.ledger.restores ++ [order] } := rfl
    rw [hwait, hledger]
    exact .hold hcommands
  · have hmark : (s.onEngine fun e => { e with restoring := true }).ledger = s.ledger := rfl
    rw [spawnRestore_ledger, hmark, hledger]
    exact .restore hcommands

theorem startRestore_deed {order : RestoreOrder} {rest : List Command} {l : Ledger}
    (hcommands : l.commands = .startRestore order :: rest)
    (hledger : s.ledger = { l with commands := rest }) (hdelayed : l.delayed = []) :
    Deed l hand (s.startRestore order).ledger hand {} := by
  have hdelayed' : s.ledger.delayed = [] := by rw [hledger]; exact hdelayed
  unfold startRestore
  cases order.session with
  | none => exact admitRestore_deed hcommands hledger
  | some session =>
    have hsession := s.replaceSessionTimer_ledger session none hdelayed'
    exact admitRestore_deed hcommands (hsession.trans hledger)

/-- The restore that waits first begins when another one has ended. -/
theorem startNextRestore_move {s' : System} (hlater : s.Later [] s') :
    Move s.ledger hand s'.startNextRestore.ledger hand {} := by
  unfold startNextRestore
  split
  · exact .of_later (hlater.and_eq rfl)
  · rename_i order rest hwaiting
    rw [spawnRestore_ledger]
    exact .after_later hlater (.of_deed (.nextRestore hwaiting))

theorem handleRestoreFinished_move (session : Option Nat) (hdelayed : s.ledger.delayed = []) :
    Move s.ledger hand (s.handleRestoreFinished session).ledger hand {} := by
  unfold handleRestoreFinished
  cases session with
  | none => exact startNextRestore_move .refl
  | some session =>
    apply startNextRestore_move
    show s.Later [] (if s.isSession session then s.armSession session else s)
    split
    · exact s.armSession_later session hdelayed
    · exact .refl

/-! ## The loop -/

/-- What has to hold for commands to be carried out as they should. -/
structure Steady (s : System) : Prop where
  distinct : s.Distinct
  delayed : s.ledger.delayed = []
  single : s.ledger.passes ≤ 1

/-- A command that does not count. -/
theorem handle_quiet {command : Command} (hcounts : command.counts = false)
    (hdelayed : s.ledger.delayed = []) :
    Move s.ledger hand (s.handle command).ledger hand {} := by
  cases command with
  | dataChanged package targets => exact .of_eq (scheduleKeyValueJob_ledger _)
  | runKeyValue => exact runKeyValue_move
  | wipe transports observer => exact startInit_move transports observer
  | clearData transport package => exact startClearData_move transport package
  | writeSchedule => exact .refl
  | restoreFinished session => exact handleRestoreFinished_move session hdelayed
  | sessionTimeout session => exact .of_eq (s.closeSession_ledger session hdelayed)
  | snapshot => exact .refl
  | requestBackup order | passFinished | startRestore order | shutdown => cases hcounts

/-- **Each command is a move.** It takes effect when the loop takes it from its inbox. -/
theorem handle_move {command : Command} {rest : List Command} (hs : s.Steady)
    (hinbox : s.engine.inbox = command :: rest) (hstop : command ≠ .shutdown) :
    ∃ gain, Move s.ledger hand
      ((s.onEngine fun e => { e with inbox := rest }).handle command).ledger hand gain ∧
      gain.accepted = [] := by
  have htaken : (s.onEngine fun e => { e with inbox := rest }).ledger =
      { s.ledger with commands := rest.filter Command.counts } := rfl
  have hcommands : s.ledger.commands = (command :: rest).filter Command.counts := by
    rw [← hinbox]
    rfl
  generalize (s.onEngine fun e => { e with inbox := rest }) = s' at htaken ⊢
  cases hcounts : command.counts with
  | false =>
    rw [List.filter_cons_of_neg (by simp [hcounts])] at hcommands
    have hsame : s'.ledger = s.ledger := by rw [htaken, ← hcommands]
    have hquiet := @handle_quiet s' hand command hcounts (by rw [hsame]; exact hs.delayed)
    rw [hsame] at hquiet
    exact ⟨_, hquiet, rfl⟩
  | true =>
    rw [List.filter_cons_of_pos hcounts] at hcommands
    cases command with
    | requestBackup order =>
      obtain ⟨gain, hdeed, hgain⟩ := startRequested_deed hcommands htaken
      exact ⟨gain, .of_deed hdeed, hgain⟩
    | passFinished =>
      obtain ⟨gain, hdeed, hgain⟩ := handlePassFinished_deed hcommands htaken hs.single
      exact ⟨gain, .of_deed hdeed, hgain⟩
    | startRestore order =>
      exact ⟨_, .of_deed (startRestore_deed hcommands htaken hs.delayed), rfl⟩
    | shutdown => exact absurd rfl hstop
    | dataChanged | runKeyValue | wipe | clearData | writeSchedule | restoreFinished
      | sessionTimeout | snapshot => cases hcounts

theorem handleEvent_move (event : OpEvent Watcher) (hs : s.Distinct) :
    Move s.ledger hand (s.handleEvent event).ledger hand {} := by
  cases event with
  | completed _ _ _ => exact .refl
  | deadlineElapsed token =>
    simp only [handleEvent]
    split
    · obtain ⟨keys, hkeys, hcancel⟩ := cancelOperation_ledger hs token
      rw [hcancel]
      exact .of_keys hkeys
    · exact .refl

/-- Timers post only commands that do not count. -/
theorem fireTimers_ledger (s : System) (hdelayed : s.ledger.delayed = []) :
    s.fireTimers.ledger = s.ledger := by
  have hnone : ∀ timer ∈ s.engine.timers, timer.action.counted? = none :=
    List.filterMap_eq_nil_iff.1 hdelayed
  have hfold : ∀ (due : List Timer) (s : System),
      (∀ timer ∈ due, timer.action.counted? = none) → (due.foldl goOff s).ledger = s.ledger := by
    intro due
    induction due with
    | nil => exact fun _ _ => rfl
    | cons timer due ih =>
      intro s hdue
      rw [List.foldl_cons, ih _ fun other hmem => hdue other (List.mem_cons_of_mem _ hmem)]
      have htimer := hdue timer List.mem_cons_self
      unfold goOff
      cases haction : timer.action with
      | expireBind ticket => rfl
      | post command =>
        refine s.post_ledger ?_
        simpa [TimerAction.counted?, haction] using htimer
  have hdue : ∀ timer ∈ s.dueTimers, timer.action.counted? = none :=
    fun timer hmem => hnone timer (List.mem_filter.1 hmem).1
  simp only [fireTimers, hfold _ _ hdue]
  exact s.withTimers_ledger List.filter_sublist.subset hdelayed

/-- Tasks are lined up anew. -/
theorem reorder_move {tasks : List Task} (h : s.engine.tasks.Perm tasks) :
    Move s.ledger hand (s.onEngine fun e => { e with tasks }).ledger hand {} :=
  .of_deed (.settle (List.Subset.refl _) (h.map Task.seat) (.refl _))

theorem sendBack_move (number : Nat) : Move s.ledger hand (s.sendBack number).ledger hand {} := by
  have hperm := List.filter_append_perm (fun task : Task => decide (task.number ≠ number))
    s.engine.tasks
  have hsame : (fun task : Task => !decide (task.number ≠ number)) =
      fun task => decide (task.number = number) := by
    funext task
    simp
  rw [hsame] at hperm
  exact reorder_move hperm.symm

theorem wake_move (transport : String) (method : TransportMethod) :
    Move s.ledger hand (s.wake transport method).ledger hand {} := by
  unfold wake
  split
  · have hperm := List.filter_append_perm (waitsFor transport method) s.engine.tasks
    exact reorder_move (hperm.symm.trans List.perm_append_comm)
  · exact .refl

end System

end Holdfast
