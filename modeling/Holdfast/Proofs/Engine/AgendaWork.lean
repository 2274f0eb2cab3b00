import Holdfast.Proofs.Engine.Selection

/-!
# What commands and calls do to the agenda

- `System.runKeyValue_agenda`: a tick of the key-value job;
- `System.fireTimers_agenda`: timers, of which none has a chore;
- `System.setEnabled_agenda`, `System.setProvisioned_agenda`: **whoever allows backups arms the
  key-value job**;
- `System.packageAdded_agenda`, `System.packageRemoved_agenda`: what is heard of packages;
- equations for the other commands and calls whose footprints have parts in common with the agenda.
-/

namespace Holdfast

namespace Agenda

/-- The participants after a package was heard of. -/
def joined (a : Agenda) (package : String) (p : Package) (replacing : Bool) :
    List (Nat × NameSet) :=
  let others :=
    if replacing then System.withoutParticipant a.participants package else a.participants
  if p.isParticipant then System.withParticipant others p.uid package else others

/-- A package was installed, or installed anew. -/
def add (a : Agenda) (package : String) (p : Package) (replacing : Bool) : Agenda :=
  ({ a with participants := a.joined package p replacing } : Agenda).reschedule
    (if p.getsFullBackup then a.schedule.enqueue package a.now else a.schedule.dequeue package)

/-- What the arrival of a package changes, apart from the request for the schedule to be written. -/
theorem add_eq (a : Agenda) (package : String) (p : Package) (replacing : Bool) :
    ∃ writing mail, a.add package p replacing =
      { a with
        participants := a.joined package p replacing
        schedule :=
          if p.getsFullBackup then a.schedule.enqueue package a.now
          else a.schedule.dequeue package
        writing, mail } :=
  request_eq _

/-- A package was uninstalled. -/
def remove (a : Agenda) (package : String) : Agenda :=
  { a with
    participants :=
      (System.withoutParticipant a.participants package).filter (fun entry => !entry.2.isEmpty)
    pending := (a.pending.remove package).2 }

end Agenda

namespace System

open Agenda

variable {s : System}

/-! ## Commands -/

/-- A change is recorded for its package if its caller may announce it, and the job of passes is
armed. -/
theorem handleDataChanged_agenda (s : System) (package : String) (targets : NameSet) :
    (s.handleDataChanged package targets).agenda =
      ({ s.agenda with
        pending := (s.agenda.pending.record package targets s.disk).2.1 } : Agenda).arm := by
  rw [handleDataChanged, scheduleKeyValueJob_agenda]
  rfl

/-- A pass begins with the packages that it has drained. -/
theorem startKeyValue_agenda (s : System) (lease : Lease) (drained : Option Drained)
    (keyValue full : List String) (observer : Option String) (nonIncremental : Bool) :
    (s.startKeyValue lease drained keyValue full observer nonIncremental).agenda =
      ({ s.agenda with passes := s.agenda.passes + 1 } : Agenda).enter s.engine.nextNumber
        (.pass drained false) := by
  simp only [startKeyValue, spawn_agenda]
  show ({ s.freshToken.2.agenda with passes := s.freshToken.2.agenda.passes + 1 } : Agenda).enter
    s.engine.nextNumber _ = _
  rw [freshToken_agenda]
  rfl

/-- A tick finds that there is nothing to do now, or it finds no transport, or it starts a pass. -/
theorem runKeyValue_agenda (s : System) :
    (s.runKeyValue.agenda = s.agenda ∧
      (s.agenda.policy.allows = false ∨ 0 < s.agenda.passes ∨
        s.agenda.pending.packages.isEmpty = true)) ∨
    s.runKeyValue.agenda = s.agenda.arm ∨
    (s.agenda.passes = 0 ∧
      s.runKeyValue.agenda =
        ({ s.agenda with pending := s.agenda.pending.drain.2, passes := s.agenda.passes + 1 } :
          Agenda).enter s.engine.nextNumber (.pass (some s.agenda.pending.drain.1) false)) := by
  refine runKeyValue_elim ?stays ?putsOff ?drains
  case stays =>
    intro hstays
    have hbusy : s.isBackupRunning = true → 0 < s.engine.runningPasses := by simp [isBackupRunning]
    exact .inl ⟨rfl, hstays.imp_right (Or.imp_left hbusy)⟩
  case putsOff => exact .inr (.inl s.scheduleKeyValueJob_agenda)
  case drains =>
    intro name packages hfree _
    refine .inr (.inr ⟨hfree, ?_⟩)
    rw [startKeyValue_agenda]
    rfl

/-- A requested backup starts, or waits. -/
theorem startRequested_agenda (s : System) (order : BackupOrder) :
    (s.startRequested order).agenda = s.agenda ∨
      (s.startRequested order).agenda =
        ({ s.agenda with passes := s.agenda.passes + 1 } : Agenda).enter s.engine.nextNumber
          (.pass none false) := by
  unfold startRequested
  split
  · exact .inl rfl
  · exact .inr (startKeyValue_agenda _ _ _ _ _ _ _)

/-- The end of a pass is counted, and the next requested backup may start. -/
theorem handlePassFinished_agenda (s : System) :
    (∃ passes, s.handlePassFinished.agenda = { s.agenda with passes }) ∨
      ∃ passes, s.handlePassFinished.agenda =
        ({ s.agenda with passes } : Agenda).enter s.engine.nextNumber (.pass none false) := by
  refine handlePassFinished_elim ?hears ?begins
  case hears => exact fun _ => .inl ⟨_, rfl⟩
  case begins =>
    intro order rest _ _
    rcases startRequested_agenda (s.onEngine fun e =>
      { e with runningPasses := e.runningPasses - 1, waitingRequests := rest }) order with
        hwaits | hstarts
    · exact .inl ⟨_, hwaits⟩
    · exact .inr ⟨_, hstarts⟩

/-- A wipe is no matter of the agenda, but its number is taken. -/
theorem startInit_agenda (s : System) (transports : List String) (observer : Option String) :
    (s.startInit transports observer).agenda = s.agenda ∨
      (s.startInit transports observer).agenda = s.agenda.enter s.engine.nextNumber .other := by
  unfold startInit
  split
  · exact .inl rfl
  · exact .inr (spawn_agenda _ _)

/-- Nor is the deletion of data. -/
theorem startClearData_agenda (s : System) (transport package : String) :
    (s.startClearData transport package).agenda = s.agenda ∨
      (s.startClearData transport package).agenda =
        s.agenda.enter s.engine.nextNumber .other := by
  refine startClearData_elim ?putsOff ?starts
  case putsOff => exact .inl (s.postDelayed_agenda rfl _)
  case starts =>
    refine .inr ?_
    rw [spawn_agenda, freshNumber_agenda, lend_agenda]
    rfl

/-! ## Sessions and restores -/

/-- The timers of sessions are not chores. -/
theorem dropTimer_agenda (s : System) (h : s.agenda.delayed = []) (timer : Option Nat) :
    (s.dropTimer timer).agenda = s.agenda := by
  cases timer with
  | none => rfl
  | some timer => exact s.stopTimer_agenda timer h

/-- The session is given another timer. -/
theorem replaceSessionTimer_agenda (s : System) (h : s.agenda.delayed = []) (session : Nat)
    (timer : Option Nat) : (s.replaceSessionTimer session timer).agenda = s.agenda := by
  unfold replaceSessionTimer
  split
  · split
    · exact s.dropTimer_agenda h _
    · exact s.dropTimer_agenda h _
  · exact s.dropTimer_agenda h _

/-- A session is armed. -/
theorem armSession_agenda (s : System) (h : s.agenda.delayed = []) (session : Nat) :
    (s.armSession session).agenda = s.agenda := by
  have hposted : (s.postDelayed (.sessionTimeout session)
      s.engine.settings.restoreTimeout).2.agenda = s.agenda := s.postDelayed_agenda rfl _
  unfold armSession
  simp only
  rw [replaceSessionTimer_agenda _ (by rw [hposted]; exact h), hposted]

/-- A session is closed. -/
theorem closeSession_agenda (s : System) (h : s.agenda.delayed = []) (session : Nat) :
    (s.closeSession session).agenda = s.agenda := by
  unfold closeSession
  split
  · split
    · exact s.dropTimer_agenda h _
    · rfl
  · rfl

/-- A restore begins or waits. -/
theorem admitRestore_agenda (s : System) (order : RestoreOrder) :
    (s.admitRestore order).agenda = s.agenda ∨
      (s.admitRestore order).agenda = s.agenda.enter s.engine.nextNumber .other := by
  unfold admitRestore
  split
  · exact .inl rfl
  · exact .inr (spawn_agenda _ _)

/-- The restore of a session begins or waits. -/
theorem startRestore_agenda (s : System) (h : s.agenda.delayed = []) (order : RestoreOrder) :
    (s.startRestore order).agenda = s.agenda ∨
      ∃ number, (s.startRestore order).agenda = s.agenda.enter number .other := by
  unfold startRestore
  cases order.session with
  | none => exact (s.admitRestore_agenda order).imp_right fun hstarts => ⟨_, hstarts⟩
  | some session =>
    simp only
    rw [← s.replaceSessionTimer_agenda h session none]
    exact (admitRestore_agenda _ order).imp_right fun hstarts => ⟨_, hstarts⟩

/-- The next restore begins. -/
theorem startNextRestore_agenda (s : System) :
    s.startNextRestore.agenda = s.agenda ∨
      s.startNextRestore.agenda = s.agenda.enter s.engine.nextNumber .other := by
  unfold startNextRestore
  split
  · exact .inl rfl
  · exact .inr (spawn_agenda _ _)

/-- A restore has ended: its session is armed, and the next one begins. -/
theorem handleRestoreFinished_agenda (s : System) (h : s.agenda.delayed = [])
    (session : Option Nat) :
    (s.handleRestoreFinished session).agenda = s.agenda ∨
      ∃ number, (s.handleRestoreFinished session).agenda = s.agenda.enter number .other := by
  have hnext : ∀ s' : System, s'.agenda = s.agenda → s'.startNextRestore.agenda = s.agenda ∨
      ∃ number, s'.startNextRestore.agenda = s.agenda.enter number .other := by
    intro s' hsame
    rw [← hsame]
    exact s'.startNextRestore_agenda.imp_right fun hstarts => ⟨_, hstarts⟩
  unfold handleRestoreFinished
  cases session with
  | none => exact hnext s rfl
  | some session =>
    simp only
    split
    · exact hnext _ (s.armSession_agenda h session)
    · exact hnext s rfl

/-! ## Timers -/

/-- A timer that is no chore goes off. -/
theorem goOff_agenda (s : System) {timer : Timer} (h : timer.action.chore? = none) :
    (s.goOff timer).agenda = s.agenda := by
  unfold goOff
  split
  · rename_i command haction
    refine s.post_agenda ?_
    rw [haction] at h
    simpa [TimerAction.chore?] using h
  · rfl

/-- No timer has a chore. -/
theorem fireTimers_agenda (s : System) (h : s.agenda.delayed = []) :
    s.fireTimers.agenda = s.agenda := by
  have hnone : ∀ timer ∈ s.engine.timers, timer.action.chore? = none :=
    List.filterMap_eq_nil_iff.1 h
  have hfold : ∀ (due : List Timer) (s' : System),
      (∀ timer ∈ due, timer.action.chore? = none) → (due.foldl goOff s').agenda = s'.agenda := by
    intro due
    induction due with
    | nil => exact fun s' _ => rfl
    | cons timer due ih =>
      intro s' hdue
      rw [List.foldl_cons, ih _ fun other hother => hdue other (List.mem_cons_of_mem _ hother),
        s'.goOff_agenda (hdue timer List.mem_cons_self)]
  unfold fireTimers
  simp only
  rw [hfold s.dueTimers _ fun timer hmem => hnone timer (List.mem_of_mem_filter hmem)]
  exact s.withTimers_agenda List.filter_sublist.subset h

/-! ## Operations -/

/-- A deadline was hit: the task that watches it is canceled. -/
theorem handleEvent_agenda (hs : s.agenda.Distinct) (event : OpEvent Watcher) :
    (s.handleEvent event).agenda = s.agenda ∨
      ∃ number, (s.handleEvent event).agenda = s.agenda.cancel number := by
  unfold handleEvent
  split
  · exact .inl rfl
  · split
    · exact (cancelOperation_agenda hs _).imp_right fun ⟨number, _, heq⟩ => ⟨number, heq⟩
    · exact .inl rfl

/-- The full backup that runs is canceled. -/
theorem endFullNow_agenda (hs : s.agenda.Distinct) :
    s.endFullNow.2.agenda = s.agenda ∨
      ∃ number, s.endFullNow.2.agenda = s.agenda.cancel number := by
  unfold endFullNow
  split
  · exact (cancelOperation_agenda hs _).imp_right fun ⟨number, _, heq⟩ => ⟨number, heq⟩
  · exact .inl rfl

/-- Every task that can still be canceled is, and the job is pushed back. -/
theorem cancelBackups_agenda (hs : s.agenda.Distinct) :
    ∃ numbers : List Nat, s.cancelBackups.agenda =
      { numbers.foldl Agenda.cancel s.agenda with jobs := true :: s.agenda.jobs } := by
  have hfold : ∀ (tokens : List OpToken) (s : System), s.agenda.Distinct →
      ∃ numbers : List Nat,
        (tokens.foldl cancelOperation s).agenda = numbers.foldl Agenda.cancel s.agenda := by
    intro tokens
    induction tokens with
    | nil => exact fun s _ => ⟨[], rfl⟩
    | cons token tokens ih =>
      intro s hs
      rcases cancelOperation_agenda hs token with hsame | ⟨number, -, hcancel⟩
      · obtain ⟨numbers, hrest⟩ := ih (s.cancelOperation token) (hsame ▸ hs)
        exact ⟨numbers, by rw [List.foldl_cons, hrest, hsame]⟩
      · obtain ⟨numbers, hrest⟩ := ih (s.cancelOperation token) (hcancel ▸ hs.cancel number)
        exact ⟨number :: numbers, by rw [List.foldl_cons, hrest, hcancel, List.foldl_cons]⟩
  obtain ⟨numbers, hcanceled⟩ := hfold s.engine.ops.pendingTasks s hs
  refine ⟨numbers, ?_⟩
  have hjobs : (numbers.foldl Agenda.cancel s.agenda).jobs = s.agenda.jobs := by
    obtain ⟨_, heq⟩ := s.agenda.cancelAll_eq numbers
    rw [heq]
  unfold cancelBackups
  simp only
  rw [note_agenda _ rfl, note_job _ rfl, hcanceled, hjobs]

/-! ## Calls -/

/-- The job of passes is sent to the loop. -/
theorem runPass_agenda (s : System) : s.runPass.2.agenda = s.agenda.post .runKeyValue := by
  rw [runPass, send_snd, post_chore _ rfl]

/-- A backup at once is a tick, or it arms the job while battery saver is on. -/
theorem backupNow_agenda (s : System) :
    (s.agenda.policy.batterySaver = true ∧ s.backupNow.2.agenda = s.agenda.arm) ∨
      (s.agenda.policy.batterySaver = false ∧
        s.backupNow.2.agenda = s.agenda.post .runKeyValue) := by
  unfold backupNow
  split
  · exact .inl ⟨‹_›, s.scheduleKeyValueJob_agenda⟩
  · rename_i hoff
    exact .inr ⟨Bool.eq_false_iff.2 hoff, s.runPass_agenda⟩

/-- A transport is entered in the registry, or it cannot be registered. -/
theorem registerTransport_agenda (s : System) (t : TransportDescription) :
    (s.registerTransport t).2.agenda = s.agenda ∨
      (s.registerTransport t).2.agenda =
        { s.agenda with transports := TransportRegistry.enter s.agenda.transports t } := by
  refine registerTransport_elim ?refuses ?enters ?wipes
  case refuses => exact fun _ _ _ _ => .inl rfl
  case enters => exact fun _ _ _ => .inr rfl
  case wipes => exact fun _ _ _ => .inr (postDelayed_agenda _ rfl _)

/-- A transport is dropped, and no other is. -/
theorem unregisterTransport_agenda (s : System) (name : String) :
    ∃ transports, transports ⊆ s.agenda.transports ∧
      (s.unregisterTransport name).2.agenda = { s.agenda with transports } := by
  unfold unregisterTransport TransportRegistry.unregister
  by_cases hknown : s.engine.transports.isRegistered name = true
  · rw [if_pos hknown]
    exact ⟨_, List.filter_sublist.subset, rfl⟩
  · rw [if_neg hknown]
    exact ⟨_, List.Subset.refl _, rfl⟩

/-- The answer about datasets is there. -/
theorem endSets_agenda (s : System) (h : s.agenda.delayed = []) (session : Session)
    (lease : Lease) : (s.endSets session lease).2.agenda = s.agenda := by
  rw [endSets_snd]
  exact armSession_agenda (s.dispose (some lease)) h session.number

/-- Backups are allowed from now on only if they were before, or if the job was armed. -/
inductive Rules (a : Agenda) : Agenda → Prop where
  | same : Rules a a
  | keeps {policy : Policy} : (policy.allows = true → a.policy.allows = true) →
    policy.file = a.policy.file → Rules a { a with policy }
  | allows {policy : Policy} : policy.file = a.policy.file →
    Rules a ({ a with policy } : Agenda).arm
  | forbids {policy : Policy} : policy.allows = false → policy.file = a.policy.file →
    Rules a { a with policy, jobs := false :: a.jobs }

/-- Backup is switched on or off. -/
theorem setEnabled_agenda (s : System) (on : Bool) :
    Rules s.agenda (s.setEnabled on).2.agenda := by
  have hset : (s.switched on).agenda =
      { s.agenda with policy := { s.engine.policy with enabled := on } } := rfl
  refine setEnabled_elim ?refuses ?keeps ?allows ?forbids
  case refuses => exact .same
  case keeps =>
    intro henabled
    rw [hset]
    refine .keeps (fun hallows => ?_) rfl
    show (s.engine.policy.enabled && s.engine.policy.provisioned) = true
    rw [henabled]
    exact hallows
  case allows =>
    intro _ _
    rw [scheduleNextFullJob_agenda, scheduleKeyValueJob_agenda, hset]
    exact .allows rfl
  case forbids =>
    rintro rfl _ delay
    rw [postDelayed_agenda _ rfl, (markAll_within _ _).agenda (by decide), note_job _ rfl, hset]
    exact @Rules.forbids s.agenda { s.engine.policy with enabled := false } rfl rfl

/-- The setup of the device is complete, or is not any more. -/
theorem setProvisioned_agenda (s : System) (on : Bool) :
    Rules s.agenda (s.setProvisioned on).agenda := by
  unfold setProvisioned
  simp only
  split
  · simp only [scheduleNextFullJob_agenda, scheduleKeyValueJob_agenda]
    exact .allows rfl
  · rename_i hsame
    refine @Rules.keeps s.agenda { s.engine.policy with provisioned := on } (fun hallows => ?_) rfl
    obtain ⟨henabled, rfl⟩ : s.engine.policy.enabled = true ∧ on = true :=
      Bool.and_eq_true_iff.1 hallows
    have hbefore : s.engine.policy.provisioned = true := by
      simpa [onPolicy, onEngine, henabled] using hsame
    exact Bool.and_eq_true_iff.2 ⟨henabled, hbefore⟩

/-- The announcement of the metadata is no chore. -/
theorem stageMetadata_agenda (s : System) : s.stageMetadata.agenda = s.agenda := by
  rw [stageMetadata, post_agenda _ rfl]

/-- A package that is installed is heard of. -/
theorem packageAdded_agenda {package : String} {p : Package}
    (hfind : s.device.package? package = some p) (replacing : Bool) :
    (s.packageAdded package replacing).agenda = s.agenda.add package p replacing := by
  unfold packageAdded
  rw [hfind]
  simp only
  -- first the participants, then the schedule
  generalize hjoined : (if p.isParticipant = true then _ else _ : System) = s₁
  have hagenda :
      s₁.agenda = { s.agenda with participants := s.agenda.joined package p replacing } := by
    rw [← hjoined]
    unfold Agenda.joined
    cases p.isParticipant with
    | false => cases replacing <;> rfl
    | true =>
      rw [if_pos rfl, post_agenda _ rfl]
      cases replacing <;> rfl
  have hnow : s₁.now = s.agenda.now := congrArg Agenda.now hagenda
  unfold Agenda.add
  split
  · -- a call that breaks off here has done all that the agenda sees
    have hlast : ∀ s' : System,
        (if s'.nextDueFits then s'.stageMetadata else s').agenda = s'.agenda := by
      intro s'
      split
      · exact s'.stageMetadata_agenda
      · rfl
    rw [hlast, scheduleNextFullJob_agenda, enqueueFull_agenda, hagenda, hnow]
  · rw [stageMetadata_agenda, requestScheduleWrite_agenda]
    show ({ s₁.agenda with schedule := s₁.agenda.schedule.dequeue package } : Agenda).request = _
    rw [hagenda]
    rfl

/-- A package that is gone is heard of. -/
theorem packageRemoved_agenda (s : System) (package : String) (replacing : Bool) :
    ∃ transports, transports ⊆ s.agenda.transports ∧
      (s.packageRemoved package replacing).agenda =
        { if replacing then s.agenda else s.agenda.remove package with transports } := by
  have hfold : ∀ (names : List String) (s : System), ∃ transports,
      transports ⊆ s.agenda.transports ∧
      (names.foldl (fun s transport => (s.unregisterTransport transport).2) s).agenda =
        { s.agenda with transports } := by
    intro names
    induction names with
    | nil => exact fun s => ⟨_, List.Subset.refl _, rfl⟩
    | cons name names ih =>
      intro s
      obtain ⟨first, hfirst, heq⟩ := s.unregisterTransport_agenda name
      obtain ⟨rest, hrest, heq'⟩ := ih (s.unregisterTransport name).2
      rw [heq] at hrest heq'
      exact ⟨rest, List.Subset.trans hrest hfirst, heq'⟩
  have hafter : ∀ (names : List String) (s' : System) (a : Agenda), s'.agenda = a →
      ∃ transports, transports ⊆ a.transports ∧
        (names.foldl (fun s transport => (s.unregisterTransport transport).2) s').agenda =
          { a with transports } := by
    rintro names s' _ rfl
    exact hfold names s'
  unfold packageRemoved
  simp only
  cases replacing with
  | true => exact hfold _ s
  | false => exact hafter _ _ (s.agenda.remove package) (stageMetadata_agenda _)

/-- A session opens. -/
theorem beginSession_agenda (s : System) (h : s.agenda.delayed = []) (caller : Caller)
    (package transport : Option String) :
    (s.beginSession caller package transport).2.agenda = s.agenda := by
  refine beginSession_elim ?refuses ?opens
  case refuses => exact fun _ _ => rfl
  case opens =>
    exact fun _ _ _ _ _ _ _ => armSession_agenda (s.freshNumber.2.onEngine fun e =>
      { e with session := some ⟨s.engine.nextNumber, none⟩ }) h _

/-! ## The order of the tasks -/

/-- The tasks in another order. -/
theorem reorder_agenda {tasks : List Task} (hperm : tasks.Perm s.engine.tasks) :
    ∃ errands, errands.Perm s.agenda.errands ∧
      (s.onEngine fun e => { e with tasks }).agenda = { s.agenda with errands } :=
  ⟨_, hperm.map _, rfl⟩

/-- A task goes behind the others. -/
theorem sendBack_agenda (s : System) (number : Nat) :
    ∃ errands, errands.Perm s.agenda.errands ∧
      (s.sendBack number).agenda = { s.agenda with errands } := by
  refine reorder_agenda ?_
  have hperm := List.filter_append_perm (fun t : Task => decide (t.number ≠ number)) s.engine.tasks
  simpa using hperm

/-- The tasks whose calls come back go behind the others. -/
theorem wake_agenda (s : System) (transport : String) (method : TransportMethod) :
    ∃ errands, errands.Perm s.agenda.errands ∧
      (s.wake transport method).agenda = { s.agenda with errands } := by
  unfold wake
  split
  · refine reorder_agenda ?_
    have hperm := List.filter_append_perm (fun t : Task => !waitsFor transport method t)
      s.engine.tasks
    simpa using hperm
  · exact ⟨_, .refl _, rfl⟩

end System

end Holdfast
