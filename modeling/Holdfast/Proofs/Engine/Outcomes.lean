import Holdfast.Engine.Start

/-!
# What calls, commands and steps come to

A call, a command or the step of a task looks at many conditions and then does one of a few things.
The rules of elimination here say once what these are: a property holds of what comes of it if it
holds in each case. What follows about the books of the engine, its desk of restores and its other
extracts argues by these rules, a case for each outcome, and does not open the definitions again.

- `TransportRegistry.lend`: **a lease adds itself to the registry and changes nothing else**, by
  `TransportRegistry.lease_cases` and `TransportRegistry.leaseCurrent_cases`;
- `System.requestBackup_elim`, `System.beginFull_elim`, `System.setEnabled_elim`, …: calls;
- `System.beginSession_elim`, `System.submit_elim`, `System.restoreAtInstall_elim`, …: restores;
- `System.runKeyValue_elim`, `System.handlePassFinished_elim`: commands;
- `System.stepTask_elim`: the step that a task makes, by the stage at which it stands;
- `System.chooseKeyValue_elim`, `System.takeReply_elim`, `System.endFull_elim`, …: what comes of the
  step;
- `System.start_cases`, `System.load_eq`, `System.wakeUp_elim`: what an engine that started has gone
  through.
-/

namespace Holdfast

/-! ## Leases -/

namespace TransportRegistry

/-- The lease that a transport would get next. -/
def nextLeaseOf (r : TransportRegistry) (name caller : String) : Lease :=
  ⟨r.nextLease, name, caller⟩

/-- The registry after a lease was handed out. -/
def lend (r : TransportRegistry) (name caller : String) : TransportRegistry :=
  { r with leases := r.nextLeaseOf name caller :: r.leases, nextLease := r.nextLease + 1 }

/-- The next lease is handed out for a registered transport, and for no other. -/
theorem lease_cases (r : TransportRegistry) (name caller : String) :
    (r.isRegistered name = false ∧ r.lease name caller = (none, r)) ∨
      (r.isRegistered name = true ∧
        r.lease name caller = (some (r.nextLeaseOf name caller), r.lend name caller)) := by
  unfold lease
  cases r.isRegistered name with
  | false => exact .inl ⟨rfl, rfl⟩
  | true => exact .inr ⟨rfl, rfl⟩

/-- The selected transport is leased, if it is registered. -/
theorem leaseCurrent_cases (r : TransportRegistry) (caller : String) :
    (r.selected.any r.isRegistered = false ∧ r.leaseCurrent caller = (none, r)) ∨
      ∃ name, r.selected = some name ∧ r.isRegistered name = true ∧
        r.leaseCurrent caller = (some (r.nextLeaseOf name caller), r.lend name caller) := by
  unfold leaseCurrent
  cases r.selected with
  | none => exact .inl ⟨rfl, rfl⟩
  | some name =>
    rcases r.lease_cases name caller with ⟨hunknown, hnone⟩ | ⟨hknown, hsome⟩
    · exact .inl ⟨hunknown, hnone⟩
    · exact .inr ⟨name, rfl, hknown, hsome⟩

end TransportRegistry

namespace System

variable {s : System}

/-- The system after a lease was handed out. -/
def lend (s : System) (name caller : String) : System :=
  s.onEngine fun e => { e with transports := e.transports.lend name caller }

/-- What was sent is posted, as long as the loop runs. -/
theorem send_eq (s : System) (command : Command) :
    s.send command =
      (if s.engine.looping then .ok () else .error .loopStopped, s.post command) := by
  unfold send post
  split <;> rfl

theorem send_snd (s : System) (command : Command) : (s.send command).2 = s.post command :=
  congrArg Prod.snd (s.send_eq command)

/-- The job of full backups is armed with some delay, or not at all. -/
theorem scheduleNextFullJob_cases (s : System) (latency : Nat) :
    s.scheduleNextFullJob latency = s ∨
      ∃ delay, s.scheduleNextFullJob latency = s.note (.fullJob delay) := by
  unfold scheduleNextFullJob
  split
  · exact .inl rfl
  · split
    · exact .inr ⟨_, rfl⟩
    · exact .inl rfl

/-! ## Calls -/

/-- Sorting the packages of a request only tells the observer of some of them. -/
@[elab_as_elim]
theorem classify_elim {P : System → Prop} {observer : Option String} {packages : List String}
    (start : P s)
    (tells : ∀ (s' : System) package status, P s' → P (s'.tellResult observer package status)) :
    P (s.classify observer packages).2.2 := by
  induction packages generalizing s with
  | nil => exact start
  | cons package rest ih =>
    unfold classify
    split
    · exact ih start
    · split
      · exact ih (tells _ _ _ start)
      · split
        · exact ih start
        · split
          · exact ih start
          · exact ih (tells _ _ _ start)

/-- A request is refused, or its order is posted with the next lease. -/
@[elab_as_elim]
theorem requestBackup_elim {P : Status × System → Prop} {caller : Caller} {packages : List String}
    {observer : Option String} {nonIncremental : Bool}
    (refuses : ∀ status, status ≠ .success →
      (status = .transportAborted →
        (s.engine.transports.leaseCurrent "request-backup").1 = none) → P (status, s))
    (posts : ∀ name keyValue full s', s.engine.transports.selected = some name →
      (s.engine.transports.leaseCurrent "request-backup").1 =
        some (s.engine.transports.nextLeaseOf name "request-backup") →
      ((s.lend name "request-backup").classify observer packages).2.2 = s' →
      P (if s'.engine.looping then .success else .transportAborted,
        s'.post (.requestBackup ⟨s.engine.transports.nextLeaseOf name "request-backup", keyValue,
          full, observer, nonIncremental⟩))) :
    P (s.requestBackup caller packages observer nonIncremental) := by
  unfold requestBackup
  split
  · exact refuses _ nofun nofun
  · split
    · exact refuses _ nofun nofun
    · split
      · exact refuses _ nofun nofun
      · rcases s.engine.transports.leaseCurrent_cases "request-backup" with
          ⟨-, hnone⟩ | ⟨name, hselected, -, hsome⟩
        · rw [hnone]
          exact refuses _ nofun fun _ => by rw [hnone]
        · rw [hsome]
          simp only
          generalize hsorted : classify _ observer packages = sorted
          obtain ⟨keyValue, full, s'⟩ := sorted
          have hposts := posts name keyValue full s' hselected (by rw [hsome])
            (congrArg (·.2.2) hsorted)
          simp only [send_eq]
          cases hlooping : s'.engine.looping with
          | true =>
            rw [hlooping] at hposts
            exact hposts
          | false =>
            rw [hlooping] at hposts
            exact hposts

/-- The system after a transport was entered in the registry. -/
def entered (s : System) (t : TransportDescription) (pending : Bool) (disk : Disk) : System :=
  { s with disk }.onEngine fun e =>
    { e with
      transports :=
        { e.transports with
          transports := TransportRegistry.enter e.transports.transports t
          pendingInits :=
            if pending then e.transports.pendingInits.insert t.name
            else e.transports.pendingInits } }

/-- A transport without a folder is not registered; one that bears a mark is to be wiped. -/
@[elab_as_elim]
theorem registerTransport_elim {P : Except Fault Unit × System → Prop} {t : TransportDescription}
    (refuses : ∀ fault disk, (s.engine.transports.register t s.disk).1 = .error fault →
      (s.engine.transports.register t s.disk).2.2 = disk → P (.error fault, { s with disk }))
    (enters : ∀ disk, (s.engine.transports.register t s.disk).1 = .ok false →
      (s.engine.transports.register t s.disk).2.2 = disk → P (.ok (), s.entered t false disk))
    (wipes : ∀ disk, (s.engine.transports.register t s.disk).1 = .ok true →
      (s.engine.transports.register t s.disk).2.2 = disk →
      P (.ok (), ((s.entered t true disk).postDelayed (.wipe [t.name] none)
        s.engine.settings.transportInitDelay).2)) :
    P (s.registerTransport t) := by
  have hregister : ∀ pending, (s.engine.transports.register t s.disk).1 = .ok pending →
      (s.engine.transports.register t s.disk).2.1 =
        { s.engine.transports with
          transports := TransportRegistry.enter s.engine.transports.transports t
          pendingInits :=
            if pending then s.engine.transports.pendingInits.insert t.name
            else s.engine.transports.pendingInits } := by
    unfold TransportRegistry.register
    simp only
    split
    · exact nofun
    · rintro pending ⟨⟩
      rfl
  have hrefused : ∀ fault, (s.engine.transports.register t s.disk).1 = .error fault →
      (s.engine.transports.register t s.disk).2.1 = s.engine.transports := by
    unfold TransportRegistry.register
    simp only
    split
    · exact fun _ _ => rfl
    · exact nofun
  unfold registerTransport
  generalize s.engine.transports.register t s.disk = answer at *
  obtain ⟨outcome, transports, disk⟩ := answer
  cases outcome with
  | error fault =>
    obtain rfl : transports = s.engine.transports := hrefused fault rfl
    exact refuses fault disk rfl rfl
  | ok pending =>
    obtain rfl := hregister pending rfl
    cases pending with
    | false => exact enters disk rfl rfl
    | true => exact wipes disk rfl rfl

/-- A selection is refused, or it is made, and a registered transport is asked for its dataset. -/
@[elab_as_elim]
theorem beginSelect_elim {P : Option (Option Lease) × System → Prop} {name : String}
    (refuses : P (none, s))
    (unknown : P (some none, s.onEngine fun e => { e with transports := e.transports.select name }))
    (asks : P (some (some (s.engine.transports.nextLeaseOf name "select-transport")),
      ((s.onEngine fun e => { e with transports := e.transports.select name }).lend name
        "select-transport").note (.transport name .currentRestoreSet))) :
    P (s.beginSelect name) := by
  unfold beginSelect askDataset
  split
  · rcases (s.engine.transports.select name).lease_cases name "select-transport" with
      ⟨-, hnone⟩ | ⟨-, hsome⟩
    · simp only [onEngine, hnone]
      exact unknown
    · simp only [onEngine, hsome]
      exact asks
  · exact refuses

/-- The system after the switch of backups was set. -/
def switched (s : System) (on : Bool) : System :=
  { s with disk := (s.engine.policy.setEnabled on s.disk).2.2 }.onEngine fun e =>
    { e with policy := { e.policy with enabled := on } }

/-- A prescribed transport keeps backups on. Otherwise the switch is set, and where it stood the
other way the jobs are armed, or every transport is to be wiped. -/
@[elab_as_elim]
theorem setEnabled_elim {P : System → Prop} {on : Bool}
    (refuses : P s)
    (keeps : s.engine.policy.enabled = on → P (s.switched on))
    (allows : on = true → s.engine.policy.enabled = false →
      P ((s.switched on).scheduleKeyValueJob.scheduleNextFullJob 0))
    (forbids : on = false → s.engine.policy.enabled = true → ∀ delay,
      P ((((s.switched on).note .keyValueJobCanceled).markAll s.engine.transports.names).postDelayed
        (.wipe s.engine.transports.names none) delay).2) :
    P (s.setEnabled on).2 := by
  have hpolicy : (∃ rejection, s.engine.policy.setEnabled on s.disk =
        (.error rejection, s.engine.policy, s.disk)) ∨
      s.engine.policy.setEnabled on s.disk =
        (.ok s.engine.policy.enabled, { s.engine.policy with enabled := on },
          (s.engine.policy.setEnabled on s.disk).2.2) := by
    unfold Policy.setEnabled
    split
    · exact .inl ⟨_, rfl⟩
    · exact .inr rfl
  unfold switched at *
  unfold setEnabled
  rcases hpolicy with ⟨rejection, hrefused⟩ | hset
  · rw [hrefused]
    exact refuses
  · generalize (s.engine.policy.setEnabled on s.disk).2.2 = disk at *
    rw [hset]
    simp only
    cases on <;> cases henabled : s.engine.policy.enabled
    · exact keeps henabled
    · exact forbids rfl henabled _
    · exact allows rfl henabled
    · exact keeps henabled

/-- What is heard of a new package: the participants change, changes are announced, and the package
is entered in the schedule or taken out of it. The call may break off at a due time that is out of
range. -/
@[elab_as_elim]
theorem packageAdded_elim {P : System → Prop} {package : String} {replacing : Bool}
    (start : P s)
    (joins : ∀ participants, P (s.onEngine fun e => { e with participants }))
    (announces : ∀ (s' : System) package targets, P s' → P (s'.post (.dataChanged package targets)))
    (enqueues : ∀ s' : System, P s' → P ((s'.enqueueFull package s'.now).scheduleNextFullJob 0))
    (dequeues : ∀ s' : System, P s' →
      P (s'.onEngine fun e =>
        { e with schedule := e.schedule.dequeue package }).requestScheduleWrite) :
    P (s.packageAdded package replacing) := by
  unfold packageAdded
  split
  · exact start
  · rename_i p _
    have hleft : ∀ left : System, (left = s ∨ ∃ participants, left = s.onEngine fun e =>
        { e with participants }) → P (if p.isParticipant then
          (left.onEngine fun e =>
            { e with participants := withParticipant e.participants p.uid package }).post
            (.dataChanged package (NameSet.ofList [package])) else left) := by
      rintro left hleft
      split
      · rcases hleft with rfl | ⟨_, rfl⟩ <;> exact announces _ _ _ (joins _)
      · rcases hleft with rfl | ⟨_, rfl⟩
        · exact start
        · exact joins _
    have hjoined := hleft (if replacing then
        s.onEngine fun e => { e with participants := withoutParticipant e.participants package }
      else s) (by
        cases replacing with
        | false => exact .inl rfl
        | true => exact .inr ⟨_, rfl⟩)
    simp only
    generalize (if p.isParticipant = true then _ else _) = joined at hjoined ⊢
    split
    · have hentered := enqueues joined hjoined
      generalize (joined.enqueueFull package joined.now).scheduleNextFullJob 0 = entered at *
      split
      · exact announces _ _ _ hentered
      · exact hentered
    · exact announces _ _ _ (dequeues _ hjoined)

/-- What is heard of a package that is gone: it takes part no longer, and the transports that it
hosted are dropped. -/
@[elab_as_elim]
theorem packageRemoved_elim {P : System → Prop} {package : String} {replacing : Bool}
    (start : P s)
    (leaves : ∀ participants pending,
      P (s.onEngine fun e => { e with participants, pending }).stageMetadata)
    (drops : ∀ (s' : System) name, P s' → P (s'.unregisterTransport name).2) :
    P (s.packageRemoved package replacing) := by
  have hdrops : ∀ (names : List String) (s' : System), P s' →
      P (names.foldl (fun s transport => (s.unregisterTransport transport).2) s') := by
    intro names
    induction names with
    | nil => exact fun _ h => h
    | cons name names ih => exact fun s' h => ih _ (drops s' name h)
  unfold packageRemoved
  cases replacing with
  | false => exact hdrops _ _ (leaves _ _)
  | true => exact hdrops _ _ start

/-! ## The job of full backups -/

/-- Nothing is due, or the next package is put back for want of a transport, or its backup
starts. -/
@[elab_as_elim]
theorem dispatchFull_elim {P : System → Prop}
    (waits : P s.selectNext.2.2)
    (putsBack : ∀ entry p, s.selectNext.1 = .run entry p →
      (s.selectNext.2.2.engine.transports.leaseCurrent "full-backup").1 = none →
      P (s.selectNext.2.2.onEngine fun e =>
        { e with schedule := e.schedule.defer entry.package entry.lastBackup entry.dueAt }))
    (starts : ∀ entry p name, s.selectNext.1 = .run entry p →
      P ((s.selectNext.2.2.lend name "full-backup").startFull
        (s.selectNext.2.2.engine.transports.nextLeaseOf name "full-backup") entry p)) :
    P s.dispatchFull.2.2 := by
  unfold dispatchFull
  generalize s.selectNext = selected at *
  obtain ⟨selection, changed, s'⟩ := selected
  cases selection with
  | wait delay => cases delay <;> exact waits
  | run entry p =>
    simp only
    rcases s'.engine.transports.leaseCurrent_cases "full-backup" with
      ⟨-, hnone⟩ | ⟨name, -, -, hsome⟩
    · rw [hnone]
      exact putsBack entry p rfl (by rw [hnone])
    · rw [hsome]
      exact starts entry p name rfl

/-- The job does nothing while backups are forbidden or one runs. Otherwise it dispatches the next
package, may have the schedule written, and may arm itself anew. -/
@[elab_as_elim]
theorem beginFull_elim {P : System → Prop} (start : P s)
    (dispatches : s.engine.runningFull = none → P s.dispatchFull.2.2)
    (writes : ∀ s' : System, P s' → P s'.requestScheduleWrite)
    (arms : ∀ (s' : System) delay, P s' → P (s'.note (.fullJob delay))) : P s.beginFull.2 := by
  unfold beginFull
  split
  · exact start
  · split
    · exact arms _ _ start
    · split
      · exact start
      · rename_i hidle
        have hdispatched := dispatches (by simpa using hidle)
        generalize s.dispatchFull = dispatched at *
        obtain ⟨outcome, changed, s'⟩ := dispatched
        have hwritten : P (if changed then s'.requestScheduleWrite else s') := by
          split
          · exact writes _ hdispatched
          · exact hdispatched
        cases outcome with
        | rescheduled | noWork => exact arms _ _ hwritten
        | dispatched | alreadyRunning => exact hwritten

/-! ## Restores -/

/-- No session is opened, or one under the next number. It is for the package that was asked for, or
for all. -/
@[elab_as_elim]
theorem beginSession_elim {P : Except Fault (Option Session) × System → Prop} {caller : Caller}
    {package transport : Option String}
    (refuses : ∀ answer, (∀ session, answer ≠ .ok (some session)) → P (answer, s))
    (opens : ∀ (p : Option Package) name,
      (package = none ∧ p = none ∨
        ∃ asked q, package = some asked ∧ s.device.package? asked = some q ∧ p = some q) →
      (s.needsPrivilege caller p name && !caller.privileged) = false →
      s.isBackupRunning = false → s.engine.ops.isBackupInProgress = false →
      s.engine.session = none →
      P (.ok (some ⟨s.engine.nextNumber, p.map (·.name), name⟩),
        (s.freshNumber.2.onEngine fun e =>
          { e with session := some ⟨s.engine.nextNumber, none⟩ }).armSession
            s.engine.nextNumber)) :
    P (s.beginSession caller package transport) := by
  have hopen : ∀ (p : Option Package) name,
      (package = none ∧ p = none ∨
        ∃ asked q, package = some asked ∧ s.device.package? asked = some q ∧ p = some q) →
      P (s.openSession caller p name) := by
    intro p name hasked
    unfold openSession
    split
    · exact refuses _ nofun
    · rename_i hallowed
      split
      · exact refuses _ nofun
      · rename_i hidle
        split
        · exact refuses _ nofun
        · rename_i hclosed
          simp only [Bool.or_eq_true, not_or, Bool.not_eq_true] at hidle
          exact opens p name hasked (by simpa using hallowed) hidle.1 hidle.2
            (by simpa using hclosed)
  unfold beginSession
  split
  · exact refuses _ nofun
  · split
    · exact hopen none _ (.inl ⟨rfl, rfl⟩)
    · split
      · exact refuses _ nofun
      · rename_i hfound
        exact hopen _ _ (.inr ⟨_, _, rfl, hfound, rfl⟩)

/-- The transport of a session is not asked for its datasets, or it is under the next lease. -/
@[elab_as_elim]
theorem beginSets_elim {P : Except Fault Lease × System → Prop} {session : Session}
    (refuses : ∀ fault, P (.error fault, s))
    (asks : P (.ok (s.engine.transports.nextLeaseOf session.transport "restore-session"),
      (s.lend session.transport "restore-session").note
        (.transport session.transport .restoreSets))) :
    P (s.beginSets session) := by
  unfold beginSets leaseFor
  split
  · exact refuses _
  · rcases s.engine.transports.lease_cases session.transport "restore-session" with
      ⟨-, hnone⟩ | ⟨-, hsome⟩
    · rw [hnone]
      exact refuses _
    · rw [hsome]
      exact asks

/-- When the datasets of a session were listed, the lease is given back and the session gets another
alarm. -/
theorem endSets_snd (s : System) (session : Session) (lease : Lease) :
    (s.endSets session lease).2 = (s.dispose (some lease)).armSession session.number := by
  unfold endSets
  simp only
  split <;> rfl

/-- A restore of a session is handed to the loop, or its transport cannot be leased. -/
@[elab_as_elim]
theorem submit_elim {P : Except Fault Unit × System → Prop} {session : Session} {token : UInt64}
    {packages : List String} {recordAncestral : Bool}
    (refuses : P (.error (.unknownTransport session.transport), s))
    (posts : P (if s.engine.looping then .ok () else .error .loopStopped,
      (s.lend session.transport "restore-session").post (.startRestore
        ⟨s.engine.transports.nextLeaseOf session.transport "restore-session", token, packages, none,
          recordAncestral, some session.number⟩))) :
    P (s.submit session token packages recordAncestral) := by
  unfold submit leaseFor
  rcases s.engine.transports.lease_cases session.transport "restore-session" with
    ⟨-, hnone⟩ | ⟨-, hsome⟩
  · rw [hnone]
    exact refuses
  · rw [hsome]
    simp only [send_eq]
    exact posts

/-- A package is restored through a session, unless the session has ended, is for another package,
or knows of no dataset. -/
@[elab_as_elim]
theorem restorePackage_elim {P : Except Fault Unit × System → Prop} {session : Session}
    {package : String}
    (refuses : ∀ fault, fault ≠ .loopStopped → P (.error fault, s))
    (submits : ∀ token, P (s.submit session token [package] false)) :
    P (s.restorePackage session package) := by
  have hknown : P (s.restoreKnown session package) := by
    unfold restoreKnown
    simp only
    split
    · exact refuses _ nofun
    · exact submits _
  unfold restorePackage
  split
  · exact refuses _ nofun
  · split
    · split
      · exact hknown
      · exact refuses _ nofun
    · exact hknown

/-- A dataset is restored through a session, unless the session has ended or is for one package. -/
@[elab_as_elim]
theorem restoreAll_elim {P : Except Fault Unit × System → Prop} {session : Session}
    {token : UInt64} {packages : List String}
    (refuses : ∀ fault, fault ≠ .loopStopped → P (.error fault, s))
    (submits : ∀ packages, P (s.submit session token packages true)) :
    P (s.restoreAll session token packages) := by
  unfold restoreAll
  split
  · exact refuses _ nofun
  · split
    · exact refuses _ nofun
    · exact submits _

/-- Nothing is restored at install: there is no dataset, the policy is against it, or there is no
current transport. -/
def SkipsInstall (s : System) (package : String) : Prop :=
  s.restoreToken package = 0 ∨ s.engine.policy.autoRestore = false ∨
    s.engine.policy.provisioned = false ∨
    s.engine.transports.selected.any s.engine.transports.isRegistered = false

/-- The installer is told at once that nothing is restored, or the restore is handed to the loop. -/
@[elab_as_elim]
theorem restoreAtInstall_elim {P : Except Fault Unit × System → Prop} {caller : Caller}
    {package : String} {token : Int}
    (refuses : caller.privileged = false → P (.error (.denied .restoreAtInstall), s))
    (skips : s.SkipsInstall package → P (.ok (), s.note (.installed token false)))
    (posts : ∀ name, ¬ s.SkipsInstall package → s.engine.looping = true →
      P (.ok (), (s.lend name "restore-at-install").post (.startRestore
        ⟨s.engine.transports.nextLeaseOf name "restore-at-install", s.restoreToken package,
          [package], some token, false, none⟩)))
    (strands : ∀ name, s.engine.looping = false →
      P (.error .loopStopped,
        (s.lend name "restore-at-install").note (.installed token false))) :
    P (s.restoreAtInstall caller package token) := by
  unfold restoreAtInstall
  split
  · rename_i hunprivileged
    exact refuses (by simpa using hunprivileged)
  · unfold leaseAtInstall
    by_cases hskip : s.restoreToken package = 0 ∨ (!s.engine.policy.autoRestore) = true ∨
        (!s.engine.policy.provisioned) = true
    · simp only [if_pos hskip]
      refine skips ?_
      rcases hskip with htoken | hauto | hprovisioned
      · exact .inl htoken
      · exact .inr (.inl (by simpa using hauto))
      · exact .inr (.inr (.inl (by simpa using hprovisioned)))
    · simp only [if_neg hskip]
      rcases s.engine.transports.leaseCurrent_cases "restore-at-install" with
        ⟨hunknown, hnone⟩ | ⟨name, hselected, hregistered, hsome⟩
      · rw [hnone]
        exact skips (.inr (.inr (.inr hunknown)))
      · have hgo : ¬ s.SkipsInstall package := by
          simp only [not_or, Bool.not_eq_true', Bool.not_eq_false] at hskip
          simp [SkipsInstall, hskip, hselected, hregistered]
        have hlent : (s.onEngine fun e =>
            { e with transports := s.engine.transports.lend name "restore-at-install" }) =
              s.lend name "restore-at-install" := rfl
        have hloop : (s.lend name "restore-at-install").engine.looping = s.engine.looping := rfl
        rw [hsome]
        simp only [hlent, send, hloop]
        cases hlooping : s.engine.looping with
        | true => exact posts name hgo hlooping
        | false => exact strands name hlooping

/-! ## Commands -/

/-- A tick finds that there is nothing to do now, or no transport, or a pass begins over everything
pending. -/
@[elab_as_elim]
theorem runKeyValue_elim {P : System → Prop}
    (stays : s.engine.policy.allows = false ∨ s.isBackupRunning = true ∨
      s.engine.pending.packages.isEmpty = true → P s)
    (putsOff : P s.scheduleKeyValueJob)
    (drains : ∀ name packages, s.engine.runningPasses = 0 →
      s.engine.transports.selected = some name →
      P (((s.lend name "key-value").onEngine fun e =>
        { e with pending := s.engine.pending.drain.2 }).startKeyValue
          (s.engine.transports.nextLeaseOf name "key-value") (some s.engine.pending.drain.1)
          packages [] none false)) :
    P s.runKeyValue := by
  unfold runKeyValue
  split
  · rename_i hforbidden
    exact stays (.inl (by simpa using hforbidden))
  · split
    · rename_i hbusy
      exact stays (.inr (.inl hbusy))
    · rename_i hidle
      split
      · rename_i hempty
        exact stays (.inr (.inr hempty))
      · rcases s.engine.transports.leaseCurrent_cases "key-value" with
          ⟨-, hnone⟩ | ⟨name, hselected, -, hsome⟩
        · rw [hnone]
          exact putsOff
        · rw [hsome]
          exact drains name _ (by simpa [isBackupRunning] using hidle) hselected

/-- The data of a package begins to be cleared, or its transport is missing and is tried again
later. -/
@[elab_as_elim]
theorem startClearData_elim {P : System → Prop} {transport package : String}
    (putsOff : P (s.postDelayed (.clearData transport package) s.engine.settings.transportRetry).2)
    (starts : P ((s.lend transport "clear-data").freshNumber.2.spawn
      { number := s.engine.nextNumber
        job := .clearData package
        lease := some (s.engine.transports.nextLeaseOf transport "clear-data") })) :
    P (s.startClearData transport package) := by
  unfold startClearData
  rcases s.engine.transports.lease_cases transport "clear-data" with ⟨-, hnone⟩ | ⟨-, hsome⟩
  · rw [hnone]
    exact putsOff
  · rw [hsome]
    exact starts

/-- The end of a pass is counted, and the oldest request that waits may begin. -/
@[elab_as_elim]
theorem handlePassFinished_elim {P : System → Prop}
    (hears : 1 < s.engine.runningPasses ∨ s.engine.waitingRequests = [] →
      P (s.onEngine fun e => { e with runningPasses := e.runningPasses - 1 }))
    (begins : ∀ order rest, ¬ 1 < s.engine.runningPasses →
      s.engine.waitingRequests = order :: rest →
      P ((s.onEngine fun e =>
        { e with runningPasses := e.runningPasses - 1, waitingRequests := rest }).startRequested
          order)) :
    P s.handlePassFinished := by
  unfold handlePassFinished
  simp only
  split
  · rename_i hbusy
    exact hears (.inl hbusy)
  · rename_i hlast
    split
    · rename_i hnone
      exact hears (.inr hnone)
    · rename_i hwaiting
      exact begins _ _ hlast hwaiting

/-! ## Steps of tasks -/

section Steps

variable {t : Task}

/-- A pass takes its next package, which is the metadata, has an agent to visit, or is passed over.
It is committed when none is left, and breaks off when it was canceled. -/
@[elab_as_elim]
theorem chooseKeyValue_elim {P : System → Prop} {drained : Option Drained}
    {keyValue full : List String} {observer : Option String} {nonIncremental : Bool}
    (commits : P (s.call t .finishBackup))
    (breaksOff : t.canceled = true → P (s.endKeyValue t drained .cancelled))
    (offers : ∀ keyValue full,
      P (s.call { t with job := .keyValue drained keyValue full observer nonIncremental }
        (.performBackup metadataPackage nonIncremental)))
    (visits : ∀ keyValue full v,
      P (s.visit { t with job := .keyValue drained keyValue full observer nonIncremental } v))
    (skips : ∀ keyValue full package status,
      status = .packageNotFound ∨ status = .packageNotEligible →
      P (s.packageDone { t with job := .keyValue drained keyValue full observer nonIncremental }
        drained observer package status)) :
    P (s.chooseKeyValue t drained keyValue full observer nonIncremental) := by
  unfold chooseKeyValue
  split
  · exact commits
  · split
    · exact breaksOff ‹_›
    · simp only
      split
      · rename_i hmetadata
        rw [hmetadata]
        exact offers _ _
      · split
        · exact skips _ _ _ _ (.inl rfl)
        · split
          · exact visits _ _ _
          · exact skips _ _ _ _ (.inr rfl)
  · split
    · exact breaksOff ‹_›
    · simp only
      split
      · exact skips _ _ _ _ (.inl rfl)
      · split
        · exact visits _ _ _
        · exact skips _ _ _ _ (.inr rfl)

/-- A restore takes its next package, which has an agent to visit or is passed over. It is committed
when none is left. -/
@[elab_as_elim]
theorem chooseRestore_elim {P : System → Prop} {order : RestoreOrder} {rest : List String}
    (commits : P (s.call t .finishRestore))
    (visits : ∀ rest v, P (s.visit { t with job := .restore order rest } v))
    (skips : ∀ rest, P (s.moveTo { t with job := .restore order rest } .choosing)) :
    P (s.chooseRestore t order rest) := by
  unfold chooseRestore
  split
  · exact commits
  · simp only
    split
    · exact skips _
    · split
      · exact skips _
      · exact visits _ _

/-- A wipe takes its next transport, which is leased and wiped, or is not registered. It ends when
none is left. -/
@[elab_as_elim]
theorem chooseInit_elim {P : List String → System → Prop} {names : List String}
    {observer : Option String} {overall : Status}
    (ends : P [] ((s.tellFinished observer overall).endPlain t))
    (skips : ∀ name rest, s.engine.transports.isRegistered name = false →
      P (name :: rest) ((s.tellResult observer name .transportAborted).moveTo
        { t with job := .wipe rest observer .transportAborted } .choosing))
    (wipes : ∀ name rest, P (name :: rest) ((s.lend name "initialize").call
      { t with
        job := .wipe rest observer overall
        lease := some (s.engine.transports.nextLeaseOf name "initialize") } .initializeDevice)) :
    P names (s.chooseInit t names observer overall) := by
  unfold chooseInit
  cases names with
  | nil => exact ends
  | cons name rest =>
    simp only
    rcases s.engine.transports.lease_cases name "initialize" with
      ⟨hunknown, hnone⟩ | ⟨-, hsome⟩
    · rw [hnone]
      exact skips name rest hunknown
    · rw [hsome]
      exact wipes name rest

/-- The wait for an agent that came up is registered, and the bind of any other has failed. -/
@[elab_as_elim]
theorem meetAgent_elim {P : System → Prop} {v : Visit}
    (prepares : s.engine.binder.arrival = some (.connected ()) →
      P ((s.onEngine fun e => { e with binder := e.binder.leave }).prepare t v))
    (fails : ∀ left : System, s.engine.binder.arrival ≠ some (.connected ()) →
      left = (s.onEngine fun e => { e with binder := e.binder.leave }) ∨
        left = (s.onEngine fun e => { e with binder := e.binder.leave }).note .clearPending →
      P (left.visitFailed t v .agentFailure)) :
    P (s.meetAgent t v) := by
  unfold meetAgent
  simp only
  split
  · rename_i harrival
    exact prepares harrival
  · rename_i harrival
    exact fails _ (by simp [harrival]) (.inr rfl)
  · rename_i harrival
    exact fails _ (by simp [harrival]) (.inl rfl)
  · rename_i harrival
    exact fails _ (by simp [harrival]) (.inl rfl)

/-- The system after an agent was torn down whose work came to its end. -/
def collected (s : System) (v : Visit) (token : OpToken) : System :=
  (s.onEngine fun e => { e with ops := (s.engine.ops.wait token).2 }).tearDown v.package

/-- What an agent made is offered to the transport, what it restored is done, and a visit that it
did not acknowledge has failed. -/
@[elab_as_elim]
theorem collectWork_elim {P : System → Prop} {v : Visit} {token : OpToken}
    (offers : ∀ drained keyValue full observer nonIncremental call,
      t.job = .keyValue drained keyValue full observer nonIncremental →
      P ((s.collected v token).call { t with agentToken := none } call))
    (offersFull : ∀ p lastBackup, t.job = .full p lastBackup →
      P ((s.collected v token).call { t with agentToken := none }
        (.performFullBackup v.package.name)))
    (restores : (∀ drained keyValue full observer nonIncremental,
        t.job ≠ .keyValue drained keyValue full observer nonIncremental) →
      (∀ p lastBackup, t.job ≠ .full p lastBackup) →
      P ((s.collected v token).moveTo { t with agentToken := none } .choosing))
    (fails : P ((s.collected v token).visitFailed { t with agentToken := none } v
      (if t.canceled then .cancelled else .agentFailure))) :
    P (s.collectWork t v token) := by
  unfold collectWork
  simp only
  split
  · split
    · rename_i hjob _
      exact offers _ _ _ _ _ _ hjob
    · rename_i hjob _
      exact offers _ _ _ _ _ _ hjob
    · rename_i hjob
      exact offersFull _ _ hjob
    all_goals
      rename_i hjob
      exact restores (by simp [hjob]) (by simp [hjob])
  · exact fails

theorem commitStatus_eq_success {reply : Device.Reply} :
    commitStatus reply = .success ↔ reply = .ok .ok := by
  unfold commitStatus
  split <;> simp_all

/-- A pass asks for its dataset when its commit was accepted and none is known. -/
theorem wantsDataset_iff (s : System) (reply : Device.Reply) :
    s.wantsDataset reply = true ↔ reply = .ok .ok ∧ s.engine.datasets.current = 0 := by
  simp [wantsDataset, commitStatus_eq_success]

/-- What the transport says to a package of a pass ends the package. One that it took is remembered
before, and a package that was backed up in full comes back into the schedule. What it says to the
commit ends the pass, unless the pass has to ask for the dataset that it wrote. -/
@[elab_as_elim]
theorem replyKeyValue_elim {P : System → Prop} {drained : Option Drained}
    {observer : Option String} {call : TransportCall} {reply : Device.Reply}
    (done : ∀ (left : System) package,
      left = s ∨ left = s.writeMetadata (t.heed reply).transport ∨
        left = s.recordProcessed package →
      P (left.packageDone (t.heed reply) drained observer package (Status.ofReply reply)))
    (doneFull : ∀ package, Status.ofReply reply = .success →
      P (((s.recordProcessed package).enqueueFull package s.now).packageDone (t.heed reply) drained
        observer package .success))
    (asks : s.wantsDataset reply = true → P (s.call (t.heed reply) .currentRestoreSet))
    (commits : s.wantsDataset reply = false →
      P (s.endKeyValue (t.heed reply) drained (commitStatus reply))) :
    P (s.replyKeyValue t drained observer call reply) := by
  unfold replyKeyValue
  simp only
  split
  · split
    · split
      · exact done _ _ (.inr (.inl rfl))
      · exact done _ _ (.inr (.inr rfl))
    · exact done _ _ (.inl rfl)
  · split
    · rename_i hsuccess
      rw [hsuccess]
      exact doneFull _ hsuccess
    · exact done _ _ (.inl rfl)
  · split
    · rename_i hwants
      exact asks hwants
    · rename_i hknown
      exact commits (by simpa using hknown)

/-- A full backup that the transport took is committed, and one that it refused ends. What it says
to the commit ends the backup, unless that has to ask for the dataset that it wrote. -/
@[elab_as_elim]
theorem replyFull_elim {P : System → Prop} {package : String} {lastBackup : Int}
    {call : TransportCall} {reply : Device.Reply}
    (commits : P ((s.recordProcessed package).call (t.heed reply) .finishBackup))
    (fails : P (s.endFull (t.heed reply) package lastBackup (Status.ofReply reply)))
    (asks : s.wantsDataset reply = true → P (s.call (t.heed reply) .currentRestoreSet))
    (ends : s.wantsDataset reply = false →
      P (s.endFull (t.heed reply) package lastBackup (commitStatus reply))) :
    P (s.replyFull t package lastBackup call reply) := by
  unfold replyFull
  simp only
  split
  · split
    · exact commits
    · exact fails
  · split
    · rename_i hwants
      exact asks hwants
    · rename_i hknown
      exact ends (by simpa using hknown)

/-- The system in which a scheduled full backup that failed has drawn the spread of its delay. -/
def drawnRetry (s : System) (t : Task) : System :=
  ((s.heedInit t).draw (s.heedInit t).engine.settings.busyFuzz).2

/-- A full backup puts its package back into the schedule: as just backed up, or to be tried again.
A due time that is out of range breaks it. -/
@[elab_as_elim]
theorem endFull_elim {P : System → Prop} {package : String} {lastBackup : Int} {status : Status}
    (succeeds : status = .success →
      P (((s.heedInit t).enqueueFull package (s.heedInit t).now).moveTo t (.closing status)))
    (retries : status ≠ .success → ∀ dueAt,
      P (((s.drawnRetry t).deferFull package lastBackup dueAt).moveTo t (.closing status)))
    (falls : status ≠ .success → P ((s.drawnRetry t).fall t)) :
    P (s.endFull t package lastBackup status) := by
  unfold endFull
  simp only
  split
  · exact succeeds ‹_›
  · rename_i hfailed
    unfold retryFull
    simp only
    split
    · exact retries hfailed _
    · exact falls hfailed

/-- The system after a transport answered, which uses up a line of its script. -/
def answered (s : System) (t : Task) (call : TransportCall) : System :=
  { s with device := (s.device.answer t.transport call).2 }

/-- What a transport answered goes to the job of the task. A wipe and a clearing of data have to be
committed, and a restore that was started goes on with its packages. -/
@[elab_as_elim]
theorem takeReply_elim {P : System → Prop} {call : TransportCall}
    (keyValue : ∀ drained keyValue full observer nonIncremental,
      t.job = .keyValue drained keyValue full observer nonIncremental →
      P ((s.answered t call).replyKeyValue t drained observer call
        (s.device.answer t.transport call).1))
    (full : ∀ p lastBackup, t.job = .full p lastBackup →
      P ((s.answered t call).replyFull t p.name lastBackup call
        (s.device.answer t.transport call).1))
    (wipeGoesOn : ∀ rest observer overall, t.job = .wipe rest observer overall →
      call = .initializeDevice → P ((s.answered t call).call t .finishBackup))
    (wiped : ∀ rest observer overall, t.job = .wipe rest observer overall →
      (call = .initializeDevice →
        commitStatus (s.device.answer t.transport call).1 ≠ .success) →
      P ((s.answered t call).initDone t rest observer overall
        (s.device.answer t.transport call).1))
    (clearGoesOn : ∀ package, t.job = .clearData package →
      P ((s.answered t call).call t .finishBackup))
    (cleared : ∀ package, t.job = .clearData package → P ((s.answered t call).endPlain t))
    (restoreGoesOn : ∀ order rest, t.job = .restore order rest →
      P ((s.answered t call).moveTo t .choosing))
    (restoreFails : ∀ order rest token packages, t.job = .restore order rest →
      call = .startRestore token packages →
      commitStatus (s.device.answer t.transport call).1 ≠ .success →
      P ((s.answered t call).endRestore t order false))
    (restored : ∀ order rest, t.job = .restore order rest →
      (∀ token packages, call ≠ .startRestore token packages) →
      P ((s.answered t call).endRestore t order true)) :
    P (s.takeReply t call) := by
  unfold takeReply
  simp only
  split
  · rename_i hjob
    exact keyValue _ _ _ _ _ hjob
  · rename_i hjob
    exact full _ _ hjob
  · rename_i hjob
    split
    · exact wipeGoesOn _ _ _ hjob rfl
    · rename_i hother
      exact wiped _ _ _ hjob hother
  · rename_i hjob
    split
    · exact clearGoesOn _ hjob
    · exact cleared _ hjob
  · rename_i hjob
    split
    · split
      · exact restoreGoesOn _ _ hjob
      · rename_i hrefused
        exact restoreFails _ _ _ _ hjob rfl hrefused
    · rename_i hother
      exact restored _ _ hjob hother

/-- A task makes the step that belongs to the stage at which it stands. The answer to the question
for a dataset is taken by a pass that asked for it. -/
@[elab_as_elim]
theorem stepTask_elim {P : System → Prop}
    (opening : t.stage = .opening → P (s.openTask t))
    (choosing : t.stage = .choosing → P (s.choose t))
    (queued : ∀ v ticket, t.stage = .queued v ticket → P (s.askHost t v ticket))
    (binding : ∀ v ticket, t.stage = .binding v ticket → P (s.meetAgent t v))
    (prepared : ∀ v token, t.stage = .prepared v token → P (s.heedCancel t v token))
    (starting : ∀ v token, t.stage = .starting v token → P (s.giveWork t v token))
    (working : ∀ v token, t.stage = .working v token → P (s.collectWork t v token))
    (asking : t.stage = .calling .currentRestoreSet → P (s.takeDataset t))
    (calling : ∀ call, t.stage = .calling call → call ≠ .currentRestoreSet →
      P (s.takeReply t call))
    (closing : ∀ status, t.stage = .closing status → P (s.closeTask t status))
    (leaving : t.stage = .leaving → P (s.leave t))
    (fallen : t.stage = .fallen → P s) : P (s.stepTask t) := by
  unfold stepTask
  split
  · exact opening ‹_›
  · exact choosing ‹_›
  · exact queued _ _ ‹_›
  · exact binding _ _ ‹_›
  · exact prepared _ _ ‹_›
  · exact starting _ _ ‹_›
  · exact working _ _ ‹_›
  · exact asking ‹_›
  · rename_i hother hstage
    exact calling _ hstage hother
  · exact closing _ ‹_›
  · exact leaving ‹_›
  · exact fallen ‹_›

end Steps

/-! ## The start of an engine -/

/-- What is stored comes out of the disk; for the rest the engine is a new one. -/
theorem load_eq (settings : Settings) (disk : Disk) (device : Device) :
    ∃ disk' policy pending schedule datasets processed,
      (load settings disk device).2 =
        ⟨disk', device,
          { settings, policy, transports := { root := settings.baseStateDir }, pending, schedule
            participants := participantsOf device.catalog, datasets, processed }⟩ := by
  unfold load
  simp only
  generalize Pending.replay _ _ _ = replayed
  generalize Schedule.load _ _ _ _ = loaded
  exact ⟨_, _, _, _, _, _, rfl⟩

/-- A new engine may have the schedule written, arm the job of passes, and arms that of full
backups. -/
@[elab_as_elim]
theorem wakeUp_elim {P : System → Prop} {s : System} {scheduleChanged : Bool} (h : P s)
    (writes : ∀ s, P s → P s.requestScheduleWrite)
    (armsKeyValue : ∀ s, P s → P s.scheduleKeyValueJob)
    (armsFull : ∀ s, P s → P (s.scheduleNextFullJob 0)) : P (s.wakeUp scheduleChanged) := by
  have hwrite : P (if scheduleChanged then s.requestScheduleWrite else s) := by
    split
    · exact writes _ h
    · exact h
  have hjob : ∀ (s : System) (hasPending : Bool), P s →
      P (if hasPending then s.scheduleKeyValueJob else s) := by
    intro s hasPending h
    split
    · exact armsKeyValue _ h
    · exact h
  exact armsFull _ (hjob _ _ hwrite)

/-- An engine starts when its settings pass the check and both its folders can be made; it loads
what is stored and wakes up with that. -/
theorem start_cases {settings : Settings} {disk : Disk} {device : Device} {s : System}
    (h : start settings disk device = .ok s) :
    settings.validate = .ok () ∧
      ∃ disk₁ disk₂, Store.makeFolders disk settings.folder = (.ok (), disk₁) ∧
        Store.makeFolders disk₁ (settings.folder.child Pending.folderName) = (.ok (), disk₂) ∧
        s = (load settings disk₂ device).2.wakeUp (load settings disk₂ device).1 := by
  unfold start at h
  split at h
  · cases h
  · rename_i hvalid
    split at h
    · cases h
    · rename_i disk₁ hfolder
      split at h
      · cases h
      · rename_i disk₂ hpending
        refine ⟨hvalid, disk₁, disk₂, hfolder, hpending, ?_⟩
        generalize load settings disk₂ device = loaded at h ⊢
        exact (Except.ok.inj h).symm

end System

end Holdfast
