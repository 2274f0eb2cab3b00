import Holdfast.Proofs.Engine.AgendaWork
import Holdfast.Proofs.Schedule.File

/-!
# What incidents do to the agenda

- `World.Affair`: everything that can happen to the agenda, one constructor per sort of incident;
- `World.meet_affair`: **each incident does to the agenda one of these**;
- `Agenda.Regular`: what the agenda of every running engine has in common, and
  `World.live_regular` that every run keeps it;
- `System.start_agenda`: the agenda at the start.
-/

namespace Holdfast

open Agenda

/-- The package that a call announces as installed, and whether it replaces an earlier one. -/
def Call.added? : Call → Option (String × Bool)
  | .packageAdded package replacing => some (package, replacing)
  | .packageChanged package => some (package, true)
  | _ => none

/-- What the agenda of an engine has at all times. -/
structure Agenda.Regular (a : Agenda) : Prop where
  /-- No timer has a chore. -/
  prompt : a.delayed = []
  single : a.schedule.Single
  course : ∀ entry ∈ a.errands, ∀ p lastBackup token stage,
    entry.2 = .full p lastBackup token stage → stage.IsFull p

namespace World

variable {w : World}

/-- Incidents that cannot pass the agenda by. -/
def Stirs (w : World) : Incident → Prop
  | .event .command => ∃ command ∈ w.system.engine.inbox.head?, command.isChore = true
  | .event (.task number) =>
    ∃ t, w.system.engine.tasks.find? (·.number == number) = some t ∧ w.system.isReady t = true
  | .event (.call .runPass) | .event (.call .backupNow) => True
  | .event (.call (.packageRemoved _ _)) => True
  | .event (.call (.packageAdded package _)) | .event (.call (.packageChanged package)) =>
    w.system.device.package? package ≠ none
  | _ => False

/-- What an incident does to the agenda. -/
inductive Affair (w : World) : Incident → Agenda → Prop where
  | idle {i : Incident} : ¬ w.Stirs i → Affair w i w.system.agenda
  | reorders {i : Incident} {errands : List (Nat × Errand)} : ¬ w.Stirs i →
    errands.Perm w.system.agenda.errands → Affair w i { w.system.agenda with errands }
  /-- A task begins that backs nothing up. -/
  | begins {i : Incident} (number : Nat) : ¬ w.Stirs i →
    Affair w i (w.system.agenda.enter number .other)
  | stages (package : String) (targets : NameSet) (disk : Disk) : ¬ w.Stirs (.event .command) →
    Affair w (.event .command)
      ({ w.system.agenda with
        pending := (w.system.agenda.pending.record package targets disk).2.1 } : Agenda).arm
  /-- A tick finds that there is nothing to do now. -/
  | sleeps {rest : List Command} : w.system.engine.inbox = .runKeyValue :: rest →
    (w.system.agenda.policy.allows = false ∨ 0 < w.system.agenda.passes ∨
      w.system.agenda.pending.packages.isEmpty = true) →
    Affair w (.event .command) { w.system.agenda with mail := rest.filter Command.isChore }
  /-- A tick finds no transport. -/
  | postpones {rest : List Command} : w.system.engine.inbox = .runKeyValue :: rest →
    Affair w (.event .command)
      ({ w.system.agenda with mail := rest.filter Command.isChore } : Agenda).arm
  /-- A tick starts a pass. -/
  | starts {rest : List Command} (number : Nat) :
    w.system.engine.inbox = .runKeyValue :: rest → w.system.agenda.passes = 0 →
    Affair w (.event .command)
      (({ w.system.agenda with
        mail := rest.filter Command.isChore
        pending := w.system.agenda.pending.drain.2
        passes := w.system.agenda.passes + 1 } : Agenda).enter number
          (.pass (some w.system.agenda.pending.drain.1) false))
  /-- The passes that run are counted. -/
  | recounts (passes : Nat) : ¬ w.Stirs (.event .command) →
    Affair w (.event .command) { w.system.agenda with passes }
  /-- A requested backup begins. -/
  | serves (passes number : Nat) : ¬ w.Stirs (.event .command) →
    Affair w (.event .command)
      (({ w.system.agenda with passes } : Agenda).enter number (.pass none false))
  | writes {rest : List Command} : w.system.engine.inbox = .writeSchedule :: rest →
    Affair w (.event .command)
      { w.system.agenda with mail := rest.filter Command.isChore, writing := false }
  | stops : w.system.engine.inbox.head? = some .shutdown →
    Affair w (.event .command) { w.system.agenda with mail := [], looping := false }
  | cancels {i : Incident} (number : Nat) : ¬ w.Stirs i →
    Affair w i (w.system.agenda.cancel number)
  | cancelsAll (numbers : List Nat) :
    Affair w (.event (.call .cancelBackups))
      { numbers.foldl Agenda.cancel w.system.agenda with jobs := true :: w.system.agenda.jobs }
  | ticks {c : Call} : c = .runPass ∨
      (c = .backupNow ∧ w.system.agenda.policy.batterySaver = false) →
    Affair w (.event (.call c)) (w.system.agenda.post .runKeyValue)
  /-- A backup at once is put off by battery saver. -/
  | saves : w.system.agenda.policy.batterySaver = true →
    Affair w (.event (.call .backupNow)) w.system.agenda.arm
  | full {a : Agenda} : w.system.BeginsFull w.system.beginFull.1 a →
    Affair w (.event (.call .beginFull)) a
  | rules {i : Incident} {a : Agenda} : ¬ w.Stirs i → System.Rules w.system.agenda a →
    Affair w i a
  | resets (transport : String) (packages : List String) (disk : Disk) :
    Affair w (.event (.call (.resetBackupState transport)))
      ({ w.system.agenda with
        pending := (w.system.agenda.pending.restage packages disk).1 } : Agenda).arm
  | adds {c : Call} {package : String} {p : Package} {replacing : Bool} :
    c.added? = some (package, replacing) → w.system.device.package? package = some p →
    Affair w (.event (.call c)) (w.system.agenda.add package p replacing)
  | removes (package : String) (replacing : Bool)
      {transports : List (String × TransportDescription)} :
    transports ⊆ w.system.agenda.transports →
    Affair w (.event (.call (.packageRemoved package replacing)))
      { if replacing then w.system.agenda else w.system.agenda.remove package with transports }
  | registers (t : TransportDescription) :
    Affair w (.event (.call (.registerTransport t)))
      { w.system.agenda with
        transports := TransportRegistry.enter w.system.agenda.transports t }
  | unregisters (name : String) {transports : List (String × TransportDescription)} :
    transports ⊆ w.system.agenda.transports →
    Affair w (.event (.call (.unregisterTransport name))) { w.system.agenda with transports }
  | outside (disk : Disk) (device : Device) :
    Affair w (.event (.outside disk device))
      { w.system.agenda with
        catalog := device.catalog, now := device.now, chance := device.chance }
  | turn {t : Task} {a : Agenda} :
    w.system.engine.tasks.find? (·.number == t.number) = some t → w.system.isReady t = true →
    Turn w.system.agenda (w.system.Assents t) t.number t.errand a →
    Affair w (.event (.task t.number)) a

/-! ## Commands -/

/-- The oldest command was taken. -/
theorem taken_agenda (w : World) (rest : List Command) :
    (w.system.onEngine fun e => { e with inbox := rest }).agenda =
      { w.system.agenda with mail := rest.filter Command.isChore } := rfl

theorem taken_idle {command : Command} {rest : List Command}
    (hinbox : w.system.engine.inbox = command :: rest) (hchore : command.isChore = false) :
    (w.system.onEngine fun e => { e with inbox := rest }).agenda = w.system.agenda := by
  have hmail : w.system.agenda.mail = rest.filter Command.isChore := by
    show w.system.engine.inbox.filter Command.isChore = _
    rw [hinbox, List.filter_cons_of_neg (by simp [hchore])]
  rw [taken_agenda, ← hmail]

/-- The oldest chore of the agenda is that of the inbox. -/
theorem mail_chore {command : Command} {rest : List Command}
    (hinbox : w.system.engine.inbox = command :: rest) (hchore : command.isChore = true) :
    w.system.agenda.mail = command :: rest.filter Command.isChore := by
  show w.system.engine.inbox.filter Command.isChore = _
  rw [hinbox, List.filter_cons_of_pos hchore]

/-- What a command does to the agenda. -/
theorem handle_affair (ha : w.system.agenda.Regular) {command : Command} {rest : List Command}
    (hinbox : w.system.engine.inbox = command :: rest) :
    w.Affair (.event .command)
      ((w.system.onEngine fun e => { e with inbox := rest }).handle command).agenda := by
  -- only chores stir the agenda
  have hcalm : command.isChore = false → ¬ w.Stirs (.event .command) := by
    rintro hchore ⟨head, hhead, hstirs⟩
    rw [hinbox] at hhead
    cases hhead
    rw [hchore] at hstirs
    cases hstirs
  generalize htaken : (w.system.onEngine fun e => { e with inbox := rest }) = s
  -- taken from the queue, a chore leaves the mail, and another command was not in it
  have hsame : command.isChore = false → s.agenda = w.system.agenda :=
    fun hchore => htaken ▸ taken_idle hinbox hchore
  have hchore : s.agenda = { w.system.agenda with mail := rest.filter Command.isChore } :=
    htaken ▸ w.taken_agenda rest
  have hprompt : s.agenda.delayed = [] := hchore ▸ ha.prompt
  cases command with
  | dataChanged package targets =>
    unfold System.handle
    rw [s.handleDataChanged_agenda, hsame rfl]
    exact .stages package targets s.disk (hcalm rfl)
  | runKeyValue =>
    unfold System.handle
    -- nothing to do, or no transport, or a pass begins
    rcases s.runKeyValue_agenda with ⟨heq, hwhy⟩ | heq | ⟨hfree, heq⟩
    · rw [hchore] at heq hwhy
      rw [heq]
      exact .sleeps hinbox hwhy
    · rw [heq, hchore]
      exact .postpones hinbox
    · rw [hchore] at heq hfree
      rw [heq]
      exact .starts _ hinbox hfree
  | requestBackup order =>
    unfold System.handle
    rcases s.startRequested_agenda order with heq | heq
    · rw [heq, hsame rfl]
      exact .idle (hcalm rfl)
    · rw [heq, hsame rfl]
      exact .serves _ _ (hcalm rfl)
  | passFinished =>
    unfold System.handle
    -- the next request begins only where no other pass runs
    rcases s.handlePassFinished_agenda with ⟨passes, heq⟩ | ⟨passes, heq⟩
    · rw [heq, hsame rfl]
      exact .recounts passes (hcalm rfl)
    · rw [heq, hsame rfl]
      exact .serves passes _ (hcalm rfl)
  | wipe transports observer =>
    unfold System.handle
    rcases s.startInit_agenda transports observer with heq | heq
    · rw [heq, hsame rfl]
      exact .idle (hcalm rfl)
    · rw [heq, hsame rfl]
      exact .begins _ (hcalm rfl)
  | clearData transport package =>
    unfold System.handle
    rcases s.startClearData_agenda transport package with heq | heq
    · rw [heq, hsame rfl]
      exact .idle (hcalm rfl)
    · rw [heq, hsame rfl]
      exact .begins _ (hcalm rfl)
  | writeSchedule =>
    show w.Affair _ { s.agenda with writing := false }
    rw [hchore]
    exact .writes hinbox
  | startRestore order =>
    unfold System.handle
    rcases s.startRestore_agenda hprompt order with heq | ⟨number, heq⟩
    · rw [heq, hsame rfl]
      exact .idle (hcalm rfl)
    · rw [heq, hsame rfl]
      exact .begins number (hcalm rfl)
  | restoreFinished session =>
    unfold System.handle
    rcases s.handleRestoreFinished_agenda hprompt session with heq | ⟨number, heq⟩
    · rw [heq, hsame rfl]
      exact .idle (hcalm rfl)
    · rw [heq, hsame rfl]
      exact .begins number (hcalm rfl)
  | sessionTimeout session =>
    unfold System.handle
    rw [s.closeSession_agenda hprompt, hsame rfl]
    exact .idle (hcalm rfl)
  | snapshot =>
    unfold System.handle
    rw [hsame rfl]
    exact .idle (hcalm rfl)
  | shutdown =>
    show w.Affair _ { s.agenda with mail := [], looping := false }
    rw [hsame rfl]
    exact .stops (by rw [hinbox]; rfl)

/-! ## Calls -/

/-- A package is announced. -/
theorem added_affair {c : Call} {package : String} {replacing : Bool}
    (hadded : c.added? = some (package, replacing))
    (hmake : c.make w.system = w.system.packageAdded package replacing)
    (hcalm : w.system.device.package? package = none → ¬ w.Stirs (.event (.call c))) :
    w.Affair (.event (.call c)) (c.make w.system).agenda := by
  rw [hmake]
  cases hfind : w.system.device.package? package with
  | none =>
    have hsame : w.system.packageAdded package replacing = w.system := by
      unfold System.packageAdded
      rw [hfind]
    rw [hsame]
    exact .idle (hcalm hfind)
  | some p =>
    rw [System.packageAdded_agenda hfind]
    exact .adds hadded hfind

/-- What a call does to the agenda. -/
theorem make_affair (ha : w.system.agenda.Regular) (hs : w.system.agenda.Distinct) (c : Call) :
    w.Affair (.event (.call c)) (c.make w.system).agenda := by
  have hidle : ∀ {c : Call}, (c.make w.system).agenda = w.system.agenda →
      ¬ w.Stirs (.event (.call c)) → w.Affair (.event (.call c)) (c.make w.system).agenda := by
    intro c hsame hcalm
    rw [hsame]
    exact .idle hcalm
  have hcancels : ∀ {c : Call}, ((c.make w.system).agenda = w.system.agenda ∨
      ∃ number, (c.make w.system).agenda = w.system.agenda.cancel number) →
      ¬ w.Stirs (.event (.call c)) → w.Affair (.event (.call c)) (c.make w.system).agenda := by
    rintro c (hsame | ⟨number, heq⟩) hcalm
    · exact hidle hsame hcalm
    · rw [heq]
      exact .cancels number hcalm
  cases c with
  | runPass =>
    show w.Affair _ w.system.runPass.2.agenda
    rw [w.system.runPass_agenda]
    exact .ticks (.inl rfl)
  | backupNow =>
    show w.Affair _ w.system.backupNow.2.agenda
    rcases w.system.backupNow_agenda with ⟨hsaver, heq⟩ | ⟨hsaver, heq⟩
    · rw [heq]
      exact .saves hsaver
    · rw [heq]
      exact .ticks (.inr ⟨rfl, hsaver⟩)
  | cancelBackups =>
    obtain ⟨numbers, heq⟩ := System.cancelBackups_agenda hs
    show w.Affair _ w.system.cancelBackups.agenda
    rw [heq]
    exact .cancelsAll numbers
  | beginFull => exact .full (System.beginFull_cases ha.single)
  | endFull => exact hcancels (System.endFullNow_agenda hs) id
  | registerTransport t =>
    show w.Affair _ (w.system.registerTransport t).2.agenda
    rcases w.system.registerTransport_agenda t with heq | heq
    · rw [heq]
      exact .idle id
    · rw [heq]
      exact .registers t
  | unregisterTransport name =>
    show w.Affair _ (w.system.unregisterTransport name).2.agenda
    obtain ⟨transports, hsubset, heq⟩ := w.system.unregisterTransport_agenda name
    rw [heq]
    exact .unregisters name hsubset
  | resetBackupState transport =>
    show w.Affair _ (w.system.resetBackupState transport).2.agenda
    rcases w.system.resetBackupState_agenda transport with heq | ⟨packages, disk, heq⟩
    · rw [heq]
      exact .idle id
    · rw [heq]
      exact .resets transport packages disk
  | setEnabled on => exact .rules id (w.system.setEnabled_agenda on)
  | setProvisioned on => exact .rules id (w.system.setProvisioned_agenda on)
  | setAutoRestore on | setBatterySaver on | setMandatory component =>
    exact .rules id (.keeps id rfl)
  | packageAdded package replacing =>
    exact added_affair rfl rfl fun hnone hsome => hsome hnone
  | packageRemoved package replacing =>
    show w.Affair _ (w.system.packageRemoved package replacing).agenda
    obtain ⟨transports, hsubset, heq⟩ := w.system.packageRemoved_agenda package replacing
    rw [heq]
    exact .removes package replacing hsubset
  | packageChanged package =>
    refine added_affair rfl ?_ fun hnone hsome => hsome hnone
    show w.system.packageChanged package = _
    unfold System.packageChanged System.packageAdded
    split <;> simp_all
  | cancelOperation token =>
    refine hcancels ?_ id
    exact (System.cancelOperation_agenda hs token).imp_right fun ⟨number, _, heq⟩ => ⟨number, heq⟩
  | beginSession caller package transport =>
    exact hidle (w.system.beginSession_agenda ha.prompt _ _ _) id
  | endSession session => exact hidle (w.system.closeSession_agenda ha.prompt _) id
  | _ =>
    -- No other call has a part of the agenda in its footprint.
    refine hidle ((w.system.make_within _).agenda ?_) id
    dsimp only [Call.footprint]
    decide

/-! ## Incidents -/

/-- The step of a task. -/
theorem task_affair (ha : w.system.agenda.Regular) (hs : w.system.agenda.Distinct)
    (number : Nat) :
    w.Affair (.event (.task number)) (w.happen (.task number)).system.agenda := by
  simp only [happen]
  split
  · rename_i hfind
    exact .idle (by simp [Stirs, hfind])
  · rename_i t hfind
    obtain rfl : t.number = number := by simpa using List.find?_some hfind
    split
    · rename_i hready
      have hmem := System.mem_errands (List.mem_of_find?_eq_some hfind)
      refine .turn hfind hready
        (System.stepTask_errand ⟨hs, hmem⟩ hready fun p lastBackup hjob => ?_)
      exact ha.course _ hmem p lastBackup t.token t.stage (System.errand_full hjob)
    · rename_i hready
      exact .idle (by simp [Stirs, hfind, hready])

/-- **What an incident does to the agenda is one of its affairs.** -/
theorem meet_affair (ha : w.system.agenda.Regular) (hs : w.system.agenda.Distinct)
    (i : Incident) : w.Affair i (w.meet i).system.agenda := by
  have hidle : ∀ {i : Incident} {s : System}, s.agenda = w.system.agenda → ¬ w.Stirs i →
      w.Affair i s.agenda := by
    intro i s hsame hcalm
    rw [hsame]
    exact .idle hcalm
  cases i with
  | shutdown => exact hidle (w.system.send_agenda rfl) id
  | event event =>
    cases event with
    | command =>
      simp only [meet, happen]
      split
      · rename_i hnil
        exact .idle (by simp [Stirs, hnil])
      · rename_i command rest hinbox
        exact handle_affair ha hinbox
    | operation =>
      simp only [meet, happen]
      split
      · exact .idle id
      · rename_i event rest _
        rcases @System.handleEvent_agenda (w.system.onEngine fun e =>
          { e with ops := { e.ops with events := rest } }) hs event with hsame | ⟨number, heq⟩
        · exact hidle hsame id
        · show w.Affair _ (System.handleEvent _ event).agenda
          rw [heq]
          exact .cancels number id
    | timers => exact hidle (w.system.fireTimers_agenda ha.prompt) id
    | clock => exact .idle id
    | task number => exact task_affair ha hs number
    | sendBack number =>
      obtain ⟨errands, hperm, heq⟩ := w.system.sendBack_agenda number
      show w.Affair _ (w.system.sendBack number).agenda
      rw [heq]
      exact .reorders id hperm
    | wake transport method =>
      obtain ⟨errands, hperm, heq⟩ := w.system.wake_agenda transport method
      show w.Affair _ (w.system.wake transport method).agenda
      rw [heq]
      exact .reorders id hperm
    | call c => exact make_affair ha hs c
    | select name =>
      refine hidle ?_ id
      show (w.happen (.select name)).system.agenda = w.system.agenda
      have hbegun := (w.system.beginSelect_within name).agenda (by decide)
      rcases w.select_system name with heq | heq
      · rw [heq, hbegun]
      · rw [heq, (System.endSelect_within _ none).agenda (by decide), hbegun]
    | drop index =>
      refine hidle ?_ id
      show (w.happen (.drop index)).system.agenda = w.system.agenda
      rw [drop_system]
    | sets session =>
      refine hidle ?_ id
      show (w.happen (.sets session)).system.agenda = w.system.agenda
      rw [sets_system, (w.system.beginSets_within session).agenda (by decide)]
    | land index =>
      refine hidle ?_ id
      simp only [meet, happen]
      split
      · rfl
      · rename_i flight _
        cases flight with
        | select lease => exact (w.system.endSelect_within (some lease)).agenda (by decide)
        | sets session lease => exact w.system.endSets_agenda ha.prompt session lease
    | outside disk device => exact .outside disk device

end World

/-! ## What stays as it is -/

theorem Agenda.Heeds.frame {a a' : Agenda} (h : a.Heeds a') :
    ∃ errands, a' = { a with errands } := by
  rcases h with rfl | ⟨number, rfl⟩ <;> exact ⟨_, rfl⟩

/-- What the wind-down of a full backup leaves alone. -/
theorem Agenda.endFull_frame (a : Agenda) (number : Nat) (p : Package) (lastBackup : Int)
    (token : Option OpToken) (status : Status) :
    ∃ schedule writing mail errands chance,
      a.endFull number p lastBackup token status =
        { a with schedule, writing, mail, errands, chance } := by
  have hrequest : ∀ (a : Agenda) (errand : Errand), ∃ writing mail errands,
      a.request.seat number errand = { a with writing, mail, errands } := by
    intro a errand
    obtain ⟨_, _, heq⟩ := a.request_eq
    rw [heq]
    exact ⟨_, _, _, rfl⟩
  unfold endFull
  split
  · obtain ⟨_, _, _, heq⟩ := hrequest _ (.full p lastBackup token (.closing status))
    exact ⟨_, _, _, _, _, heq⟩
  · split
    · obtain ⟨_, _, _, heq⟩ := hrequest _ (.full p lastBackup token (.closing status))
      exact ⟨_, _, _, _, _, heq⟩
    · exact ⟨_, _, _, _, _, rfl⟩

/-- What a step of a task leaves alone. -/
theorem Agenda.Turn.frame {a a' : Agenda} {assents : Prop} {number : Nat} {errand : Errand}
    (h : Turn a assents number errand a') :
    ∃ pending schedule running writing mail errands chance jobs,
      a' = { a with pending, schedule, running, writing, mail, errands, chance, jobs } := by
  cases h with
  | wipes _ _ | quits | leaves => exact ⟨_, _, _, _, _, _, _, _, rfl⟩
  | stays _ hheeds | moves _ hheeds =>
    obtain ⟨_, rfl⟩ := hheeds.frame
    exact ⟨_, _, _, _, _, _, _, _, rfl⟩
  | files package =>
    obtain ⟨_, _, heq⟩ :=
      ({ a with schedule := a.schedule.enqueue package a.now } : Agenda).request_eq
    exact ⟨_, _, _, _, _, _, _, _, heq⟩
  | @ends drained _ status disk _ =>
    obtain ⟨_, heq, -⟩ := a.endPass_eq number drained status disk
    rw [heq]
    exact ⟨_, _, _, _, _, _, _, _, rfl⟩
  | departs =>
    unfold closePass
    split <;> exact ⟨_, _, _, _, _, _, _, _, rfl⟩
  | @closes p lastBackup token _ status _ _ =>
    obtain ⟨_, _, _, _, _, heq⟩ := a.endFull_frame number p lastBackup token status
    rw [heq]
    exact ⟨_, _, _, _, _, _, _, _, rfl⟩
  | @vacates _ _ token _ =>
    obtain ⟨_, heq⟩ := a.vacate_eq token
    rw [heq]
    exact ⟨_, _, _, _, _, _, _, _, rfl⟩

/-- What the full-backup job leaves alone. -/
theorem System.BeginsFull.frame {s : System} {outcome : FullOutcome} {a : Agenda}
    (h : s.BeginsFull outcome a) : ∃ schedule running writing mail errands chance,
      a = { s.agenda with schedule, running, writing, mail, errands, chance } := by
  cases h with
  | nothing _ => exact ⟨_, _, _, _, _, _, rfl⟩
  | sifts _ _ =>
    obtain ⟨_, _, heq⟩ := Agenda.request_eq _
    exact ⟨_, _, _, _, _, _, heq⟩
  | starts _ _ _ _ =>
    obtain ⟨_, _, heq⟩ := Agenda.request_eq _
    exact ⟨_, _, _, _, _, _, heq⟩

/-! ## Regularity -/

namespace Agenda

variable {a a' : Agenda} {number : Nat} {errand : Errand}

/-- The errands are among those before, and the schedule is still single. -/
theorem Regular.of_errands (ha : a.Regular) (hprompt : a'.delayed = a.delayed)
    (hsingle : a'.schedule.Single)
    (herrands : ∀ entry ∈ a'.errands, entry.2.isFull = true → ∃ old ∈ a.errands, old.2 = entry.2) :
    a'.Regular where
  prompt := hprompt.trans ha.prompt
  single := hsingle
  course entry hentry p lastBackup token stage hfull := by
    obtain ⟨old, hold, hsame⟩ := herrands entry hentry (by rw [hfull]; rfl)
    exact ha.course old hold p lastBackup token stage (hsame.trans hfull)

/-- Only fields that regularity does not look at have changed. -/
theorem Regular.congr (ha : a.Regular) (hprompt : a'.delayed = a.delayed)
    (hschedule : a'.schedule = a.schedule) (herrands : a'.errands = a.errands) : a'.Regular where
  prompt := hprompt.trans ha.prompt
  single := hschedule ▸ ha.single
  course := herrands ▸ ha.course

theorem Regular.cancel (ha : a.Regular) (number : Nat) : (a.cancel number).Regular := by
  refine ha.of_errands rfl ha.single fun entry hentry hfull => ?_
  obtain ⟨errand, hold, hsame | hcancel⟩ := mem_cancel hentry
  · exact ⟨_, hold, hsame.symm⟩
  · refine ⟨_, hold, ?_⟩
    rw [hcancel] at hfull ⊢
    cases errand with
    | pass | passed | other => cases hfull
    | full => rfl

theorem Regular.request (ha : a.Regular) : a.request.Regular := by
  obtain ⟨_, _, heq⟩ := a.request_eq
  rw [heq]
  exact ha.congr rfl rfl rfl

theorem Regular.reschedule (ha : a.Regular) {q : Schedule} (hq : q.Single) :
    (a.reschedule q).Regular :=
  Regular.request ⟨ha.prompt, hq, ha.course⟩

theorem Regular.putBack (ha : a.Regular) (package : String) (lastBackup dueAt : Int) :
    (a.putBack package lastBackup dueAt).Regular :=
  Regular.request ⟨ha.prompt, ha.single.defer _ _ _, ha.course⟩

theorem Regular.heed (ha : a.Regular) (hheeds : a.Heeds a') : a'.Regular := by
  rcases hheeds with rfl | ⟨number, rfl⟩
  · exact ha
  · exact ha.cancel number

theorem Regular.seat (ha : a.Regular) (number : Nat)
    (herrand : ∀ p lastBackup token stage, errand = .full p lastBackup token stage →
      stage.IsFull p) : (a.seat number errand).Regular where
  prompt := ha.prompt
  single := ha.single
  course entry hentry p lastBackup token stage hfull := by
    rcases mem_seat hentry with rfl | ⟨hold, -⟩
    · exact herrand p lastBackup token stage hfull
    · exact ha.course entry hold p lastBackup token stage hfull

theorem Regular.seat_full (ha : a.Regular) (number : Nat) {p : Package} {lastBackup : Int}
    {token : Option OpToken} {stage : Stage} (hstage : stage.IsFull p) :
    (a.seat number (.full p lastBackup token stage)).Regular := by
  refine ha.seat number fun p' lastBackup' token' stage' hfull => ?_
  cases hfull
  exact hstage

theorem Regular.arm (ha : a.Regular) : a.arm.Regular := ha.congr rfl rfl rfl

theorem Regular.drop (ha : a.Regular) (number : Nat) : (a.drop number).Regular :=
  ha.of_errands rfl ha.single fun entry hentry _ => ⟨entry, (mem_drop.1 hentry).1, rfl⟩

theorem Regular.vacate (ha : a.Regular) (token : Option OpToken) : (a.vacate token).Regular := by
  obtain ⟨_, heq⟩ := a.vacate_eq token
  rw [heq]
  exact ha.congr rfl rfl rfl

theorem Regular.post (ha : a.Regular) (command : Command) : (a.post command).Regular := by
  unfold Agenda.post
  split
  · exact ha.congr rfl rfl rfl
  · exact ha

theorem Regular.enter (ha : a.Regular) (number : Nat)
    (herrand : ∀ p lastBackup token stage, errand = .full p lastBackup token stage →
      stage.IsFull p) : (a.enter number errand).Regular where
  prompt := ha.prompt
  single := ha.single
  course entry hentry p lastBackup token stage hfull := by
    rcases mem_enter.1 hentry with hold | rfl
    · exact ha.course entry hold p lastBackup token stage hfull
    · exact herrand p lastBackup token stage hfull

theorem Regular.enter_plain (ha : a.Regular) (number : Nat) (hplain : errand.isFull = false) :
    (a.enter number errand).Regular := by
  refine ha.enter number fun p lastBackup token stage hfull => ?_
  rw [hfull] at hplain
  cases hplain

/-- A step of a task keeps the agenda regular. -/
theorem Turn.regular {assents : Prop} (hturn : Turn a assents number errand a')
    (ha : a.Regular) : a'.Regular := by
  cases hturn with
  | stays _ hheeds => exact ha.heed hheeds
  | moves hadvances hheeds => exact (ha.heed hheeds).seat_full number hadvances.course
  | files package => exact ha.reschedule (ha.single.enqueue _ _)
  | wipes packages disk => exact ha.congr rfl rfl rfl
  | quits | leaves => exact ha.drop number
  | @ends drained _ status disk _ =>
    obtain ⟨pending, heq, -⟩ := a.endPass_eq number drained status disk
    have hclosed : ({ a with pending } : Agenda).Regular := ha.congr rfl rfl rfl
    rw [heq]
    exact hclosed.seat number fun _ _ _ _ hfull => nomatch hfull
  | departs =>
    unfold closePass
    split
    · exact ha.drop number
    · exact ha.arm.drop number
  | closes _ _ =>
    unfold endFull
    split
    · exact (ha.reschedule (ha.single.enqueue _ _)).seat_full number (.closing _)
    · split
      · exact (ha.putBack _ _ _).seat_full number (.closing _)
      · have hdrawn : a.drawRetry.Regular := ha.congr rfl rfl rfl
        exact hdrawn.seat_full number .fallen
  | vacates => exact (ha.vacate _).seat_full number .leaving

end Agenda

theorem System.BeginsFull.regular {s : System} {outcome : FullOutcome} {a : Agenda}
    (h : s.BeginsFull outcome a) (ha : s.agenda.Regular) : a.Regular := by
  cases h with
  | nothing _ => exact ha
  | sifts _ hsifted => exact Regular.request ⟨ha.prompt, hsifted.single, ha.course⟩
  | starts _ hsifted _ _ =>
    refine Regular.request (Regular.enter ?_ _ fun p lastBackup token stage hfull => ?_)
    · exact ⟨ha.prompt, hsifted.single.dequeue _, ha.course⟩
    · cases hfull
      exact .opening

namespace World

variable {w : World}

/-- Every affair keeps the agenda regular. -/
theorem Affair.regular {i : Incident} {a : Agenda} (h : w.Affair i a)
    (ha : w.system.agenda.Regular) : a.Regular := by
  cases h with
  | idle _ => exact ha
  | reorders _ hperm =>
    exact ha.of_errands rfl ha.single fun entry hentry _ =>
      ⟨entry, hperm.mem_iff.1 hentry, rfl⟩
  | begins number _ => exact ha.enter_plain number rfl
  | starts number _ _ | serves passes number _ =>
    refine Regular.enter_plain ?_ number rfl
    exact ha.congr rfl rfl rfl
  | stages | postpones | saves | resets | sleeps | recounts | writes | stops | registers
  | unregisters | outside => exact ha.congr rfl rfl rfl
  | cancels number _ => exact ha.cancel number
  | cancelsAll numbers =>
    have hall : (numbers.foldl Agenda.cancel w.system.agenda).Regular :=
      List.foldlRecOn (motive := Agenda.Regular) numbers Agenda.cancel ha
        fun a h number _ => h.cancel number
    exact hall.congr rfl rfl rfl
  | ticks _ => exact ha.post .runKeyValue
  | full hbegins => exact hbegins.regular ha
  | rules _ hrules =>
    cases hrules with
    | same => exact ha
    | keeps | allows | forbids => exact ha.congr rfl rfl rfl
  | adds _ _ =>
    refine Regular.reschedule ?_ ?_
    · exact ha.congr rfl rfl rfl
    · split
      · exact ha.single.enqueue _ _
      · exact ha.single.dequeue _
  | removes package replacing _ => cases replacing <;> exact ha.congr rfl rfl rfl
  | turn _ _ hturn => exact hturn.regular ha

/-- The settings are those of the start. -/
theorem Affair.settings {i : Incident} {a : Agenda} (h : w.Affair i a) :
    a.settings = w.system.agenda.settings := by
  cases h with
  | full hbegins =>
    obtain ⟨_, _, _, _, _, _, rfl⟩ := hbegins.frame
    rfl
  | rules _ hrules => cases hrules <;> rfl
  | ticks _ =>
    unfold Agenda.post
    split <;> rfl
  | @adds _ package p replacing _ _ =>
    obtain ⟨_, _, heq⟩ := w.system.agenda.add_eq package p replacing
    rw [heq]
  | removes _ replacing _ => cases replacing <;> rfl
  | cancelsAll numbers =>
    obtain ⟨_, heq⟩ := w.system.agenda.cancelAll_eq numbers
    rw [heq]
  | turn _ _ hturn =>
    obtain ⟨_, _, _, _, _, _, _, _, rfl⟩ := hturn.frame
    rfl
  | idle | reorders | begins | stages | sleeps | postpones | starts | recounts | serves | writes
  | stops | cancels | saves | resets | registers | unregisters | outside => rfl

/-- A regular agenda whose tasks have numbers of their own. -/
structure Orderly (w : World) : Prop where
  numbered : w.system.Numbered
  regular : w.system.agenda.Regular

theorem Orderly.affair (hw : w.Orderly) (i : Incident) : w.Affair i (w.meet i).system.agenda :=
  meet_affair hw.regular hw.numbered.distinct i

theorem Orderly.meet (hw : w.Orderly) (i : Incident) : (w.meet i).Orderly where
  numbered := by
    obtain ⟨_, -, hshows⟩ := meet_matter hw.numbered i
    exact hshows.numbered
  regular := (hw.affair i).regular hw.regular

theorem Orderly.live (hw : w.Orderly) (incidents : List Incident) :
    (w.live incidents).Orderly := by
  induction incidents generalizing w with
  | nil => exact hw
  | cons i incidents ih => exact ih (hw.meet i)

/-- What every incident keeps in an orderly world is kept by every run. -/
theorem Orderly.live_invariant (hw : w.Orderly) {P : World → Prop} (hstart : P w)
    (hkeeps : ∀ w : World, w.Orderly → ∀ i, P w → P (w.meet i)) (incidents : List Incident) :
    P (w.live incidents) := by
  induction incidents generalizing w with
  | nil => exact hstart
  | cons i incidents ih => exact ih (hw.meet i) (hkeeps w hw i hstart)

/-- The settings are those of the start after every run. -/
theorem Orderly.live_settings (hw : w.Orderly) (incidents : List Incident) :
    (w.live incidents).system.engine.settings = w.system.engine.settings :=
  hw.live_invariant (P := fun w' => w'.system.engine.settings = w.system.engine.settings) rfl
    (fun _ hw i h => (hw.affair i).settings.trans h) incidents

end World

/-! ## The start -/

/-- The jobs of a new engine. -/
def Agenda.wakeUp (a : Agenda) (scheduleChanged : Bool) : Agenda :=
  let a' := if scheduleChanged then a.request else a
  if a.pending.packages.isEmpty then a' else a'.arm

theorem Agenda.wakeUp_eq (a : Agenda) (scheduleChanged : Bool) :
    ∃ writing mail chance jobs,
      a.wakeUp scheduleChanged = { a with writing, mail, chance, jobs } := by
  obtain ⟨writing, mail, heq⟩ := a.request_eq
  have hwrite : ∃ writing mail,
      (if scheduleChanged then a.request else a) = { a with writing, mail } := by
    split
    · exact ⟨writing, mail, heq⟩
    · exact ⟨_, _, rfl⟩
  obtain ⟨writing, mail, hwrite⟩ := hwrite
  unfold Agenda.wakeUp
  simp only [hwrite]
  split <;> exact ⟨_, _, _, _, rfl⟩

namespace System

variable {settings : Settings} {disk : Disk} {device : Device} {s : System}

theorem wakeUp_agenda (s : System) (scheduleChanged : Bool) :
    (s.wakeUp scheduleChanged).agenda = s.agenda.wakeUp scheduleChanged := by
  have hwrite : (if scheduleChanged then s.requestScheduleWrite else s).agenda =
      if scheduleChanged then s.agenda.request else s.agenda := by
    split
    · exact s.requestScheduleWrite_agenda
    · rfl
  have hpending : s.agenda.pending = s.engine.pending := rfl
  unfold wakeUp Agenda.wakeUp
  rw [scheduleNextFullJob_agenda, hpending]
  cases s.engine.pending.packages.isEmpty with
  | true => exact hwrite
  | false =>
    show (scheduleKeyValueJob _).agenda = Agenda.arm _
    rw [scheduleKeyValueJob_agenda, hwrite]

/-- The packages that get full backups. -/
def eligible (catalog : List Package) : List String :=
  (catalog.filter (·.getsFullBackup)).map (·.name)

/-- The agenda that a start makes of the stored state. -/
theorem load_agenda (settings : Settings) (disk : Disk) (device : Device) :
    ∃ policy pending schedule processed pairs,
      Schedule.Reconciled settings.fullInterval pairs (eligible device.catalog) schedule ∧
      (load settings disk device.fresh).2.agenda =
        { settings, policy, pending, schedule, processed
          participants := participantsOf device.catalog
          running := none, writing := false, passes := 0, looping := true, mail := []
          delayed := [], errands := [], transports := [], root := settings.baseStateDir
          catalog := device.catalog, now := device.now, chance := device.chance, jobs := [] } := by
  unfold load
  simp only
  generalize Pending.replay _ _ _ = replayed
  generalize hload : Schedule.load _ _ _ _ = loaded
  obtain ⟨loaded, disk'⟩ := loaded
  exact ⟨_, _, _, _, _, Schedule.reconciled_load hload, rfl⟩

/-- **The agenda of a new engine** knows of no task. -/
theorem start_agenda (h : start settings disk device.fresh = .ok s) :
    ∃ policy pending schedule processed pairs changed,
      Schedule.Reconciled settings.fullInterval pairs (eligible device.catalog) schedule ∧
      s.agenda = Agenda.wakeUp
        { settings, policy, pending, schedule, processed
          participants := participantsOf device.catalog
          running := none, writing := false, passes := 0, looping := true, mail := []
          delayed := [], errands := [], transports := [], root := settings.baseStateDir
          catalog := device.catalog, now := device.now, chance := device.chance, jobs := [] }
        changed := by
  obtain ⟨-, _, disk', -, -, hs⟩ := start_cases h
  obtain ⟨policy, pending, schedule, processed, pairs, hreconciled, hagenda⟩ :=
    load_agenda settings disk' device
  refine ⟨policy, pending, schedule, processed, pairs,
    (load settings disk' device.fresh).1, hreconciled, ?_⟩
  rw [hs, wakeUp_agenda, hagenda]

end System

/-- No task runs at the start. -/
theorem System.start_idle {settings : Settings} {disk : Disk} {device : Device} {s : System}
    (h : System.start settings disk device.fresh = .ok s) :
    s.agenda.settings = settings ∧ s.agenda.running = none ∧ s.agenda.errands = [] ∧
      s.agenda.delayed = [] := by
  obtain ⟨_, _, _, _, _, changed, -, hagenda⟩ := System.start_agenda h
  obtain ⟨_, _, _, _, heq⟩ := Agenda.wakeUp_eq _ changed
  rw [hagenda, heq]
  exact ⟨rfl, rfl, rfl, rfl⟩

/-- A new engine is in order. -/
theorem World.opened_orderly {settings : Settings} {disk : Disk} {device : Device} {s : System}
    (h : System.start settings disk device.fresh = .ok s) : (World.opened s).Orderly where
  numbered := (System.start_desk h).1
  regular := by
    obtain ⟨_, _, _, _, _, changed, hreconciled, hagenda⟩ := System.start_agenda h
    obtain ⟨_, _, _, _, heq⟩ := Agenda.wakeUp_eq _ changed
    show s.agenda.Regular
    rw [hagenda, heq]
    exact ⟨rfl, hreconciled.ordered.nodup, fun entry hentry => absurd hentry List.not_mem_nil⟩

end Holdfast
