import Holdfast.Proofs.Engine.Affairs
import Holdfast.Proofs.Engine.Drained
import Holdfast.Proofs.Engine.PreservedWork
import Holdfast.Proofs.Engine.Slot

/-!
# The schedule on disk

Whoever changes the schedule has it written, and one write takes all changes made before it. So the
file is out of date only as long as a write is on its way.

- `Agenda.Posted`: one write is queued while one is on its way, and none otherwise;
- `Affair.outdates`: an incident that changes the schedule leaves a write on its way;
- `Agenda.Tidy`: other files than the schedule's are written to, and what is in the schedule can be
  written down;
- `System.Filed`: the file can be read, and it tells of each package what the schedule does;
- `World.schedule_filed`: **at most one write is queued, and while none is, the schedule is filed**,
  as long as no transport is reset that keeps its files beside the schedule;
- `World.schedule_lost`: the reset of such a transport deletes the schedule, and nobody writes it
  anew.
-/

namespace Holdfast

open Record

/-! ## Writes on their way -/

/-- Whether a command has the schedule written. -/
def Command.isWrite : Command → Bool
  | .writeSchedule => true
  | _ => false

namespace Agenda

variable {a a' : Agenda} {number : Nat} {errand : Errand}

/-- How many writes of the schedule are queued. -/
def writes (a : Agenda) : Nat := a.mail.countP Command.isWrite

/-- One write is queued while one is on its way, and none otherwise. -/
def Posted (a : Agenda) : Prop := a.writes = if a.writing then 1 else 0

/-- A write is on its way, and one only. -/
structure Outdated (a : Agenda) : Prop where
  writing : a.writing = true
  writes : a.writes = 1

/-- A step that leaves the schedule as it is, and what is on its way. -/
structure Unmoved (a a' : Agenda) : Prop where
  schedule : a'.schedule = a.schedule
  writing : a'.writing = a.writing
  writes : a'.writes = a.writes

theorem Outdated.posted (h : a.Outdated) : a.Posted := by
  unfold Posted
  rw [h.writing]
  exact h.writes

theorem Unmoved.posted (h : a.Unmoved a') (ha : a.Posted) : a'.Posted := by
  unfold Posted
  rw [h.writing, h.writes]
  exact ha

theorem post_of_looping (hloop : a.looping = true) (command : Command) :
    a.post command = { a with mail := a.mail ++ [command] } :=
  if_pos hloop

/-- A request that finds a write on its way leaves it at that. -/
theorem outdated_request (ha : a.Posted) (hloop : a.looping = true) : a.request.Outdated := by
  cases hwriting : a.writing with
  | true =>
    rw [Posted, hwriting] at ha
    rw [request, if_pos hwriting]
    exact ⟨hwriting, ha⟩
  | false =>
    rw [Posted, hwriting] at ha
    have hnone : a.mail.countP Command.isWrite = 0 := ha
    rw [request, hwriting, if_neg Bool.false_ne_true,
      post_of_looping (a := { a with writing := true }) hloop]
    refine ⟨rfl, ?_⟩
    show (a.mail ++ [Command.writeSchedule]).countP Command.isWrite = 1
    rw [List.countP_append, hnone]
    rfl

theorem outdated_reschedule (ha : a.Posted) (hloop : a.looping = true) (schedule : Schedule) :
    (a.reschedule schedule).Outdated :=
  outdated_request (a := { a with schedule }) ha hloop

theorem outdated_putBack (ha : a.Posted) (hloop : a.looping = true) (package : String)
    (lastBackup dueAt : Int) : (a.putBack package lastBackup dueAt).Outdated :=
  outdated_reschedule (a := a.drawRetry) ha hloop _

/-- A step of a task that changes the schedule leaves a write on its way. -/
theorem Turn.outdates {assents : Prop} (hturn : Turn a assents number errand a') (ha : a.Posted)
    (hloop : a.looping = true) : a'.Outdated ∨ a.Unmoved a' := by
  cases hturn with
  | stays _ hheeds | moves _ hheeds =>
    rcases hheeds with rfl | ⟨_, rfl⟩ <;> exact .inr ⟨rfl, rfl, rfl⟩
  | wipes | quits | leaves => exact .inr ⟨rfl, rfl, rfl⟩
  | files package => exact .inl (outdated_reschedule ha hloop _)
  | @ends drained _ status disk _ =>
    obtain ⟨_, heq, -⟩ := a.endPass_eq number drained status disk
    rw [heq]
    exact .inr ⟨rfl, rfl, rfl⟩
  | departs =>
    unfold closePass
    split <;> exact .inr ⟨rfl, rfl, rfl⟩
  | @closes p lastBackup token _ status _ _ =>
    unfold endFull
    split
    · have hback := outdated_reschedule ha hloop (a.schedule.enqueue p.name a.now)
      exact .inl ⟨hback.writing, hback.writes⟩
    · split
      · rename_i dueAt _
        have hback := outdated_putBack ha hloop p.name lastBackup dueAt
        exact .inl ⟨hback.writing, hback.writes⟩
      -- one that breaks down leaves the schedule alone
      · exact .inr ⟨rfl, rfl, rfl⟩
  | @vacates _ _ token _ =>
    obtain ⟨_, heq⟩ := a.vacate_eq token
    rw [heq]
    exact .inr ⟨rfl, rfl, rfl⟩

end Agenda

/-- The full-backup job leaves a write on its way if it changes the schedule. -/
theorem System.BeginsFull.outdates {s : System} {outcome : FullOutcome} {a : Agenda}
    (h : s.BeginsFull outcome a) (hp : s.agenda.Posted) (hloop : s.agenda.looping = true) :
    a.Outdated ∨ s.agenda.Unmoved a := by
  cases h with
  | nothing _ => exact .inr ⟨rfl, rfl, rfl⟩
  | @sifts _ q chance _ _ =>
    exact .inl (Agenda.outdated_reschedule (a := { s.agenda with chance }) hp hloop q)
  | @starts entry p q chance token _ _ _ _ =>
    exact .inl (Agenda.outdated_request
      (a := ({ s.agenda with
        schedule := q.dequeue entry.package, chance, running := some (token, entry.package) } :
          Agenda).enter s.engine.nextNumber (.full p entry.lastBackup (some token) .opening))
      hp hloop)

namespace World

open Agenda

variable {w : World} {event : Event} {a : Agenda} {folder : Path}

/-- Whether the loop takes a write of the schedule in an event. -/
def takesWrite (w : World) : Event → Bool
  | .command => w.system.engine.inbox.head?.any Command.isWrite
  | _ => false

theorem takesWrite_iff : w.takesWrite event = true ↔
    event = .command ∧ ∃ rest, w.system.engine.inbox = .writeSchedule :: rest := by
  constructor
  · intro htakes
    unfold takesWrite at htakes
    split at htakes
    · cases hinbox : w.system.engine.inbox with
      | nil =>
        rw [hinbox] at htakes
        cases htakes
      | cons command rest =>
        rw [hinbox] at htakes
        cases command with
        | writeSchedule => exact ⟨rfl, rest, rfl⟩
        | _ => cases htakes
    · cases htakes
  · rintro ⟨rfl, rest, hinbox⟩
    unfold takesWrite
    rw [hinbox]
    rfl

/-- The oldest chore is no write, so as many are queued when it was taken. -/
theorem writes_taken {command : Command} {rest : List Command}
    (hinbox : w.system.engine.inbox = command :: rest) (hchore : command.isChore = true)
    (hwrite : command.isWrite = false) :
    (rest.filter Command.isChore).countP Command.isWrite = w.system.agenda.writes := by
  unfold Agenda.writes
  rw [mail_chore hinbox hchore, List.countP_cons_of_neg (by rw [hwrite]; exact Bool.false_ne_true)]

/-- **An event that changes the schedule leaves a write on its way**, unless it is the write. -/
theorem Affair.outdates (h : w.Affair (.event event) a) (hs : w.Sound)
    (hp : w.system.agenda.Posted) (hwrite : w.takesWrite event = false) :
    a.Outdated ∨ w.system.agenda.Unmoved a := by
  have hloop : w.system.agenda.looping = true := hs.looping
  generalize hi : Incident.event event = i at h
  cases h with
  | idle | reorders | begins | stages | recounts | serves | cancels | saves | resets | registers
  | unregisters | outside => exact .inr ⟨rfl, rfl, rfl⟩
  | sleeps hinbox _ | postpones hinbox | starts _ hinbox _ =>
    exact .inr ⟨rfl, rfl, writes_taken hinbox rfl rfl⟩
  | writes hinbox =>
    cases hi
    cases hwrite.symm.trans (takesWrite_iff.2 ⟨rfl, _, hinbox⟩)
  | stops hshutdown =>
    refine absurd ?_ hs.lasting
    exact List.mem_filter.2 ⟨List.mem_of_mem_head? hshutdown, rfl⟩
  | cancelsAll numbers =>
    obtain ⟨_, heq⟩ := w.system.agenda.cancelAll_eq numbers
    rw [heq]
    exact .inr ⟨rfl, rfl, rfl⟩
  | ticks _ =>
    rw [post_of_looping hloop]
    refine .inr ⟨rfl, rfl, ?_⟩
    show (w.system.agenda.mail ++ [Command.runKeyValue]).countP Command.isWrite = _
    rw [List.countP_append]
    rfl
  | full hbegins => exact hbegins.outdates hp hloop
  | rules _ hrules => cases hrules <;> exact .inr ⟨rfl, rfl, rfl⟩
  | @adds c package p replacing _ _ =>
    exact .inl (outdated_reschedule
      (a := { w.system.agenda with
        participants := w.system.agenda.joined package p replacing }) hp hloop _)
  | removes package replacing _ =>
    cases replacing <;> exact .inr ⟨rfl, rfl, rfl⟩
  | turn _ _ hturn => exact hturn.outdates hp hloop

end World

/-! ## What can be written down -/

theorem Schedule.forall_enqueue {P : Int → Prop} {q : Schedule}
    (h : ∀ e ∈ q.entries, P e.lastBackup) (package : String) {lastBackup : Int}
    (hlast : P lastBackup) : ∀ e ∈ (q.enqueue package lastBackup).entries, P e.lastBackup := by
  intro e he
  rcases List.mem_cons.1 ((q.enqueue_perm package lastBackup).mem_iff.1 he) with rfl | hold
  · exact hlast
  · exact h e (List.eraseP_sublist.subset hold)

theorem Schedule.forall_defer {P : Int → Prop} {q : Schedule}
    (h : ∀ e ∈ q.entries, P e.lastBackup) (package : String) {lastBackup : Int}
    (hlast : P lastBackup) (dueAt : Int) :
    ∀ e ∈ (q.defer package lastBackup dueAt).entries, P e.lastBackup := by
  intro e he
  rcases List.mem_cons.1 ((q.defer_perm package lastBackup dueAt).mem_iff.1 he) with rfl | hold
  · exact hlast
  · exact h e (List.eraseP_sublist.subset hold)

/-- The journal of a pass is not at a path, and the last backup of a scheduled one fits a file. -/
def Errand.Tidy (path : Path) : Errand → Prop
  | .pass drained _ => ∀ pass, drained = some pass → pass.Avoids path
  | .full _ lastBackup _ _ => Fits 8 lastBackup
  | .passed _ | .other => True

theorem Errand.Tidy.avoids {path : Path} {errand : Errand} (h : errand.Tidy path) :
    errand.Avoids path := by
  cases errand with
  | pass drained canceled => exact h
  | passed | full | other => trivial

namespace Agenda

variable {a a' : Agenda} {number : Nat} {errand : Errand} {folder : Path}

/-- The schedule has a file of its own, and all its times fit that file. -/
structure Tidy (folder : Path) (a : Agenda) : Prop extends a.Avoids folder where
  now : Fits 8 a.now
  entries : ∀ e ∈ a.schedule.entries, Fits 8 e.lastBackup
  errands : ∀ entry ∈ a.errands, entry.2.Tidy (folder.child Schedule.fileName)

namespace Tidy

/-- Only fields have changed on which it does not depend whether an agenda is tidy. -/
theorem congr (h : a.Tidy folder) (hpending : a'.pending = a.pending)
    (hprocessed : a'.processed = a.processed) (hfile : a'.policy.file = a.policy.file)
    (hnow : a'.now = a.now) (hschedule : a'.schedule = a.schedule)
    (herrands : a'.errands = a.errands) : a'.Tidy folder :=
  ⟨⟨hpending ▸ h.pending, hprocessed ▸ h.processed, hfile ▸ h.policy⟩, hnow ▸ h.now,
    hschedule ▸ h.entries, herrands ▸ h.errands⟩

/-- Another pending set that has files of its own. -/
theorem withPending (h : a.Tidy folder) (pending : Pending)
    (hpending : pending.Avoids (folder.child Schedule.fileName)) :
    ({ a with pending } : Agenda).Tidy folder :=
  ⟨⟨hpending, h.processed, h.policy⟩, h.now, h.entries, h.errands⟩

theorem withErrands (h : a.Tidy folder) {errands : List (Nat × Errand)}
    (herrands : ∀ entry ∈ errands, entry.2.Tidy (folder.child Schedule.fileName)) :
    ({ a with errands } : Agenda).Tidy folder :=
  ⟨⟨h.pending, h.processed, h.policy⟩, h.now, h.entries, herrands⟩

theorem enter (h : a.Tidy folder) (number : Nat) (errand : Errand)
    (herrand : errand.Tidy (folder.child Schedule.fileName)) :
    (a.enter number errand).Tidy folder := by
  refine h.withErrands fun entry hentry => ?_
  rcases mem_enter.1 hentry with hold | rfl
  · exact h.errands entry hold
  · exact herrand

theorem drop (h : a.Tidy folder) (number : Nat) : (a.drop number).Tidy folder :=
  h.withErrands fun entry hentry => h.errands entry (mem_drop.1 hentry).1

theorem seat (h : a.Tidy folder) (number : Nat)
    (herrand : errand.Tidy (folder.child Schedule.fileName)) :
    (a.seat number errand).Tidy folder := by
  refine h.withErrands fun entry hentry => ?_
  rcases mem_seat hentry with rfl | ⟨hold, -⟩
  · exact herrand
  · exact h.errands entry hold

theorem cancel (h : a.Tidy folder) (number : Nat) : (a.cancel number).Tidy folder := by
  refine h.withErrands fun entry hentry => ?_
  obtain ⟨errand, hold, hsame | hcanceled⟩ := mem_cancel hentry
  · rw [hsame]
    exact h.errands _ hold
  · have htidy := h.errands _ hold
    rw [hcanceled]
    cases errand with
    | pass | passed | full | other => exact htidy

theorem heed (h : a.Tidy folder) (hheeds : a.Heeds a') : a'.Tidy folder := by
  rcases hheeds with rfl | ⟨number, rfl⟩
  · exact h
  · exact h.cancel number

theorem arm (h : a.Tidy folder) : a.arm.Tidy folder := h.congr rfl rfl rfl rfl rfl rfl

theorem post (h : a.Tidy folder) (command : Command) : (a.post command).Tidy folder := by
  unfold Agenda.post
  split
  · exact h.congr rfl rfl rfl rfl rfl rfl
  · exact h

theorem reschedule (h : a.Tidy folder) {schedule : Schedule}
    (hentries : ∀ e ∈ schedule.entries, Fits 8 e.lastBackup) :
    (a.reschedule schedule).Tidy folder := by
  obtain ⟨_, _, heq⟩ := ({ a with schedule } : Agenda).request_eq
  rw [Agenda.reschedule, heq]
  exact ⟨⟨h.pending, h.processed, h.policy⟩, h.now, hentries, h.errands⟩

theorem putBack (h : a.Tidy folder) (package : String) {lastBackup : Int}
    (hlast : Fits 8 lastBackup) (dueAt : Int) : (a.putBack package lastBackup dueAt).Tidy folder :=
  reschedule (a := a.drawRetry) (h.congr rfl rfl rfl rfl rfl rfl)
    (Schedule.forall_defer h.entries package hlast dueAt)

theorem vacate (h : a.Tidy folder) (token : Option OpToken) : (a.vacate token).Tidy folder := by
  obtain ⟨_, heq⟩ := a.vacate_eq token
  rw [heq]
  exact h.congr rfl rfl rfl rfl rfl rfl

end Tidy

theorem Turn.tidy {assents : Prop} (hturn : Turn a assents number errand a')
    (h : a.Tidy folder) (herrand : errand.Tidy (folder.child Schedule.fileName)) :
    a'.Tidy folder := by
  cases hturn with
  | stays _ hheeds => exact h.heed hheeds
  | moves _ hheeds => exact (h.heed hheeds).seat number herrand
  | files package => exact h.reschedule (Schedule.forall_enqueue h.entries package h.now)
  | wipes packages disk =>
    exact (h.withPending _ (Pending.restage_preserves h.pending packages disk).1).arm
  | quits | leaves => exact h.drop number
  | @ends drained _ status disk _ =>
    obtain ⟨pending, heq, hpending⟩ := a.endPass_eq number drained status disk
    have hclosed : pending.Avoids (folder.child Schedule.fileName) := by
      rcases hpending with rfl | ⟨pass, hpass, rfl⟩
      · exact h.pending
      · exact (Pending.finish_preserves h.pending (herrand pass hpass) _ disk).1
    rw [heq]
    exact (h.withPending pending hclosed).seat number trivial
  | departs =>
    unfold closePass
    split
    · exact h.drop number
    · exact h.arm.drop number
  | @closes p lastBackup token _ status _ _ =>
    have hlast : ∀ stage, (Errand.full p lastBackup token stage).Tidy
        (folder.child Schedule.fileName) := fun _ => herrand
    unfold endFull
    split
    · exact (h.reschedule (Schedule.forall_enqueue h.entries _ h.now)).seat number (hlast _)
    · split
      · exact (h.putBack _ herrand _).seat number (hlast _)
      · exact Tidy.seat (a := a.drawRetry) (h.congr rfl rfl rfl rfl rfl rfl) number (hlast _)
  | vacates => exact (h.vacate _).seat number herrand

end Agenda

theorem System.BeginsFull.tidy {s : System} {outcome : FullOutcome} {a : Agenda} {folder : Path}
    (h : s.BeginsFull outcome a) (ha : s.agenda.Tidy folder) : a.Tidy folder := by
  -- a schedule that was sifted has no time of its own
  have hold : ∀ {q : Schedule}, Schedule.Sifted s.agenda.catalog s.agenda.schedule q →
      ∀ e ∈ q.entries, Fits 8 e.lastBackup := by
    intro q hsifted e he
    obtain ⟨old, hmem, -, hsame⟩ := hsifted.old e he
    exact hsame ▸ ha.entries old hmem
  cases h with
  | nothing _ => exact ha
  | @sifts _ q chance _ hsifted =>
    exact Agenda.Tidy.reschedule (a := { s.agenda with chance })
      (ha.congr rfl rfl rfl rfl rfl rfl) (hold hsifted)
  | @starts entry p q chance token _ hsifted hmem _ =>
    have hentered := ha.enter s.engine.nextNumber
      (.full p entry.lastBackup (some token) .opening) (hold hsifted entry hmem)
    obtain ⟨_, _, heq⟩ := Agenda.request_eq _
    rw [heq]
    refine ⟨⟨ha.pending, ha.processed, ha.policy⟩, ha.now, fun e he => ?_, hentered.errands⟩
    exact hold hsifted e (List.eraseP_sublist.subset he)

namespace World

open Agenda

variable {w : World} {event : Event} {a : Agenda} {folder : Path}

/-- Whatever happens, the schedule has a file of its own, and all its times fit that file. -/
theorem Affair.tidy (h : w.Affair (.event event) a) (ht : w.system.agenda.Tidy folder)
    (hclock : ∀ disk device, event = .outside disk device → Fits 8 device.now) :
    a.Tidy folder := by
  generalize hi : Incident.event event = i at h
  cases h with
  | idle _ => exact ht
  | reorders _ hperm =>
    exact ht.withErrands fun entry hentry => ht.errands entry (hperm.mem_iff.1 hentry)
  | begins number _ => exact ht.enter number .other trivial
  | stages package targets disk _ =>
    exact (ht.withPending _ (Pending.record_preserves ht.pending package targets disk).1).arm
  | sleeps | postpones | recounts | writes | stops | saves | registers | unregisters =>
    exact ht.congr rfl rfl rfl rfl rfl rfl
  | starts number _ _ =>
    obtain ⟨hdrained, hpending⟩ := ht.pending.drain
    -- what the pass has drained lies apart from the schedule, as it did before
    have hentered := (ht.withPending _ hpending).enter number
      (.pass (some w.system.agenda.pending.drain.1) false)
      fun pass hpass => Option.some.inj hpass ▸ hdrained
    exact hentered.congr rfl rfl rfl rfl rfl rfl
  | serves passes number _ =>
    exact (ht.enter number (.pass none false) nofun).congr rfl rfl rfl rfl rfl rfl
  | cancels number _ => exact ht.cancel number
  | cancelsAll numbers =>
    have hall : (numbers.foldl Agenda.cancel w.system.agenda).Tidy folder :=
      List.foldlRecOn (motive := Agenda.Tidy folder) numbers Agenda.cancel ht
        fun _ h number _ => h.cancel number
    exact hall.congr rfl rfl rfl rfl rfl rfl
  | ticks _ => exact ht.post _
  | full hbegins => exact hbegins.tidy ht
  | rules _ hrules =>
    cases hrules with
    | same => exact ht
    | keeps _ hfile | allows hfile | forbids _ hfile =>
      exact ht.congr rfl rfl hfile rfl rfl rfl
  | resets transport packages disk =>
    exact (ht.withPending _ (Pending.restage_preserves ht.pending packages disk).1).arm
  | @adds c package p replacing _ _ =>
    refine Agenda.Tidy.reschedule (a := { w.system.agenda with
      participants := w.system.agenda.joined package p replacing }) ?_ ?_
    · exact ht.congr rfl rfl rfl rfl rfl rfl
    · split
      · exact Schedule.forall_enqueue ht.entries package ht.now
      · exact fun e he => ht.entries e (List.eraseP_sublist.subset he)
  | removes package replacing _ =>
    cases replacing with
    | true => exact ht.congr rfl rfl rfl rfl rfl rfl
    | false =>
      have hremoved := ht.withPending (w.system.agenda.pending.remove package).2
        ⟨ht.pending.folder, ht.pending.journal⟩
      exact hremoved.congr rfl rfl rfl rfl rfl rfl
  | outside disk device =>
    cases hi
    exact ⟨⟨ht.pending, ht.processed, ht.policy⟩, hclock disk device rfl, ht.entries, ht.errands⟩
  | turn hfind _ hturn =>
    have hmem := System.mem_errands (List.mem_of_find?_eq_some hfind)
    exact hturn.tidy ht (ht.errands _ hmem)

end World

/-! ## What the file tells -/

namespace Schedule

/-- Pairs tell of each package when it was last backed up, as the queue does. -/
def Tells (q : Schedule) (pairs : List (String × Int)) : Prop :=
  ∀ package, pairs.lookup package = (q.get? package).map (·.lastBackup)

/-- A queue is told of by its own pairs. -/
theorem tells_pairOf (q : Schedule) : q.Tells (q.entries.map pairOf) := by
  intro package
  unfold get?
  induction q.entries with
  | nil => rfl
  | cons e entries ih =>
    rw [List.map_cons, List.find?_cons]
    by_cases hfirst : e.package = package
    · subst hfirst
      simp [pairOf]
    · have hother : (package == e.package) = false := by simpa using Ne.symm hfirst
      have hother' : (e.package == package) = false := by simpa using hfirst
      simp only [pairOf, List.lookup_cons, hother, hother']
      exact ih

/-- A queue that was loaded from a file of the same packages is told of by that file. -/
theorem Reconciled.tells {interval : Nat} {pairs : List (String × Int)} {eligible : List String}
    {q : Schedule} (h : Reconciled interval pairs eligible q)
    (hcurrent : ∀ package, package ∈ pairs.map (·.1) ↔ package ∈ eligible) : q.Tells pairs := by
  intro package
  have hqueued : package ∈ pairs.map (·.1) ↔ package ∈ q.packages :=
    (hcurrent package).trans (h.mem_packages package).symm
  cases hfind : q.get? package with
  | none =>
    rw [Option.map_none, List.lookup_eq_none_iff]
    intro pair hpair
    rw [bne_iff_ne]
    rintro rfl
    obtain ⟨e, he, hsame⟩ := List.mem_map.1 (hqueued.1 (List.mem_map_of_mem hpair))
    exact List.find?_eq_none.1 hfind e he (beq_iff_eq.2 hsame)
  | some e =>
    have hmem : e ∈ q.entries := List.mem_of_find?_eq_some hfind
    obtain rfl : e.package = package := by simpa using List.find?_some hfind
    have hlast : e.lastBackup = lastOf pairs e.package :=
      congrArg ScheduleEntry.lastBackup (h.entry hmem)
    rw [Option.map_some, hlast]
    cases hlookup : pairs.lookup e.package with
    | none =>
      obtain ⟨pair, hpair, hsame⟩ := List.mem_map.1 (hqueued.2 (List.mem_map_of_mem hmem))
      have hne := List.lookup_eq_none_iff.1 hlookup pair hpair
      exact absurd hsame.symm (bne_iff_ne.1 hne)
    | some lastBackup =>
      rw [lastOf, hlookup]
      rfl

end Schedule

namespace System

variable {s s' : System}

/-- The schedule file can be read, and it tells of each package when it was last backed up, as the
schedule does. -/
def Filed (s : System) : Prop :=
  ∃ pairs, Schedule.stored s.disk (s.stateFile Schedule.fileName) = some pairs ∧
    s.engine.schedule.Tells pairs

/-- A schedule is filed when it was written. -/
theorem filed_writeSchedule (hfits : ∀ e ∈ s.engine.schedule.entries, Fits 8 e.lastBackup)
    (hsave : (s.engine.schedule.save s.disk (s.stateFile Schedule.fileName)).1 = .ok ()) :
    s.writeSchedule.Filed := by
  obtain ⟨record, hrecord, hlook⟩ := Store.replace_ok (Prod.ext hsave rfl)
  have hdecode := Schedule.decode_eq_ok_iff.2
    ⟨record, [], Schedule.form_of_encode hrecord hfits, (List.append_nil record).symm⟩
  exact ⟨_, Schedule.stored_eq_some_iff.2 ⟨record, hlook, hdecode⟩, Schedule.tells_pairOf _⟩

/-- A schedule that is filed stays filed as long as it does not change and its file stays. -/
theorem Filed.of_preserves (h : s.Filed) (hfile : s.Preserves s.engine.settings.folder s')
    (hschedule : s'.engine.schedule = s.engine.schedule)
    (hsettings : s'.engine.settings = s.engine.settings) : s'.Filed := by
  obtain ⟨pairs, hstored, htells⟩ := h
  obtain ⟨bytes, hlook, hdecode⟩ := Schedule.stored_eq_some_iff.1 hstored
  refine ⟨pairs, Schedule.stored_eq_some_iff.2 ⟨bytes, ?_, hdecode⟩, hschedule ▸ htells⟩
  rw [stateFile, hsettings]
  exact hfile bytes hlook

end System

namespace World

open Agenda

variable {w : World} {event : Event}

/-- The transport that an event may reset. -/
def resets? (w : World) : Event → Option String
  | .call (.resetBackupState transport) => some transport
  | .task number => (w.system.engine.tasks.find? (·.number == number)).bind Task.resets?
  | _ => none

/-- What an event changes from outside. -/
def outside? : Event → Option (Disk × Device)
  | .outside disk device => some (disk, device)
  | _ => none

/-- An event that leaves the schedule file to the engine, and the engine able to write it. -/
structure Careful (w : World) (event : Event) : Prop where
  writes : w.takesWrite event = true →
    (w.system.engine.schedule.save w.system.disk (w.system.stateFile Schedule.fileName)).1 = .ok ()
  /-- No transport is reset that keeps its files beside the schedule. -/
  resets : ∀ transport ∈ w.resets? event,
    w.system.KeepsApart w.system.engine.settings.folder transport
  /-- Nobody else changes the file, and the clock shows a 64-bit number. -/
  outside : ∀ change ∈ outside? event,
    change.1.look (w.system.stateFile Schedule.fileName) =
      w.system.disk.look (w.system.stateFile Schedule.fileName) ∧ Fits 8 change.2.now

instance (outcome : Except Fault Unit) : Decidable (outcome = .ok ()) :=
  match outcome with
  | .ok () => .isTrue rfl
  | .error _ => .isFalse nofun

instance (w : World) (event : Event) : Decidable (w.Careful event) :=
  decidable_of_iff (_ ∧ _ ∧ _)
    ⟨fun h => ⟨h.1, h.2.1, h.2.2⟩, fun h => ⟨h.writes, h.resets, h.outside⟩⟩

/-- Runs of such events. -/
def CarefulRun (w : World) : List Event → Prop
  | [] => True
  | event :: rest => w.Careful event ∧ (w.happen event).CarefulRun rest

instance decidableCarefulRun (w : World) : (events : List Event) → Decidable (w.CarefulRun events)
  | [] => .isTrue trivial
  | event :: rest =>
    have := decidableCarefulRun (w.happen event) rest
    inferInstanceAs (Decidable (w.Careful event ∧ (w.happen event).CarefulRun rest))

/-- An event leaves the schedule file as it is, unless it is the write. -/
theorem happen_preserves (h : w.system.agenda.Tidy w.system.engine.settings.folder)
    (hcareful : w.Careful event) (hwrite : w.takesWrite event = false) :
    w.system.Preserves w.system.engine.settings.folder (w.happen event).system := by
  cases event with
  | command =>
    simp only [happen]
    split
    · exact .of_disk rfl
    · rename_i command rest hinbox
      -- by assumption the command is not the write
      have hcommand : command ≠ .writeSchedule := by
        rintro rfl
        cases hwrite.symm.trans (takesWrite_iff.2 ⟨rfl, _, hinbox⟩)
      exact System.Preserves.after (System.handle_preserves
        (s := w.system.onEngine fun e => { e with inbox := rest })
        ⟨h.pending, h.processed, h.policy⟩ hcommand) rfl
  | operation =>
    simp only [happen]
    split
    · exact .of_disk rfl
    · exact ((System.handleEvent_within _ _).preserves (by decide)).after rfl
  | timers => exact w.system.fireTimers_within.preserves (by decide)
  | clock | sendBack number => exact .of_disk rfl
  | task number =>
    simp only [happen]
    split
    · exact .of_disk rfl
    · rename_i t hfind
      split
      -- resets are careful in this run
      · have hmem := System.mem_errands (List.mem_of_find?_eq_some hfind)
        refine System.stepTask_preserves h.toAvoids (h.errands _ hmem).avoids
          fun transport hresets => hcareful.resets transport ?_
        rw [resets?, hfind]
        exact hresets
      · exact .of_disk rfl
  | wake transport method => exact (w.system.wake_within transport method).preserves (by decide)
  | drop index => exact .of_disk (by rw [drop_system])
  | call c =>
    refine System.make_preserves h.toAvoids fun transport hreset => ?_
    exact hcareful.resets transport (by rw [hreset]; rfl)
  | select name =>
    have hbegun :
        w.system.Preserves w.system.engine.settings.folder (w.system.beginSelect name).2 :=
      (w.system.beginSelect_within name).preserves (by decide)
    rcases w.select_system name with heq | heq
    · rw [heq]
      exact hbegun
    · rw [heq]
      exact hbegun.trans (System.endSelect_preserves _ _ none)
  | sets session =>
    rw [sets_system]
    exact (w.system.beginSets_within session).preserves (by decide)
  | land index =>
    simp only [happen]
    split
    · exact .of_disk rfl
    · rename_i flight _
      cases flight with
      | select lease => exact w.system.endSelect_preserves _ (some lease)
      | sets session lease => exact (w.system.endSets_within session lease).preserves (by decide)
  | outside disk device =>
    intro content hfile
    exact (hcareful.outside (disk, device) rfl).1.trans hfile

/-! ## Runs -/

/-- What every careful run keeps. -/
structure Kept (w : World) : Prop where
  tidy : w.system.agenda.Tidy w.system.engine.settings.folder
  posted : w.system.agenda.Posted
  filed : w.system.agenda.writing = false → w.system.Filed

/-- The loop takes a write. -/
theorem Kept.write (h : w.Kept) {rest : List Command}
    (hinbox : w.system.engine.inbox = .writeSchedule :: rest)
    (hcareful : w.Careful .command) : (w.happen .command).Kept := by
  have hsame : (w.happen .command).system =
      (w.system.onEngine fun e => { e with inbox := rest }).writeSchedule := by
    simp only [happen, hinbox]
    rfl
  have hmail := mail_chore hinbox rfl
  have hnone : (rest.filter Command.isChore).countP Command.isWrite = 0 := by
    have hposted := h.posted
    unfold Posted Agenda.writes at hposted
    rw [hmail, List.countP_cons_of_pos rfl] at hposted
    split at hposted
    · omega
    · omega
  have hsave := hcareful.writes (takesWrite_iff.2 ⟨rfl, _, hinbox⟩)
  constructor
  · rw [hsame]
    exact h.tidy.congr rfl rfl rfl rfl rfl rfl
  · rw [hsame]
    exact hnone
  · intro _
    rw [hsame]
    exact System.filed_writeSchedule
      (s := w.system.onEngine fun e => { e with inbox := rest }) h.tidy.entries hsave

theorem Kept.happen (hw : w.Orderly) (hs : w.Sound) (h : w.Kept) (hcareful : w.Careful event) :
    (w.happen event).Kept := by
  have haffair : w.Affair (.event event) (w.happen event).system.agenda := hw.affair (.event event)
  have hsettings : (w.happen event).system.engine.settings = w.system.engine.settings :=
    haffair.settings
  cases hwrite : w.takesWrite event with
  | true =>
    obtain ⟨rfl, rest, hinbox⟩ := takesWrite_iff.1 hwrite
    exact h.write hinbox hcareful
  | false =>
    have hfile := happen_preserves h.tidy hcareful hwrite
    refine ⟨?_, ?_, fun hquiet => ?_⟩
    · rw [hsettings]
      exact haffair.tidy h.tidy fun disk device hevent =>
        (hcareful.outside (disk, device) (hevent ▸ rfl)).2
    · exact (haffair.outdates hs h.posted hwrite).elim Outdated.posted fun hsame =>
        hsame.posted h.posted
    · rcases haffair.outdates hs h.posted hwrite with hout | hsame
      · rw [hout.writing] at hquiet
        cases hquiet
      · have hfiled := h.filed (hsame.writing.symm.trans hquiet)
        exact hfiled.of_preserves hfile hsame.schedule hsettings

end World

/-! ## The start -/

theorem Agenda.outdates_wakeUp {a : Agenda} (ha : a.Posted) (hloop : a.looping = true)
    (scheduleChanged : Bool) : (a.wakeUp scheduleChanged).Posted ∧
      ((a.wakeUp scheduleChanged).writing = false → scheduleChanged = false) := by
  have harm : ∀ a' : Agenda, ∃ chance jobs,
      (if a.pending.packages.isEmpty then a' else a'.arm) = { a' with chance, jobs } := by
    intro a'
    split <;> exact ⟨_, _, rfl⟩
  unfold Agenda.wakeUp
  cases scheduleChanged with
  | false =>
    obtain ⟨_, _, heq⟩ := harm a
    simp only [Bool.false_eq_true, if_false, heq]
    exact ⟨ha, fun _ => trivial⟩
  | true =>
    obtain ⟨_, _, heq⟩ := harm a.request
    have hout := outdated_request ha hloop
    simp only [if_true, heq]
    refine ⟨hout.posted, fun hquiet => ?_⟩
    cases hout.writing.symm.trans hquiet

namespace System

variable {settings : Settings} {disk : Disk} {device : Device} {s : System}

/-- The files of a new engine have names of their own. -/
theorem load_tidy (hnow : Fits 8 device.now) :
    (load settings disk device).2.agenda.Tidy settings.folder := by
  have hpending : ({ folder := settings.folder.child Pending.folderName } : Pending).Avoids
      (settings.folder.child Schedule.fileName) :=
    ⟨fun _ heq => List.cons_ne_self _ _ (List.cons.inj heq).2, nofun⟩
  have hreplayed := hpending.replay (((participantsOf device.catalog).foldl
    (fun all entry => all.union entry.2) NameSet.empty).insert metadataPackage) disk
  unfold load
  simp only
  generalize Pending.replay _ _ _ = replayed at hreplayed ⊢
  obtain ⟨_, pending, disk₁⟩ := replayed
  simp only
  generalize hload : Schedule.load _ _ _ _ = answer
  obtain ⟨loaded, disk₂⟩ := answer
  have hprocessed : (Processed.openAt settings.folder disk₂).path =
      settings.folder.child Processed.fileName := by
    unfold Processed.openAt
    simp only
    split <;> rfl
  refine ⟨⟨hreplayed, ?_, ?_⟩, hnow, fun e he => ?_, fun entry hentry => ?_⟩
  · show (Processed.openAt settings.folder disk₂).path ≠ _
    rw [hprocessed]
    exact ne_schedule (by decide) _ _
  · exact ne_schedule (by decide) _ _
  · rw [(Schedule.reconciled_load hload).entry he]
    exact Schedule.fits_lastOf_stored _ _ _
  · cases hentry

/-- A new engine has the settings it was given, takes commands, and has no write queued. -/
theorem load_calm (settings : Settings) (disk : Disk) (device : Device) :
    (load settings disk device).2.engine.settings = settings ∧
      (load settings disk device).2.agenda.looping = true ∧
      (load settings disk device).2.agenda.Posted := by
  unfold load
  simp only
  exact ⟨trivial, rfl, rfl⟩

/-- A schedule that was loaded as it was stored is filed. -/
theorem load_filed (h : (load settings disk device).1 = false) :
    (load settings disk device).2.Filed := by
  unfold load at h ⊢
  simp only at h ⊢
  generalize Pending.replay _ _ _ = replayed at h ⊢
  obtain ⟨_, pending, disk₁⟩ := replayed
  simp only at h ⊢
  obtain ⟨pairs, hstored, hcurrent⟩ := (Schedule.load_changed _ _ _ _).1 h
  have hquiet := Schedule.load_quiet (.inr ⟨pairs, hstored⟩) settings.fullInterval
    ((device.catalog.filter (·.getsFullBackup)).map (·.name))
  have hreconciled := @Schedule.reconciled_load disk₁ _
    (settings.folder.child Schedule.fileName) settings.fullInterval
    ((device.catalog.filter (·.getsFullBackup)).map (·.name)) _ rfl
  rw [hstored] at hreconciled
  refine ⟨pairs, ?_, hreconciled.tells hcurrent⟩
  exact (congrArg (Schedule.stored · _) hquiet).trans hstored

/-- The writes that the agenda knows are those in the inbox. -/
theorem writes_agenda (s : System) :
    s.agenda.writes = s.engine.inbox.countP Command.isWrite := by
  show (s.engine.inbox.filter Command.isChore).countP Command.isWrite = _
  rw [List.countP_filter]
  refine List.countP_congr fun command _ => ?_
  cases command <;> simp [Command.isWrite, Command.isChore]

end System

namespace World

open Agenda

variable {w : World} {settings : Settings} {disk : Disk} {device : Device} {s : System}

theorem opened_kept (h : System.start settings disk device.fresh = .ok s)
    (hnow : Fits 8 device.now) : (opened s).Kept := by
  obtain ⟨-, _, disk', -, -, hs⟩ := System.start_cases h
  have htidy : (System.load settings disk' device.fresh).2.agenda.Tidy settings.folder :=
    System.load_tidy hnow
  obtain ⟨hfolder, hlooping, hposted⟩ := System.load_calm settings disk' device.fresh
  obtain ⟨hnext, hsame⟩ := Agenda.outdates_wakeUp hposted hlooping
    (System.load settings disk' device.fresh).1
  have hfiled := @System.load_filed settings disk' device.fresh
  generalize System.load settings disk' device.fresh = answer at hs htidy hnext hsame hfiled hfolder
  obtain ⟨changed, s₀⟩ := answer
  subst hs
  have hagenda : (opened (s₀.wakeUp changed)).system.agenda = s₀.agenda.wakeUp changed :=
    s₀.wakeUp_agenda changed
  obtain ⟨_, _, _, _, heq⟩ := s₀.agenda.wakeUp_eq changed
  have hsettings : (s₀.wakeUp changed).engine.settings = s₀.engine.settings :=
    congrArg Agenda.settings (hagenda.trans heq)
  have hschedule : (s₀.wakeUp changed).engine.schedule = s₀.engine.schedule :=
    congrArg Agenda.schedule (hagenda.trans heq)
  refine ⟨?_, ?_, fun hquiet => ?_⟩
  · show (opened (s₀.wakeUp changed)).system.agenda.Tidy (s₀.wakeUp changed).engine.settings.folder
    rw [hagenda, heq, hsettings, hfolder]
    exact htidy.congr rfl rfl rfl rfl rfl rfl
  · rw [hagenda]
    exact hnext
  · rw [hagenda] at hquiet
    exact (hfiled (hsame hquiet)).of_preserves 
      ((s₀.wakeUp_within changed).preserves (by decide)) hschedule hsettings

theorem Kept.run (hw : w.Orderly) (hs : w.Sound) (h : w.Kept) {events : List Event}
    (hcareful : w.CarefulRun events) : (w.run events).Kept := by
  induction events generalizing w with
  | nil => exact h
  | cons event events ih =>
    exact ih (hw.meet (.event event)) ((happen_change hs event).sound hs)
      (h.happen hw hs hcareful.1) hcareful.2

/-- **The schedule file is up to date, or a write is queued.** After every run without a shutdown in
which writes of the schedule succeed, nobody else changes its file, and no transport is reset that
keeps its files beside it: at most one write is queued, and if none is, the file can be read and
tells of each package when it was last backed up, as the schedule does. -/
theorem schedule_filed (h : System.start settings disk device.fresh = .ok s)
    (hnow : Fits 8 device.now) {events : List Event} (hcareful : (opened s).CarefulRun events) :
    let s' := ((opened s).run events).system
    s'.engine.inbox.countP Command.isWrite ≤ 1 ∧
      (s'.engine.inbox.countP Command.isWrite = 0 → s'.Filed) := by
  have hkept : ((opened s).run events).Kept :=
    (opened_kept h hnow).run (opened_orderly h) (opened_sound h) hcareful
  have hposted := hkept.posted
  rw [Posted, System.writes_agenda] at hposted
  refine ⟨?_, fun hnone => hkept.filed ?_⟩
  · rw [hposted]
    split <;> omega
  · rw [hnone] at hposted
    split at hposted
    · omega
    · exact Bool.eq_false_iff.2 ‹_›

/-- A full backup runs to its end, and then everything is forgotten about its transport. -/
def filesBackedUp : List Event :=
  filesInFlight ++ List.replicate 10 (.task 1) ++ .call (.resetBackupState "local") ::
    List.replicate 2 .command

/-- The file tells of the full backup. -/
theorem schedule_filed_files :
    ∃ s, System.start {} {} deviceOfFiles.fresh = .ok s ∧
      let s' := ((opened s).run filesBackedUp).system
      ∃ pairs, Schedule.stored s'.disk (s'.stateFile Schedule.fileName) = some pairs ∧
        pairs.lookup "files" = some 1000 := by
  obtain ⟨s, hstart, hcareful, hnone, hlast⟩ := @start_decide {} {} deviceOfFiles.fresh
    (fun s => (opened s).CarefulRun filesBackedUp ∧
      ((opened s).run filesBackedUp).system.engine.inbox.countP Command.isWrite = 0 ∧
      (((opened s).run filesBackedUp).system.engine.schedule.get? "files").map (·.lastBackup) =
        some 1000) inferInstance (by decide +kernel)
  obtain ⟨-, hfiled⟩ := schedule_filed hstart (by decide) hcareful
  obtain ⟨pairs, hstored, htells⟩ := hfiled hnone
  exact ⟨s, hstart, pairs, hstored, (htells "files").trans hlast⟩

/-- A transport keeps its files in the state folder itself, and is reset. -/
def resetBeside : List Event :=
  [.command, .call (.registerTransport ⟨"local", "vault/Local", "."⟩),
    .call (.resetBackupState "local")]

/-- **The schedule can be lost.** A transport was reset that keeps its files in the state folder
itself. The schedule was written before, but now its file is gone, and no write is queued. -/
theorem schedule_lost :
    ∃ s, System.start {} {} deviceOfFiles.fresh = .ok s ∧
      let s' := ((opened s).run resetBeside).system
      (Schedule.stored ((opened s).run [.command]).system.disk
          (s'.stateFile Schedule.fileName)).isSome = true ∧
        s'.disk.look (s'.stateFile Schedule.fileName) = .missing ∧
        s'.engine.inbox.countP Command.isWrite = 0 ∧ s'.engine.writeRequested = false ∧
        s'.engine.schedule.packages = ["files"] :=
  start_decide (by decide +kernel)

end World

end Holdfast
