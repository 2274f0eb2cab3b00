import Holdfast.Proofs.Engine.Quiet

/-!
# What is done at the desk of restores

The operations of the engine that do something to the desk of restores, as operations of the desk on
its own.

- `Desk.arm`, `Desk.close`, `Desk.start`, `Desk.finished`, `Desk.ring`, `Desk.finish`, …: what is
  done at the desk;
- `System.armSession_desk`, `System.handle_desk`, `System.fireTimers_desk`,
  `System.endRestore_desk`, …: each operation of the engine does this to its desk;
- `System.Shows`: what is left open about the desk and the inbox after a change, which is the order
  of the tasks, the numbers handed out and the commands behind those that were kept;
- `System.post_shows`, `System.lend_post_shows`, `System.beginSession_cases`: what the calls that
  concern restores do to it.
-/

namespace Holdfast

/-- The command that a timer posts. -/
def TimerAction.command? : TimerAction → Option Command
  | .post command => some command
  | .expireBind _ => none

/-- The restore that a command asks for. -/
def Command.restore? : Command → Option RestoreOrder
  | .startRestore order => some order
  | _ => none

/-- A command that would not be missed hands on no restore. -/
theorem Command.restore?_of_not_counts (command : Command) (h : command.counts = false) :
    command.restore? = none := by
  cases command <;> first | rfl | cases h

namespace Desk

/-! ## What is done at the desk -/

/-- Whether a session is the open one. -/
def isSession (d : Desk) (session : Nat) : Bool :=
  match d.session with
  | some opened => opened.number == session
  | none => false

/-- Stop an alarm, if there is one. -/
def unset (d : Desk) : Option Nat → Desk
  | some timer => { d with alarms := d.alarms.filter (fun alarm => alarm.number ≠ timer) }
  | none => d

/-- Give the open session another alarm. One for another session is stopped. -/
def retime (d : Desk) (session : Nat) (timer : Option Nat) : Desk :=
  match d.session with
  | some opened =>
    if opened.number = session then
      { d.unset opened.timer with session := some { opened with timer } }
    else d.unset timer
  | none => d.unset timer

/-- The alarm that would close a session after its inactivity, counted from now. -/
def alarm (d : Desk) (session : Nat) : Timer :=
  ⟨d.nextNumber, d.clock + d.timeout, .post (.sessionTimeout session)⟩

/-- Set the alarm of a session anew. -/
def arm (d : Desk) (session : Nat) : Desk :=
  { d with alarms := d.alarms ++ [d.alarm session], nextNumber := d.nextNumber + 1 }.retime session
    (some d.nextNumber)

/-- Open a session. -/
def opens (d : Desk) : Desk :=
  { d with session := some ⟨d.nextNumber, none⟩, nextNumber := d.nextNumber + 1 }.arm d.nextNumber

/-- Close a session if it is the open one. -/
def close (d : Desk) (session : Nat) : Desk :=
  match d.session with
  | some opened =>
    if opened.number = session then { d.unset opened.timer with session := none } else d
  | none => d

/-- A restore begins to run. -/
def enter (d : Desk) (order : RestoreOrder) : Desk :=
  { d with running := d.running ++ [(d.nextNumber, order)], nextNumber := d.nextNumber + 1 }

/-- A restore begins to run, or waits. -/
def receive (d : Desk) (order : RestoreOrder) : Desk :=
  if d.restoring then { d with waiting := d.waiting ++ [order] }
  else { d with restoring := true }.enter order

/-- A restore is received, and its session has no alarm. -/
def start (d : Desk) (order : RestoreOrder) : Desk :=
  (match order.session with
    | some session => d.retime session none
    | none => d).receive order

/-- The next restore that waits begins to run. -/
def advance (d : Desk) : Desk :=
  match d.waiting with
  | [] => { d with restoring := false }
  | order :: rest => { d with waiting := rest }.enter order

/-- The end of a restore is handled. -/
def finished (d : Desk) (session : Option Nat) : Desk :=
  (match session with
    | some session => if d.isSession session then d.arm session else d
    | none => d).advance

/-- Carry out a command. -/
def handle (d : Desk) : Command → Desk
  | .startRestore order => d.start order
  | .restoreFinished session => d.finished session
  | .sessionTimeout session => d.close session
  | .shutdown => { d with looping := false, mail := [] }
  | _ => d

/-- Take the oldest command. -/
def take (d : Desk) (command : Command) : Desk := { d with mail := d.mail.tail }.handle command

/-- A command is posted; it is lost when the loop has stopped. -/
def post (d : Desk) (command : Command) : Desk :=
  if d.looping then { d with mail := d.mail ++ [command].filter (!·.isQuiet) } else d

/-- The alarms that are due go off. -/
def ring (d : Desk) : Desk :=
  { d with
    alarms := d.alarms.filter (fun alarm => ¬ alarm.due ≤ d.clock)
    mail :=
      if d.looping then
        d.mail ++ (d.alarms.filter (fun alarm => alarm.due ≤ d.clock)).filterMap (·.action.command?)
      else d.mail }

/-- The installer is told whether a restore was launched. -/
def tell (d : Desk) (token : Int) (launched : Bool) : Desk :=
  { d with installed := d.installed ++ [(token, launched)] }

/-- The dataset of a restore that its transport had accepted becomes the ancestral one, if that was
asked for. -/
def remember (d : Desk) (order : RestoreOrder) (started : Bool) : Desk :=
  if started && order.recordAncestral then
    { d with
      ancestral := order.token
      ancestralPackages := some (NameSet.ofList order.packages) }
  else d

/-- The task of a restore comes to its end. -/
def finish (d : Desk) (number : Nat) (order : RestoreOrder) (started : Bool) : Desk :=
  let d := d.remember order started
  let d := match order.installToken with
    | some token => d.tell token true
    | none => d
  let d := d.post (.restoreFinished order.session)
  { d with running := d.running.filter (fun entry => entry.1 ≠ number) }

/-- A restore that started may change the ancestral dataset, and nothing else. -/
theorem remember_frame (d : Desk) (order : RestoreOrder) (started : Bool) :
    ∃ ancestral ancestralPackages,
      d.remember order started = { d with ancestral, ancestralPackages } := by
  unfold remember
  split <;> exact ⟨_, _, rfl⟩

/-- The end of a restore, field by field. -/
theorem finish_eq (d : Desk) (number : Nat) (order : RestoreOrder) (started : Bool) :
    d.finish number order started =
      { d.remember order started with
        installed := d.installed ++ order.installToken.toList.map (fun token => (token, true))
        mail := if d.looping then d.mail ++ [.restoreFinished order.session] else d.mail
        running := d.running.filter (fun entry => entry.1 ≠ number) } := by
  obtain ⟨ancestral, ancestralPackages, heq⟩ := d.remember_frame order started
  unfold finish post
  simp only [heq]
  cases order.installToken <;> cases d.looping <;> simp [tell, Command.isQuiet]

/-- The end of a restore, whatever becomes of the ancestral dataset. -/
theorem finish_frame (d : Desk) (number : Nat) (order : RestoreOrder) (started : Bool) :
    ∃ ancestral ancestralPackages, d.finish number order started =
      { d with
        ancestral, ancestralPackages
        installed := d.installed ++ order.installToken.toList.map (fun token => (token, true))
        mail := if d.looping then d.mail ++ [.restoreFinished order.session] else d.mail
        running := d.running.filter (fun entry => entry.1 ≠ number) } := by
  obtain ⟨ancestral, ancestralPackages, heq⟩ := d.remember_frame order started
  exact ⟨ancestral, ancestralPackages, by rw [finish_eq, heq]⟩

/-! ## What stays in its place at the desk -/

section

variable {d : Desk}

/-- Only alarms, the session and the numbers handed out have changed. -/
def Timed (d d' : Desk) : Prop :=
  ∃ alarms session nextNumber, d.nextNumber ≤ nextNumber ∧
    d' = { d with alarms, session, nextNumber }

/-- Another timer for a session. -/
theorem retime_timed (d : Desk) (session : Nat) (timer : Option Nat) :
    d.Timed (d.retime session timer) := by
  have hunset : ∀ (timer : Option Nat) session, d.Timed { d.unset timer with session } := by
    intro timer session
    cases timer <;> exact ⟨_, _, _, Nat.le_refl _, rfl⟩
  unfold retime
  split
  · split
    · exact hunset _ _
    · exact hunset timer (d.unset timer).session
  · exact hunset timer (d.unset timer).session

/-- A session is armed. -/
theorem arm_timed (d : Desk) (session : Nat) : d.Timed (d.arm session) := by
  obtain ⟨alarms, opened, nextNumber, hnext, heq⟩ := retime_timed
    { d with alarms := d.alarms ++ [d.alarm session], nextNumber := d.nextNumber + 1 } session
    (some d.nextNumber)
  exact ⟨alarms, opened, nextNumber, Nat.le_of_succ_le hnext, heq⟩

/-- A session opens. -/
theorem opens_timed (d : Desk) : d.Timed d.opens := by
  obtain ⟨alarms, opened, nextNumber, hnext, heq⟩ := arm_timed
    { d with session := some ⟨d.nextNumber, none⟩, nextNumber := d.nextNumber + 1 } d.nextNumber
  exact ⟨alarms, opened, nextNumber, Nat.le_of_succ_le hnext, heq⟩

/-- A session is closed. -/
theorem close_timed (d : Desk) (session : Nat) : d.Timed (d.close session) := by
  unfold close
  split
  · rename_i opened _
    split
    · cases opened.timer <;> exact ⟨_, _, _, Nat.le_refl _, rfl⟩
    · exact ⟨_, _, _, Nat.le_refl _, rfl⟩
  · exact ⟨_, _, _, Nat.le_refl _, rfl⟩

theorem Timed.refl : d.Timed d := ⟨_, _, _, Nat.le_refl _, rfl⟩

/-- A restore that is asked for stops the timer of its session before it is received. -/
theorem start_frame (d : Desk) (order : RestoreOrder) :
    ∃ d₁, d.Timed d₁ ∧ d.start order = d₁.receive order := by
  unfold start
  cases order.session with
  | none => exact ⟨d, .refl, rfl⟩
  | some session => exact ⟨_, d.retime_timed session none, rfl⟩

/-- A restore that has ended arms its session before the next one begins. -/
theorem finished_frame (d : Desk) (session : Option Nat) :
    ∃ d₁, d.Timed d₁ ∧ d.finished session = d₁.advance := by
  unfold finished
  cases session with
  | none => exact ⟨d, .refl, rfl⟩
  | some session =>
    simp only
    split
    · exact ⟨_, d.arm_timed session, rfl⟩
    · exact ⟨d, .refl, rfl⟩

/-- What the line of restores does to the rest of the desk. -/
theorem receive_frame (d : Desk) (order : RestoreOrder) :
    ∃ restoring waiting running nextNumber, d.nextNumber ≤ nextNumber ∧
      d.receive order = { d with restoring, waiting, running, nextNumber } := by
  unfold receive
  split
  · exact ⟨_, _, _, _, Nat.le_refl _, rfl⟩
  · exact ⟨_, _, _, _, Nat.le_succ _, rfl⟩

/-- Where the next restore begins, neither the session nor the mail changes. -/
theorem advance_frame (d : Desk) :
    ∃ restoring waiting running nextNumber, d.nextNumber ≤ nextNumber ∧
      d.advance = { d with restoring, waiting, running, nextNumber } := by
  unfold advance
  split
  · exact ⟨_, _, _, _, Nat.le_refl _, rfl⟩
  · exact ⟨_, _, _, _, Nat.le_succ _, rfl⟩

/-- Numbers are handed out, not taken back. -/
theorem Timed.next_le {d' : Desk} (h : d.Timed d') : d.nextNumber ≤ d'.nextNumber := by
  obtain ⟨_, _, _, hnext, rfl⟩ := h
  exact hnext

/-- The mail stays. -/
theorem Timed.mail {d' : Desk} (h : d.Timed d') : d'.mail = d.mail := by
  obtain ⟨_, _, _, -, rfl⟩ := h
  rfl

/-- The time that sessions are given stays. -/
theorem Timed.timeout {d' : Desk} (h : d.Timed d') : d'.timeout = d.timeout := by
  obtain ⟨_, _, _, -, rfl⟩ := h
  rfl

/-- What carrying out a command does not change, or only lets grow. -/
theorem handle_frame (d : Desk) (command : Command) :
    d.nextNumber ≤ (d.handle command).nextNumber ∧ (d.handle command).timeout = d.timeout ∧
      ((d.handle command).mail = d.mail ∨ (d.handle command).mail = []) := by
  have htimed : ∀ {d d' : Desk}, d.Timed d' → d.nextNumber ≤ d'.nextNumber ∧
      d'.timeout = d.timeout ∧ (d'.mail = d.mail ∨ d'.mail = []) :=
    fun h => ⟨h.next_le, h.timeout, .inl h.mail⟩
  cases command with
  | startRestore order =>
    obtain ⟨d₁, htimed, heq⟩ := d.start_frame order
    obtain ⟨_, _, _, _, hnext, hreceive⟩ := d₁.receive_frame order
    show _ ≤ (d.start order).nextNumber ∧ (d.start order).timeout = _ ∧
      ((d.start order).mail = _ ∨ (d.start order).mail = [])
    rw [heq, hreceive]
    exact ⟨Nat.le_trans htimed.next_le hnext, htimed.timeout, .inl htimed.mail⟩
  | restoreFinished session =>
    obtain ⟨d₁, htimed, heq⟩ := d.finished_frame session
    obtain ⟨_, _, _, _, hnext, hadvance⟩ := d₁.advance_frame
    show _ ≤ (d.finished session).nextNumber ∧ (d.finished session).timeout = _ ∧
      ((d.finished session).mail = _ ∨ (d.finished session).mail = [])
    rw [heq, hadvance]
    exact ⟨Nat.le_trans htimed.next_le hnext, htimed.timeout, .inl htimed.mail⟩
  | sessionTimeout session => exact htimed (d.close_timed session)
  | shutdown => exact ⟨Nat.le_refl _, rfl, .inr rfl⟩
  | _ => exact htimed .refl

/-- A command that is carried out leaves the mail, or the loop stops and the mail is lost. -/
theorem take_frame (d : Desk) (command : Command) :
    d.nextNumber ≤ (d.take command).nextNumber ∧ (d.take command).timeout = d.timeout ∧
      ((d.take command).mail = d.mail.tail ∨ (d.take command).mail = []) :=
  handle_frame { d with mail := d.mail.tail } command

end

end Desk

namespace System

variable {s : System} {t : Task}

/-! ## The operations that do it -/

/-- A timer is stopped. -/
theorem dropTimer_desk (s : System) (timer : Option Nat) :
    (s.dropTimer timer).desk = s.desk.unset timer := by
  cases timer with
  | none => rfl
  | some timer =>
    simp only [dropTimer, stopTimer, onEngine, desk, Desk.unset, List.filter_filter, Bool.and_comm]
    rfl

/-- The session gets another timer in place of its own. -/
theorem replaceSessionTimer_desk (s : System) (session : Nat) (timer : Option Nat) :
    (s.replaceSessionTimer session timer).desk = s.desk.retime session timer := by
  have hsession : s.desk.session = s.engine.session := rfl
  unfold replaceSessionTimer Desk.retime
  rw [hsession]
  cases s.engine.session with
  | none => exact s.dropTimer_desk timer
  | some opened =>
    simp only
    split
    · rw [← dropTimer_desk]
      rfl
    · exact s.dropTimer_desk timer

/-- A session is armed. -/
theorem armSession_desk (s : System) (session : Nat) :
    (s.armSession session).desk = s.desk.arm session := by
  unfold armSession
  simp only
  rw [replaceSessionTimer_desk, Desk.arm]
  congr 1
  simp only [postDelayed, setTimer, freshNumber, onEngine, desk, List.filter_append]
  rfl

/-- A session is closed. -/
theorem closeSession_desk (s : System) (session : Nat) :
    (s.closeSession session).desk = s.desk.close session := by
  have hsession : s.desk.session = s.engine.session := rfl
  unfold closeSession Desk.close
  rw [hsession]
  cases s.engine.session with
  | none => rfl
  | some opened =>
    simp only
    split
    · rw [← dropTimer_desk]
      rfl
    · rfl

/-- A restore begins under a fresh number. -/
theorem spawnRestore_desk (s : System) (order : RestoreOrder) :
    (s.spawnRestore order).desk = s.desk.enter order := by
  have hentries : (s.spawnRestore order).entries =
      s.entries ++ [(s.engine.nextNumber, some order)] := by
    simp [entries, spawnRestore, freshNumber, spawn, onEngine, Task.entry, Job.restore?]
  simp only [desk, Desk.enter, hentries, restoresOf, List.filterMap_append]
  rfl

/-- A restore begins, or it waits for the one that runs. -/
theorem admitRestore_desk (s : System) (order : RestoreOrder) :
    (s.admitRestore order).desk = s.desk.receive order := by
  unfold admitRestore Desk.receive
  rw [show s.desk.restoring = s.engine.restoring from rfl]
  split
  · rfl
  · exact spawnRestore_desk _ order

/-- A restore that is asked for. -/
theorem startRestore_desk (s : System) (order : RestoreOrder) :
    (s.startRestore order).desk = s.desk.start order := by
  unfold startRestore Desk.start
  simp only
  rw [admitRestore_desk]
  cases order.session with
  | none => rfl
  | some session => rw [replaceSessionTimer_desk]

/-- The next restore begins, or none runs any more. -/
theorem startNextRestore_desk (s : System) : s.startNextRestore.desk = s.desk.advance := by
  have hwaiting : s.desk.waiting = s.engine.waitingRestores := rfl
  unfold startNextRestore Desk.advance
  split
  · rename_i hnone
    split
    · rfl
    · rename_i hsome
      cases hnone.symm.trans (hwaiting.symm.trans hsome)
  · rename_i order rest hline
    split
    · rename_i hnone
      cases hline.symm.trans (hwaiting.symm.trans hnone)
    · rename_i hsame
      cases hline.symm.trans (hwaiting.symm.trans hsame)
      exact spawnRestore_desk _ order

/-- A restore has ended. -/
theorem handleRestoreFinished_desk (s : System) (session : Option Nat) :
    (s.handleRestoreFinished session).desk = s.desk.finished session := by
  unfold handleRestoreFinished Desk.finished
  simp only
  rw [startNextRestore_desk]
  cases session with
  | none => rfl
  | some session =>
    have hsession : s.desk.isSession session = s.isSession session := rfl
    simp only [hsession]
    split
    · rw [armSession_desk]
    · rfl

/-- Commands that are matters of restores. -/
theorem handle_desk (s : System) {command : Command} (hmatter : command.isQuiet = false) :
    (s.handle command).desk = s.desk.handle command := by
  cases command with
  | startRestore order => exact s.startRestore_desk order
  | restoreFinished session => exact s.handleRestoreFinished_desk session
  | sessionTimeout session => exact s.closeSession_desk session
  | shutdown => rfl
  | _ => cases hmatter

/-- A command joins the mail, or it is lost. -/
theorem post_desk (s : System) (command : Command) :
    (s.post command).desk = s.desk.post command := by
  unfold post Desk.post
  rw [show s.desk.looping = s.engine.looping from rfl]
  split
  · simp only [desk, onEngine, List.filter_append]
    rfl
  · rfl

/-- The installer is told. -/
theorem note_installed_desk (s : System) (token : Int) (launched : Bool) :
    (s.note (.installed token launched)).desk = s.desk.tell token launched := by
  simp only [desk, note, Device.note, Desk.tell, List.filterMap_cons, Device.Notice.installed?,
    List.reverse_cons]
  rfl

/-- A timer goes off, which is heard at the desk if it is an alarm. -/
theorem goOff_desk (s : System) (timer : Timer) :
    (s.goOff timer).desk =
      { s.desk with
        mail :=
          if s.desk.looping then
            s.desk.mail ++ ([timer].filter (·.action.isAlarm)).filterMap (·.action.command?)
          else s.desk.mail } := by
  unfold goOff
  split
  · rename_i command haction
    rw [post_desk, Desk.post]
    split
    · cases hquiet : command.isQuiet <;>
        simp [haction, TimerAction.isAlarm, TimerAction.command?, hquiet]
    · rfl
  · rename_i haction
    simp only [List.filter_cons, haction, TimerAction.isAlarm, Bool.false_eq_true, if_false,
      List.filter_nil, List.filterMap_nil, List.append_nil, ite_self]
    rfl

/-- A timer that goes off posts a command at most. -/
theorem goOff_frame (s : System) (timer : Timer) :
    (s.goOff timer).entries = s.entries ∧ (s.goOff timer).engine.nextNumber = s.engine.nextNumber ∧
      s.engine.inbox <+: (s.goOff timer).engine.inbox := by
  unfold goOff post
  split
  · split
    · exact ⟨rfl, rfl, List.prefix_append _ _⟩
    · exact ⟨rfl, rfl, List.prefix_rfl⟩
  · exact ⟨rfl, rfl, List.prefix_rfl⟩

/-- Several timers go off, and the restores among their commands join the mail in this order. -/
theorem goOffAll_desk (timers : List Timer) (s : System) :
    (timers.foldl goOff s).desk =
      { s.desk with
        mail :=
          if s.desk.looping then
            s.desk.mail ++ (timers.filter (·.action.isAlarm)).filterMap (·.action.command?)
          else s.desk.mail } := by
  induction timers generalizing s with
  | nil => simp
  | cons timer rest ih =>
    rw [List.foldl_cons, ih, goOff_desk]
    cases hlooping : s.desk.looping with
    | false => simp
    | true =>
      simp only [hlooping, if_true, List.append_assoc, ← List.filterMap_append,
        ← List.filter_append, List.singleton_append]

/-- Several timers go off. -/
theorem goOffAll_frame (timers : List Timer) (s : System) :
    (timers.foldl goOff s).entries = s.entries ∧
      (timers.foldl goOff s).engine.nextNumber = s.engine.nextNumber ∧
      s.engine.inbox <+: (timers.foldl goOff s).engine.inbox := by
  induction timers generalizing s with
  | nil => exact ⟨rfl, rfl, List.prefix_rfl⟩
  | cons timer rest ih =>
    obtain ⟨hentries, hnext, hinbox⟩ := s.goOff_frame timer
    obtain ⟨hentries', hnext', hinbox'⟩ := ih (s.goOff timer)
    exact ⟨hentries'.trans hentries, hnext'.trans hnext, hinbox.trans hinbox'⟩

/-- All timers that are due go off at once. -/
theorem fireTimers_desk (s : System) : s.fireTimers.desk = s.desk.ring := by
  unfold fireTimers
  simp only
  rw [goOffAll_desk]
  simp only [desk, onEngine, dueTimers, Desk.ring, List.filter_filter, Bool.and_comm]
  rfl

/-- A task that is over is no restore any more. -/
theorem restoresOf_filter (entries : List (Nat × Option RestoreOrder)) (number : Nat) :
    restoresOf (entries.filter fun entry => entry.1 ≠ number) =
      (restoresOf entries).filter fun entry => entry.1 ≠ number := by
  induction entries with
  | nil => rfl
  | cons entry rest ih =>
    obtain ⟨n, order⟩ := entry
    simp only [restoresOf] at ih ⊢
    by_cases hnumber : n = number
    · cases order <;> simp_all
    · cases order <;> simp_all

/-- A restore ends: what it leaves is remembered, the installer is told, and the loop learns of it.
-/
theorem endRestore_desk (s : System) (t : Task) (order : RestoreOrder) (started : Bool) :
    (s.endRestore t order started).desk = s.desk.finish t.number order started := by
  have hremember : (if started && order.recordAncestral then
      (s.setDatasets
        { s.engine.datasets with
          ancestral := order.token
          packages := some (NameSet.ofList order.packages) }).2
      else s).desk = s.desk.remember order started := by
    unfold Desk.remember
    split <;> rfl
  have hdrop : ∀ s : System, (s.dropTask t.number).desk =
      { s.desk with running := s.desk.running.filter (fun entry => entry.1 ≠ t.number) } := by
    intro s
    simp only [desk, dropTask_entries, restoresOf_filter]
    rfl
  have hgive : ∀ s : System, (s.releaseWake.dispose t.lease).desk = s.desk := by
    intro s
    cases t.lease <;> rfl
  unfold endRestore Desk.finish
  simp only
  rw [hdrop, post_desk, hgive, ← hremember]
  cases order.installToken with
  | none => rfl
  | some token =>
    simp only
    rw [note_installed_desk]

/-! ## What stays in its place in the system -/

/-- Only timers, the session and the numbers handed out have changed. -/
def Timed (s s' : System) : Prop :=
  ∃ timers session nextNumber, s.engine.nextNumber ≤ nextNumber ∧
    s' = s.onEngine fun e => { e with timers, session, nextNumber }

/-- A timer is stopped. -/
theorem dropTimer_timed (s : System) (timer : Option Nat) : s.Timed (s.dropTimer timer) := by
  cases timer <;> exact ⟨_, _, _, Nat.le_refl _, rfl⟩

/-- The session gets another timer. -/
theorem replaceSessionTimer_timed (s : System) (session : Nat) (timer : Option Nat) :
    s.Timed (s.replaceSessionTimer session timer) := by
  unfold replaceSessionTimer
  split
  · rename_i opened _
    split
    · cases opened.timer <;> exact ⟨_, _, _, Nat.le_refl _, rfl⟩
    · exact s.dropTimer_timed timer
  · exact s.dropTimer_timed timer

/-- A session is armed, with a number that is handed out. -/
theorem armSession_timed (s : System) (session : Nat) : s.Timed (s.armSession session) := by
  unfold armSession
  simp only
  obtain ⟨timers, opened, nextNumber, hnext, heq⟩ :=
    replaceSessionTimer_timed
      (s.postDelayed (.sessionTimeout session) s.engine.settings.restoreTimeout).2 session
      (some s.engine.nextNumber)
  exact ⟨timers, opened, nextNumber, Nat.le_of_succ_le hnext, heq⟩

/-- A session is closed. -/
theorem closeSession_timed (s : System) (session : Nat) : s.Timed (s.closeSession session) := by
  unfold closeSession
  split
  · rename_i opened _
    split
    · cases opened.timer <;> exact ⟨_, _, _, Nat.le_refl _, rfl⟩
    · exact ⟨_, _, _, Nat.le_refl _, rfl⟩
  · exact ⟨_, _, _, Nat.le_refl _, rfl⟩

/-- Tasks keep numbers of their own where only timers and sessions change. -/
theorem Timed.numbered {s' : System} (h : s.Timed s') (hs : s.Numbered) : s'.Numbered := by
  obtain ⟨timers, session, nextNumber, hnext, rfl⟩ := h
  exact ⟨hs.nodup, fun entry hentry => Nat.lt_of_lt_of_le (hs.below entry hentry) hnext⟩

/-- Timers and sessions are not in the mail. -/
theorem Timed.inbox {s' : System} (h : s.Timed s') : s'.engine.inbox = s.engine.inbox := by
  obtain ⟨timers, session, nextNumber, hnext, rfl⟩ := h
  rfl

/-- The number of a restore is its own. -/
theorem Numbered.spawnRestore (hs : s.Numbered) (order : RestoreOrder) :
    (s.spawnRestore order).Numbered := by
  have hentries : (s.spawnRestore order).entries =
      s.entries ++ [(s.engine.nextNumber, some order)] := by
    simp [entries, System.spawnRestore, freshNumber, spawn, onEngine, Task.entry, Job.restore?]
  exact hs.append hentries (Nat.le_refl _) (Nat.lt_succ_self _)

/-- So it is if the restore waits first. -/
theorem Numbered.admitRestore (hs : s.Numbered) (order : RestoreOrder) :
    (s.admitRestore order).Numbered := by
  unfold System.admitRestore
  split
  · exact ⟨hs.nodup, hs.below⟩
  · refine Numbered.spawnRestore ?_ order
    exact ⟨hs.nodup, hs.below⟩

/-- And if it has waited. -/
theorem Numbered.startNextRestore (hs : s.Numbered) : s.startNextRestore.Numbered := by
  unfold System.startNextRestore
  split
  · exact ⟨hs.nodup, hs.below⟩
  · refine Numbered.spawnRestore ?_ _
    exact ⟨hs.nodup, hs.below⟩

/-- A restore is admitted without a command. -/
theorem admitRestore_inbox (s : System) (order : RestoreOrder) :
    (s.admitRestore order).engine.inbox = s.engine.inbox := by
  unfold admitRestore
  split <;> rfl

/-- The next restore begins without a command. -/
theorem startNextRestore_inbox (s : System) :
    s.startNextRestore.engine.inbox = s.engine.inbox := by
  unfold startNextRestore
  split <;> rfl

/-- What stays in its place when a command that is a matter of restores is carried out. -/
theorem handle_frame (hs : s.Numbered) {command : Command} (hmatter : command.isQuiet = false) :
    (s.handle command).Numbered ∧
      ((s.handle command).engine.inbox = s.engine.inbox ∨
        (s.handle command).engine.inbox = []) := by
  cases command with
  | startRestore order =>
    have htimed : s.Timed (match order.session with
        | some session => s.replaceSessionTimer session none
        | none => s) := by
      cases order.session with
      | none => exact ⟨_, _, _, Nat.le_refl _, rfl⟩
      | some session => exact s.replaceSessionTimer_timed session none
    exact ⟨(htimed.numbered hs).admitRestore order,
      .inl ((admitRestore_inbox _ order).trans htimed.inbox)⟩
  | restoreFinished session =>
    clear hmatter
    have htimed : s.Timed (match session with
        | some session => if s.isSession session then s.armSession session else s
        | none => s) := by
      cases session with
      | none => exact ⟨_, _, _, Nat.le_refl _, rfl⟩
      | some session =>
        simp only
        split
        · exact s.armSession_timed session
        · exact ⟨_, _, _, Nat.le_refl _, rfl⟩
    exact ⟨(htimed.numbered hs).startNextRestore,
      .inl ((startNextRestore_inbox _).trans htimed.inbox)⟩
  | sessionTimeout session =>
    exact ⟨(s.closeSession_timed session).numbered hs, .inl (s.closeSession_timed session).inbox⟩
  | shutdown => exact ⟨⟨hs.nodup, hs.below⟩, .inr rfl⟩
  | _ => cases hmatter

/-! ## The desk after a change -/

/-- A system shows a desk, apart from numbers handed out and the order of the restores that run,
and behind the commands that were kept it may have got more. -/
structure Shows (s : System) (kept : List Command) (d : Desk) : Prop where
  desk : { s.desk with nextNumber := d.nextNumber, running := d.running } = d
  running : s.desk.running.Perm d.running
  next : d.nextNumber ≤ s.engine.nextNumber
  numbered : s.Numbered
  inbox : kept <+: s.engine.inbox ∨ s.engine.inbox = []

/-- The desk itself is shown. -/
theorem Shows.of_desk {kept : List Command} {d : Desk} (hdesk : s.desk = d) (hs : s.Numbered)
    (hinbox : kept <+: s.engine.inbox ∨ s.engine.inbox = []) : s.Shows kept d := by
  subst hdesk
  exact ⟨rfl, .refl _, Nat.le_refl _, hs, hinbox⟩

/-- What leaves the desk alone shows it as it was. -/
theorem Calm.shows {s' : System} (h : s.Calm s') : s'.Shows s.engine.inbox s.desk :=
  ⟨h.desk, h.running, h.next, h.numbered, .inl h.inbox⟩

/-- So does what leaves all tasks alone. -/
theorem Still.shows {s' : System} (h : s.Still s') (hs : s.Numbered) :
    s'.Shows s.engine.inbox s.desk :=
  (h.calm hs).shows

/-- What changes only sessions and timers shows what became of them. -/
theorem Timed.shows {s' : System} {d : Desk} (h : s.Timed s') (hs : s.Numbered)
    (hdesk : s'.desk = d) : s'.Shows s.engine.inbox d :=
  .of_desk hdesk (h.numbered hs) (.inl (h.inbox ▸ List.prefix_rfl))

/-- A command is posted behind the others. -/
theorem post_shows (hs : s.Numbered) (command : Command) :
    (s.post command).Shows s.engine.inbox (s.desk.post command) := by
  refine .of_desk (s.post_desk command) ?_ (.inl ?_)
  · unfold post
    split <;> exact ⟨hs.nodup, hs.below⟩
  · unfold post
    split
    · exact List.prefix_append _ _
    · exact List.prefix_rfl

/-- A command is posted after a lease was taken. -/
theorem lend_post_shows (hs : s.Numbered) (name caller : String) (command : Command) :
    ((s.lend name caller).post command).Shows s.engine.inbox (s.desk.post command) :=
  post_shows (s := s.lend name caller) ⟨hs.nodup, hs.below⟩ command

/-- A session is opened under the next number, or none is. -/
theorem beginSession_cases (s : System) (caller : Caller) (package transport : Option String) :
    ((∀ session, (s.beginSession caller package transport).1 ≠ .ok (some session)) ∧
      (s.beginSession caller package transport).2 = s) ∨
      ∃ session, (s.beginSession caller package transport).1 = .ok (some session) ∧
        session.number = s.engine.nextNumber ∧ s.engine.session = none ∧
        (s.beginSession caller package transport).2 =
          (s.freshNumber.2.onEngine fun e =>
            { e with session := some ⟨s.engine.nextNumber, none⟩ }).armSession
              s.engine.nextNumber := by
  refine beginSession_elim ?refuses ?opens
  case refuses => exact fun _ hnone => .inl ⟨hnone, rfl⟩
  case opens => exact fun _ _ _ _ _ _ hclosed => .inr ⟨_, rfl, rfl, hclosed, rfl⟩

/-- The answer about datasets arms the session. -/
theorem endSets_shows (hs : s.Numbered) (session : Session) (lease : Lease) :
    (s.endSets session lease).2.Shows s.engine.inbox (s.desk.arm session.number) := by
  rw [endSets_snd]
  exact (armSession_timed _ _).shows ⟨hs.nodup, hs.below⟩ (armSession_desk _ _)

/-- A restore ends. -/
theorem endRestore_shows (hs : s.Numbered) (t : Task) (order : RestoreOrder) (started : Bool) :
    (s.endRestore t order started).Shows s.engine.inbox
      (s.desk.finish t.number order started) := by
  -- what comes before the post leaves the tasks and the inbox alone
  have hbefore : ∃ s' : System, s'.Numbered ∧ s'.engine.inbox = s.engine.inbox ∧
      s.endRestore t order started =
        (s'.post (.restoreFinished order.session)).dropTask t.number := by
    unfold endRestore
    refine ⟨_, ?_, ?_, rfl⟩
    · cases started && order.recordAncestral <;> cases order.installToken <;> cases t.lease <;>
        exact ⟨hs.nodup, hs.below⟩
    · cases started && order.recordAncestral <;> cases order.installToken <;> cases t.lease <;> rfl
  obtain ⟨s', hs', hinbox, heq⟩ := hbefore
  have hposted := post_shows hs' (.restoreFinished order.session)
  refine .of_desk (s.endRestore_desk t order started) ?_ ?_
  · rw [heq]
    exact hposted.numbered.dropTask t.number
  · rw [heq, ← hinbox]
    exact hposted.inbox

/-- The last step of a restore. -/
theorem stepTask_finish (hs : s.Numbered) {order : RestoreOrder} {started : Bool}
    (hend : s.ending? t = some (order, started)) :
    (s.stepTask t).Shows s.engine.inbox (s.desk.finish t.number order started) := by
  -- whatever a restore asked, it takes the answer as that of its commit
  have htake : ∀ {left call}, t.job = .restore order left → t.stage = .calling call →
      s.stepTask t = s.takeReply t call := by
    intro left call hjob hstage
    unfold stepTask takeDataset
    rw [hstage, hjob]
    cases call <;> rfl
  have hlast : ∃ call, s.stepTask t =
      { s with device := (s.device.answer t.transport call).2 }.endRestore t order started := by
    unfold ending? at hend
    split at hend
    · rename_i left token packages hjob hstage
      split at hend
      · cases hend
      · rename_i hrefused
        cases hend
        refine ⟨.startRestore token packages, ?_⟩
        rw [htake hjob hstage]
        simp only [takeReply, hjob]
        rw [if_neg hrefused]
    · rename_i left call hother hjob hstage
      cases hend
      exact ⟨call, by rw [htake hjob hstage]; simp only [takeReply, hjob]⟩
    · cases hend
  obtain ⟨call, heq⟩ := hlast
  rw [heq]
  exact endRestore_shows (s := { s with device := (s.device.answer t.transport call).2 })
    ⟨hs.nodup, hs.below⟩ t order started

end System

end Holdfast
