import Holdfast.Proofs.Engine.Agenda

/-!
# What a step of a task does to the agenda

- `Stage.IsFull`: the stages through which a scheduled full backup goes;
- `System.Assents`: the transport answers the call of a task with success;
- `Agenda.Turn`: what a step can do, one constructor per way in which a task can go on or end;
- `System.stepTask_errand`: **every step of a task is of this kind.** In particular a scheduled full
  backup is done with success only when its commit was answered so, and it comes to its commit only
  when its data was accepted.

Both kinds of passes wind down in several steps, between which anything can happen. A key-value pass
closes what it drained and announces its end, and arms the job in a step of its own. A scheduled
full backup puts its package back, then gives up its place, then ends.
-/

namespace Holdfast

/-- Where the scheduled full backup of a package can stand. -/
inductive Stage.IsFull (p : Package) : Stage → Prop
  | opening : IsFull p .opening
  | queued (ticket : Nat) : IsFull p (.queued ⟨p, .full⟩ ticket)
  | binding (ticket : Nat) : IsFull p (.binding ⟨p, .full⟩ ticket)
  | prepared (token : OpToken) : IsFull p (.prepared ⟨p, .full⟩ token)
  | starting (token : OpToken) : IsFull p (.starting ⟨p, .full⟩ token)
  | working (token : OpToken) : IsFull p (.working ⟨p, .full⟩ token)
  /-- The data is offered to the transport. -/
  | offering : IsFull p (.calling (.performFullBackup p.name))
  | committing : IsFull p (.calling .finishBackup)
  /-- The transport is asked which dataset it wrote. -/
  | asking : IsFull p (.calling .currentRestoreSet)
  | closing (status : Status) : IsFull p (.closing status)
  | leaving : IsFull p .leaving
  | fallen : IsFull p .fallen

/-- Whether a scheduled full backup is done with its package. -/
def Stage.isDone : Stage → Bool
  | .closing _ | .leaving | .fallen => true
  | .opening | .choosing | .queued _ _ | .binding _ _ | .prepared _ _ | .starting _ _
  | .working _ _ | .calling _ => false

/-- Whether a task waits for no answer of a transport and is not near its end. -/
def Stage.isTending : Stage → Bool
  | .opening | .choosing | .queued _ _ | .binding _ _ | .prepared _ _ | .starting _ _
  | .working _ _ => true
  | .calling _ | .closing _ | .leaving | .fallen => false

theorem Stage.not_closing_of_tending {stage : Stage} (h : stage.isTending = true) :
    stage.isClosing = false := by
  cases stage <;> first | rfl | cases h

/-- The transport answers the call of a task with success. -/
def System.Assents (s : System) (t : Task) : Prop :=
  ∃ call, t.stage = .calling call ∧ (s.device.answer t.transport call).1 = .ok .ok

namespace Agenda

/-- A pass announces its end, and what it drained is closed on some disk. -/
def endPass (a : Agenda) (number : Nat) (drained : Option Drained) (status : Status)
    (disk : Disk) : Agenda :=
  ({ a with
    pending := match drained with
      | some pass => (a.pending.finish pass (status == .success) disk).1
      | none => a.pending } : Agenda).seat number (.passed status)

/-- The end of a pass changes what is pending. -/
theorem endPass_eq (a : Agenda) (number : Nat) (drained : Option Drained) (status : Status)
    (disk : Disk) : ∃ pending,
      a.endPass number drained status disk =
        ({ a with pending } : Agenda).seat number (.passed status) ∧
      (pending = a.pending ∨ ∃ pass, drained = some pass ∧
        pending = (a.pending.finish pass (status == .success) disk).1) := by
  cases drained with
  | none => exact ⟨_, rfl, .inl rfl⟩
  | some pass => exact ⟨_, rfl, .inr ⟨pass, rfl, rfl⟩⟩

/-- A pass that has announced its end is over. The job is armed again unless the pass succeeded or
was canceled. -/
def closePass (a : Agenda) (number : Nat) (status : Status) : Agenda :=
  (if status = .success ∨ status = .cancelled then a else a.arm).drop number

/-- A scheduled full backup is done with its package, which is back in the schedule. One that failed
breaks down when no clock can show its next due time. -/
def endFull (a : Agenda) (number : Nat) (p : Package) (lastBackup : Int)
    (token : Option OpToken) (status : Status) : Agenda :=
  if status = .success then
    (a.reschedule (a.schedule.enqueue p.name a.now)).seat number
      (.full p lastBackup token (.closing status))
  else match a.retryAt? with
    | some dueAt =>
      (a.putBack p.name lastBackup dueAt).seat number (.full p lastBackup token (.closing status))
    | none => a.drawRetry.seat number (.full p lastBackup token .fallen)

/-- How a scheduled full backup goes on before it is done with its package. It comes to its commit
only when its data was accepted, and beyond it only when that was committed. -/
structure Advances (p : Package) (assents : Prop) (old stage : Stage) : Prop where
  course : stage.IsFull p
  before : old.isDone = false
  after : stage.isDone = false
  commits : stage = .calling .finishBackup ↔ old = .calling (.performFullBackup p.name) ∧ assents
  asks : stage = .calling .currentRestoreSet ↔ old = .calling .finishBackup
  committed : old = .calling .finishBackup → assents
  last : old ≠ .calling .currentRestoreSet

/-- From its first turn up to the offer of its data. -/
theorem Advances.early {p : Package} {assents : Prop} {old stage : Stage}
    (hold : old.isTending = true) (hcourse : stage.IsFull p)
    (hstage : stage.isTending = true ∨ stage = .calling (.performFullBackup p.name)) :
    Advances p assents old stage := by
  have hidle : ∀ call, old ≠ .calling call := by
    rintro call rfl
    cases hold
  have hearly : stage.isDone = false ∧ stage ≠ .calling .finishBackup ∧
      stage ≠ .calling .currentRestoreSet := by
    rcases hstage with hstage | rfl
    · revert hstage
      cases stage <;> simp [Stage.isTending, Stage.isDone]
    · exact ⟨rfl, nofun, nofun⟩
  obtain ⟨hdone, hcommit, hask⟩ := hearly
  exact
    { course := hcourse
      before := by cases old <;> first | rfl | cases hold
      after := hdone
      commits := ⟨fun h => absurd h hcommit, fun h => absurd h.1 (hidle _)⟩
      asks := ⟨fun h => absurd h hask, fun h => absurd h (hidle _)⟩
      committed := fun h => absurd h (hidle _)
      last := hidle _ }

/-- The operation of an agent is canceled, or none is. By then its token can have been issued again
to a task, which is canceled in its place. -/
def Heeds (a a' : Agenda) : Prop := a' = a ∨ ∃ number, a' = a.cancel number

theorem Heeds.refl (a : Agenda) : a.Heeds a := .inl rfl

theorem Heeds.distinct {a a' : Agenda} (h : a.Heeds a') (ha : a.Distinct) : a'.Distinct := by
  rcases h with rfl | ⟨number, rfl⟩
  · exact ha
  · exact ha.cancel number

/-- A cancel does not show on a scheduled full backup. -/
theorem Heeds.mem_full {a a' : Agenda} (h : a.Heeds a') {number : Nat} {p : Package}
    {lastBackup : Int} {token : Option OpToken} {stage : Stage}
    (hmem : (number, .full p lastBackup token stage) ∈ a.errands) :
    (number, .full p lastBackup token stage) ∈ a'.errands := by
  rcases h with rfl | ⟨_, rfl⟩
  · exact hmem
  · refine List.mem_map.2 ⟨_, hmem, ?_⟩
    split <;> rfl

/-- What a step of a task does to the agenda. -/
inductive Turn (a : Agenda) (assents : Prop) (number : Nat) : Errand → Agenda → Prop where
  /-- A task that is neither a scheduled full backup nor near its end goes on. -/
  | stays {errand : Errand} {a' : Agenda} : errand.isPlain = true → a.Heeds a' →
    Turn a assents number errand a'
  /-- A scheduled full backup goes on, but not beyond its package. -/
  | moves {p : Package} {lastBackup : Int} {token : Option OpToken} {old stage : Stage}
      {a' : Agenda} : Advances p assents old stage → a.Heeds a' →
    Turn a assents number (.full p lastBackup token old)
      (a'.seat number (.full p lastBackup token stage))
  /-- A pass has backed up a package in full. -/
  | files {drained : Option Drained} {canceled : Bool} (package : String) :
    Turn a assents number (.pass drained canceled)
      (a.reschedule (a.schedule.enqueue package a.now))
  /-- A transport was wiped, and everybody is staged again. -/
  | wipes (packages : List String) (disk : Disk) :
    Turn a assents number .other
      ({ a with pending := (a.pending.restage packages disk).1 } : Agenda).arm
  | quits : Turn a assents number .other (a.drop number)
  | ends {drained : Option Drained} {canceled : Bool} {status : Status} (disk : Disk) :
    (status = .cancelled → canceled = true) →
    Turn a assents number (.pass drained canceled) (a.endPass number drained status disk)
  /-- A pass that has announced its end is over. -/
  | departs {status : Status} : Turn a assents number (.passed status) (a.closePass number status)
  | closes {p : Package} {lastBackup : Int} {token : Option OpToken} {old : Stage}
      {status : Status} : old.isDone = false →
    (status = .success ↔
      old = .calling .currentRestoreSet ∨ old = .calling .finishBackup ∧ assents) →
    Turn a assents number (.full p lastBackup token old)
      (a.endFull number p lastBackup token status)
  /-- A scheduled full backup gives up its place. -/
  | vacates {p : Package} {lastBackup : Int} {token : Option OpToken} {status : Status} :
    Turn a assents number (.full p lastBackup token (.closing status))
      ((a.vacate token).seat number (.full p lastBackup token .leaving))
  /-- A scheduled full backup that has given up its place is over. -/
  | leaves {p : Package} {lastBackup : Int} {token : Option OpToken} :
    Turn a assents number (.full p lastBackup token .leaving) (a.drop number)

end Agenda

namespace System

open Agenda

variable {s : System} {t : Task} {P : Prop} {drained : Option Drained}
  {keyValue full : List String} {observer : Option String} {nonIncremental : Bool} {p : Package}
  {lastBackup : Int}

/-- A task with its errand is on the agenda. -/
structure OnAgenda (s : System) (t : Task) : Prop where
  distinct : s.agenda.Distinct
  mem : (t.number, t.errand) ∈ s.agenda.errands

/-- The agenda is the same, and so are the number and the errand of the task. -/
theorem OnAgenda.congr (h : s.OnAgenda t) (s' : System) (t' : Task)
    (hagenda : s'.agenda.errands = s.agenda.errands) (hnumber : t'.number = t.number)
    (herrand : t'.errand = t.errand) : s'.OnAgenda t' := by
  refine ⟨?_, ?_⟩
  · unfold Agenda.Distinct
    rw [hagenda]
    exact h.distinct
  · rw [hagenda, hnumber, herrand]
    exact h.mem

theorem errand_pass (hjob : t.job = .keyValue drained keyValue full observer nonIncremental)
    (hopen : t.stage.isClosing = false) : t.errand = .pass drained t.canceled := by
  simp only [Task.errand, hjob]
  split
  · rename_i hstage
    rw [hstage] at hopen
    cases hopen
  · rfl

/-- Only a pass has the errand of one. -/
theorem pass_errand {canceled : Bool} (h : t.errand = .pass drained canceled) :
    ∃ keyValue full observer nonIncremental,
      t.job = .keyValue drained keyValue full observer nonIncremental ∧ canceled = t.canceled ∧
        t.stage.isClosing = false := by
  unfold Task.errand at h
  cases hjob : t.job with
  | keyValue drained' keyValue full observer nonIncremental =>
    simp only [hjob] at h
    cases hstage : t.stage <;> simp only [hstage] at h <;> cases h <;>
      exact ⟨_, _, _, _, rfl, rfl, rfl⟩
  | full | wipe | clearData | restore =>
    simp only [hjob] at h
    cases h

theorem errand_full (hjob : t.job = .full p lastBackup) :
    t.errand = .full p lastBackup t.token t.stage := by
  rw [Task.errand, hjob]

/-! ## Going on -/

/-- A task that is no scheduled full backup has the same errand at every stage but the last. -/
theorem moveTo_plain (h : s.OnAgenda t) (hplain : t.errand.isPlain = true) {stage : Stage}
    (hstage : stage.isClosing = false) : (s.moveTo t stage).agenda = s.agenda := by
  have hsame : ({ t with stage } : Task).errand = t.errand := by
    unfold Task.errand at hplain ⊢
    cases hjob : t.job with
    | full p lastBackup =>
      simp only [hjob] at hplain
      cases hplain
    | keyValue =>
      simp only [hjob] at hplain ⊢
      cases hold : t.stage <;> cases stage <;> simp_all [Stage.isClosing, Errand.isPlain]
    | wipe | clearData | restore => rfl
  rw [moveTo_agenda, hsame, seat_of_mem h.distinct h.mem]

/-- A scheduled full backup moves from a stage at which it makes no call. -/
theorem moveTo_full (hjob : t.job = .full p lastBackup) {stage : Stage}
    (hadvances : Advances p P t.stage stage) :
    Turn s.agenda P t.number t.errand (s.moveTo t stage).agenda := by
  rw [moveTo_agenda, errand_full hjob, @errand_full { t with stage } p lastBackup hjob]
  exact .moves hadvances (.refl _)

/-! ## Winding down -/

theorem endKeyValue_agenda (s : System) {canceled : Bool}
    (herrand : t.errand = .pass drained canceled) (status : Status) :
    ∃ disk, (s.endKeyValue t drained status).agenda =
      s.agenda.endPass t.number drained status disk := by
  obtain ⟨_, _, _, _, hjob, -⟩ := pass_errand herrand
  have hpassed : ({ t with stage := .closing status } : Task).errand = .passed status := by
    simp only [Task.errand, hjob]
  refine ⟨(s.heedInit t).disk, ?_⟩
  rw [endKeyValue, moveTo_agenda, hpassed, post_agenda _ rfl, closeDrained_agenda, heedInit_agenda]
  rfl

theorem closeKeyValue_agenda (s : System) (t : Task) (observer : Option String) (status : Status) :
    (s.closeKeyValue t observer status).agenda = s.agenda.closePass t.number status := by
  have harm : ∀ s : System,
      (if status = .success ∨ status = .cancelled then s else s.scheduleKeyValueJob).agenda =
        if status = .success ∨ status = .cancelled then s.agenda else s.agenda.arm := by
    intro s
    split
    · rfl
    · exact s.scheduleKeyValueJob_agenda
  simp only [closeKeyValue, closePass, dropTask_agenda, dispose_agenda, releaseWake_agenda, harm,
    dropToken_agenda, tellFinished_agenda]

/-- The task breaks down. -/
theorem fall_agenda (s : System) (hjob : t.job = .full p lastBackup) :
    (s.fall t).agenda = s.agenda.seat t.number (.full p lastBackup t.token .fallen) := by
  have hfallen : ({ t with stage := .fallen, lease := none } : Task).errand =
      .full p lastBackup t.token .fallen := errand_full hjob
  rw [fall, setTask_agenda, hfallen, dispose_agenda]

theorem endFull_agenda (s : System) (hjob : t.job = .full p lastBackup) (status : Status) :
    (s.endFull t p.name lastBackup status).agenda =
      s.agenda.endFull t.number p lastBackup t.token status := by
  have hnow : (s.heedInit t).now = s.agenda.now := congrArg Agenda.now (s.heedInit_agenda t)
  have hclosing : ({ t with stage := .closing status } : Task).errand =
      .full p lastBackup t.token (.closing status) := errand_full hjob
  unfold System.endFull Agenda.endFull
  simp only
  split
  · rw [moveTo_agenda, hclosing, enqueueFull_agenda, heedInit_agenda, hnow]
  · have hagenda := s.heedInit_agenda t
    generalize s.heedInit t = left at hagenda
    rw [← hagenda]
    have hdrawn := draw_agenda left left.engine.settings.busyFuzz
    have hretry : left.agenda.retryAt? = retryAt? (left.draw left.engine.settings.busyFuzz).2.now
        (left.draw left.engine.settings.busyFuzz).2.engine.settings.busyMin
        (left.draw left.engine.settings.busyFuzz).1 := by
      simp only [draw, Device.draw_eq]
      rfl
    unfold retryFull
    simp only
    rw [← hretry]
    cases left.agenda.retryAt? with
    | some dueAt =>
      simp only
      rw [moveTo_agenda, hclosing, deferFull_agenda, hdrawn]
      rfl
    | none =>
      simp only
      rw [fall_agenda _ hjob, hdrawn]
      rfl

@[simp] theorem endPlain_agenda (s : System) (t : Task) :
    (s.endPlain t).agenda = s.agenda.drop t.number := by
  simp only [endPlain, dropTask_agenda, dispose_agenda, releaseWake_agenda]

@[simp] theorem endRestore_agenda (s : System) (t : Task) (order : RestoreOrder)
    (started : Bool) : (s.endRestore t order started).agenda = s.agenda.drop t.number := by
  have hdatasets : ∀ s : System, ∀ datasets : Datasets,
      (if started && order.recordAncestral then (s.setDatasets datasets).2 else s).agenda =
        s.agenda := by
    intro s datasets
    split <;> rfl
  unfold endRestore
  cases order.installToken <;>
    simp only [dropTask_agenda, @post_agenda _ (.restoreFinished _) rfl, dispose_agenda,
      releaseWake_agenda, @note_agenda _ (.installed _ _) rfl, hdatasets]

/-! ## Packages of a pass -/

theorem packageDone_errand (h : s.OnAgenda t) (herrand : t.errand = .pass drained t.canceled)
    (observer : Option String) (package : String) {status : Status}
    (hcancel : status = .cancelled → t.canceled = true) :
    Turn s.agenda P t.number t.errand
      (s.packageDone t drained observer package status).agenda := by
  unfold packageDone
  simp only
  split
  · obtain ⟨disk, hend⟩ := endKeyValue_agenda (s.tellResult observer package status) herrand status
    rw [hend, tellResult_agenda, herrand]
    exact .ends disk hcancel
  · rw [moveTo_plain (h.congr _ t (by rw [tellResult_agenda]) rfl rfl) (by rw [herrand]; rfl) rfl,
      tellResult_agenda]
    exact .stays (by rw [herrand]; rfl) (.refl _)

@[simp] theorem withBinder_agenda (s : System) (binder : Binder) :
    (s.onEngine fun e => { e with binder }).agenda = s.agenda := rfl

theorem visit_agenda (s : System) (t : Task) (v : Visit) :
    (s.visit t v).agenda = (s.moveTo t (.queued v s.engine.binder.join.1)).agenda := by
  rw [visit, moveTo_agenda, moveTo_agenda]
  rfl

/-- A task that is no concern of the agenda moves. -/
theorem moveTo_other (h : s.OnAgenda t) (hother : t.errand = .other) {s' : System} (t' : Task)
    (hsame : s'.agenda = s.agenda) (hnumber : t'.number = t.number) (hother' : t'.errand = .other)
    (stage : Stage) : Turn s.agenda P t.number t.errand (s'.moveTo t' stage).agenda := by
  have hstill : ({ t' with stage } : Task).errand = .other := by
    unfold Task.errand at hother' ⊢
    cases hjob : t'.job with
    | keyValue =>
      simp only [hjob] at hother'
      split at hother' <;> cases hother'
    | full =>
      simp only [hjob] at hother'
      cases hother'
    | wipe | clearData | restore => rfl
  have hmem := h.mem
  rw [hother] at hmem
  rw [moveTo_agenda, hstill, hsame, hnumber, seat_of_mem h.distinct hmem, hother]
  exact .stays rfl (.refl _)

/-- A visit fails before the commit. -/
theorem visitFailed_errand (h : s.OnAgenda t) (hidle : t.stage.isTending = true)
    (v : Visit) {status : Status} (hfailed : status ≠ .success)
    (hcancel : status = .cancelled → t.canceled = true) :
    Turn s.agenda P t.number t.errand (s.visitFailed t v status).agenda := by
  unfold visitFailed
  cases hjob : t.job with
  | keyValue drained keyValue full observer nonIncremental =>
    exact packageDone_errand h (errand_pass hjob (Stage.not_closing_of_tending hidle)) _ _ hcancel
  | full p lastBackup =>
    simp only
    rw [endFull_agenda s hjob, errand_full hjob]
    refine .closes ?_ ⟨fun hsuccess => absurd hsuccess hfailed, ?_⟩
    · cases hstage : t.stage <;> first | rfl | (rw [hstage] at hidle; cases hidle)
    · rintro (hcall | ⟨hcall, -⟩)
      all_goals
        rw [hcall] at hidle
        cases hidle
  | wipe | clearData | restore =>
    exact moveTo_other h (by rw [Task.errand, hjob]) t rfl rfl (by rw [Task.errand, hjob]) _

/-- A task moves on, up to the offer of its data. -/
theorem moveTo_errand (h : s.OnAgenda t) (hidle : t.stage.isTending = true) {stage : Stage}
    (hopen : stage.isClosing = false) (hstage : ∀ p lastBackup, t.job = .full p lastBackup →
      stage.IsFull p ∧ (stage.isTending = true ∨ stage = .calling (.performFullBackup p.name))) :
    Turn s.agenda P t.number t.errand (s.moveTo t stage).agenda := by
  have hplain : t.errand.isPlain = true →
      Turn s.agenda P t.number t.errand (s.moveTo t stage).agenda := by
    intro hplain
    rw [moveTo_plain h hplain hopen]
    exact .stays hplain (.refl _)
  cases hjob : t.job with
  | keyValue =>
    exact hplain (by rw [errand_pass hjob (Stage.not_closing_of_tending hidle)]; rfl)
  | full p lastBackup =>
    obtain ⟨hfull, hearly⟩ := hstage p lastBackup hjob
    exact moveTo_full hjob (.early hidle hfull hearly)
  | wipe | clearData | restore =>
    exact hplain (by rw [Task.errand, hjob]; rfl)

/-! ## Agents -/

/-- The visit at hand of a scheduled full backup is that of its package. -/
theorem queued_isFull {v : Visit} {ticket : Nat} (h : (Stage.queued v ticket).IsFull p) :
    v = ⟨p, .full⟩ := by
  cases h
  rfl

theorem askHost_errand (h : s.OnAgenda t) {v : Visit} {ticket : Nat}
    (hstage : t.stage = .queued v ticket)
    (hcourse : ∀ p lastBackup, t.job = .full p lastBackup → t.stage.IsFull p) :
    Turn s.agenda P t.number t.errand (s.askHost t v ticket).agenda := by
  have hidle : t.stage.isTending = true := by rw [hstage]; rfl
  unfold askHost
  simp only
  generalize hostReacts _ _ _ = answer
  have hnote : (s.note (.agent v.package.name (.bind v.mode))).agenda = s.agenda :=
    note_agenda _ rfl
  split
  · -- the timer of the bind is no chore
    have hbound : ∀ s' : System, s'.agenda = s.agenda → Turn s.agenda P t.number t.errand
        (s'.moveTo t (.binding v ticket)).agenda := by
      intro s' hsame
      rw [← hsame]
      refine moveTo_errand (h.congr s' t (by rw [hsame]) rfl rfl) hidle rfl
        fun p lastBackup hjob => ?_
      obtain rfl := queued_isFull (hstage ▸ hcourse p lastBackup hjob)
      exact ⟨.binding ticket, .inl rfl⟩
    split
    · exact hbound _ hnote
    · exact hbound _ ((setTimer_agenda _ rfl _).trans hnote)
  · have hfailed := @visitFailed_errand
      ((s.note (.agent v.package.name (.bind v.mode))).onEngine fun e =>
        { e with binder := answer.2.leave }) t P
      (h.congr _ t (congrArg Agenda.errands hnote) rfl rfl) hidle v .agentFailure nofun nofun
    have hsame : ((s.note (.agent v.package.name (.bind v.mode))).onEngine fun e =>
        { e with binder := answer.2.leave }).agenda = s.agenda := hnote
    rw [hsame] at hfailed
    exact hfailed

theorem meetAgent_errand (h : s.OnAgenda t) {v : Visit} {ticket : Nat}
    (hstage : t.stage = .binding v ticket)
    (hcourse : ∀ p lastBackup, t.job = .full p lastBackup → t.stage.IsFull p) :
    Turn s.agenda P t.number t.errand (s.meetAgent t v).agenda := by
  have hidle : t.stage.isTending = true := by rw [hstage]; rfl
  refine meetAgent_elim ?prepares ?fails
  case prepares =>
    intro _
    -- the registered wait is no concern of the agenda, nor is the token that the task keeps
    have hprepared : ∀ (s' : System) (agentToken : Option OpToken) (token : OpToken),
        s'.agenda = s.agenda → Turn s.agenda P t.number t.errand
          (s'.moveTo { t with agentToken } (.prepared v token)).agenda := by
      intro s' agentToken token hsame
      rw [← hsame]
      refine @moveTo_errand s' { t with agentToken } P (h.congr s' _ (by rw [hsame]) rfl rfl) hidle
        _ rfl fun p lastBackup hjob => ?_
      have hfull := hstage ▸ hcourse p lastBackup hjob
      cases hfull with
      | binding _ => exact ⟨.prepared token, .inl rfl⟩
    unfold prepare
    simp only
    exact hprepared _ _ _ (freshToken_agenda _)
  case fails =>
    intro left _ hleft
    have hsame : left.agenda = s.agenda := by
      rcases hleft with rfl | rfl
      · rfl
      · exact note_agenda _ rfl
    rw [← hsame]
    exact visitFailed_errand (h.congr left t (by rw [hsame]) rfl rfl) hidle v nofun nofun

/-- Whoever is canceled, the task moves on. -/
theorem moveTo_heeding (h : s.OnAgenda t) (hidle : t.stage.isTending = true) {stage : Stage}
    (hopen : stage.isClosing = false) (hstage : ∀ p lastBackup, t.job = .full p lastBackup →
      stage.IsFull p ∧ (stage.isTending = true ∨ stage = .calling (.performFullBackup p.name)))
    {s' : System} (hheeds : s.agenda.Heeds s'.agenda)
    (hcanceled : t.errand.cancel = t.errand) :
    Turn s.agenda P t.number t.errand (s'.moveTo t stage).agenda := by
  have hdistinct : s'.agenda.Distinct ∧ (t.number, t.errand) ∈ s'.agenda.errands := by
    rcases hheeds with hsame | ⟨number, hcancel⟩
    · rw [hsame]
      exact ⟨h.distinct, h.mem⟩
    · rw [hcancel]
      refine ⟨h.distinct.cancel number, ?_⟩
      exact List.mem_map.2 ⟨_, h.mem, by split <;> simp [hcanceled]⟩
  cases hjob : t.job with
  | full p lastBackup =>
    obtain ⟨hfull, hearly⟩ := hstage p lastBackup hjob
    rw [moveTo_agenda, errand_full hjob, @errand_full { t with stage } p lastBackup hjob]
    exact .moves (.early hidle hfull hearly) hheeds
  | keyValue | wipe | clearData | restore =>
    have hplain : t.errand.isPlain = true := by
      cases hold : t.stage <;> simp_all [Task.errand, Stage.isTending, Errand.isPlain]
    rw [moveTo_plain ⟨hdistinct.1, hdistinct.2⟩ hplain hopen]
    exact .stays hplain hheeds

theorem heedCancel_errand (h : s.OnAgenda t) {v : Visit} {token : OpToken}
    (hstage : t.stage = .prepared v token)
    (hcourse : ∀ p lastBackup, t.job = .full p lastBackup → t.stage.IsFull p) :
    Turn s.agenda P t.number t.errand (s.heedCancel t v token).agenda := by
  have hidle : t.stage.isTending = true := by rw [hstage]; rfl
  unfold heedCancel
  split
  · rename_i hcanceled
    refine moveTo_heeding h hidle rfl (fun p lastBackup hjob => ?_) ?_ ?_
    · have hfull := hstage ▸ hcourse p lastBackup hjob
      cases hfull with
      | prepared _ => exact ⟨.working token, .inl rfl⟩
    · exact (cancelOperation_agenda h.distinct token).imp_right fun ⟨number, _, heq⟩ =>
        ⟨number, heq⟩
    · cases hjob : t.job with
      | keyValue =>
        rw [errand_pass hjob (Stage.not_closing_of_tending hidle), hcanceled]
        rfl
      | full | wipe | clearData | restore =>
        simp only [Task.errand, hjob]
        rfl
  · refine moveTo_errand h hidle rfl fun p lastBackup hjob => ?_
    have hfull := hstage ▸ hcourse p lastBackup hjob
    cases hfull with
    | prepared _ => exact ⟨.starting token, .inl rfl⟩

theorem giveWork_errand (h : s.OnAgenda t) {v : Visit} {token : OpToken}
    (hstage : t.stage = .starting v token)
    (hcourse : ∀ p lastBackup, t.job = .full p lastBackup → t.stage.IsFull p) :
    Turn s.agenda P t.number t.errand (s.giveWork t v token).agenda := by
  have hidle : t.stage.isTending = true := by rw [hstage]; rfl
  have hgiven : ∀ s' : System, s'.agenda = s.agenda → Turn s.agenda P t.number t.errand
      (s'.moveTo t (.working v token)).agenda := by
    intro s' hsame
    rw [← hsame]
    refine moveTo_errand (h.congr s' t (by rw [hsame]) rfl rfl) hidle rfl
      fun p lastBackup hjob => ?_
    have hfull := hstage ▸ hcourse p lastBackup hjob
    cases hfull with
    | starting _ => exact ⟨.working token, .inl rfl⟩
  unfold giveWork
  simp only
  exact hgiven _ (note_agenda s rfl)

theorem collectWork_errand (h : s.OnAgenda t) {v : Visit} {token : OpToken}
    (hstage : t.stage = .working v token)
    (hcourse : ∀ p lastBackup, t.job = .full p lastBackup → t.stage.IsFull p) :
    Turn s.agenda P t.number t.errand (s.collectWork t v token).agenda := by
  have hsame : (s.collected v token).agenda = s.agenda := tearDown_agenda _ _
  have hidle : ({ t with agentToken := none } : Task).stage.isTending = true := by
    simp only [hstage]
    rfl
  have h' : (s.collected v token).OnAgenda { t with agentToken := none } :=
    h.congr _ _ (by rw [hsame]) rfl rfl
  have hmove : ∀ stage : Stage, stage.isClosing = false →
      (∀ p lastBackup, t.job = .full p lastBackup →
        stage.IsFull p ∧ (stage.isTending = true ∨ stage = .calling (.performFullBackup p.name))) →
      Turn s.agenda P t.number t.errand
        ((s.collected v token).moveTo { t with agentToken := none } stage).agenda := by
    intro stage hopen hfull
    have hturn := moveTo_errand (P := P) h' hidle hopen hfull
    rw [hsame] at hturn
    exact hturn
  -- what is no full backup may move anywhere
  have hplain : (∀ p lastBackup, t.job ≠ .full p lastBackup) → ∀ stage : Stage,
      stage.isClosing = false → Turn s.agenda P t.number t.errand
        ((s.collected v token).moveTo { t with agentToken := none } stage).agenda :=
    fun hjob stage hopen => hmove stage hopen fun p lastBackup hfull =>
      absurd hfull (hjob p lastBackup)
  refine collectWork_elim ?offers ?offersFull ?restores ?fails
  case offers =>
    intro _ _ _ _ _ _ hjob
    rw [call_agenda]
    exact hplain (by simp [hjob]) _ rfl
  case offersFull =>
    intro _ _ _
    rw [call_agenda]
    refine hmove _ rfl fun p lastBackup hfull => ?_
    have hcourse := hstage ▸ hcourse p lastBackup hfull
    cases hcourse with
    | working _ => exact ⟨.offering, .inr rfl⟩
  case restores => exact fun _ hjob => hplain hjob _ rfl
  case fails =>
    have hne : (if t.canceled then .cancelled else .agentFailure : Status) ≠ .success := by
      split <;> nofun
    have hfailed := visitFailed_errand (P := P) h' hidle v hne (by split <;> simp_all)
    rw [hsame] at hfailed
    exact hfailed

/-! ## Stages -/

theorem openTask_errand (h : s.OnAgenda t) (hstage : t.stage = .opening) :
    Turn s.agenda P t.number t.errand (s.openTask t).agenda := by
  have hidle : t.stage.isTending = true := by rw [hstage]; rfl
  unfold openTask
  split
  · rename_i drained keyValue full observer nonIncremental hjob
    have herrand := errand_pass hjob (Stage.not_closing_of_tending hidle)
    simp only
    split
    · obtain ⟨disk, hend⟩ := endKeyValue_agenda s.acquireWake herrand .transportAborted
      rw [hend, herrand]
      exact .ends disk nofun
    · rw [moveTo_plain (h.congr s.acquireWake t rfl rfl rfl) (by rw [herrand]; rfl) rfl]
      exact .stays (by rw [herrand]; rfl) (.refl _)
  · rename_i p lastBackup hjob
    rw [visit_agenda]
    refine moveTo_errand h hidle rfl fun p' lastBackup' hjob' => ?_
    rw [hjob] at hjob'
    cases hjob'
    exact ⟨.queued _, .inl rfl⟩
  · rename_i hjob
    have hother : t.errand = .other := by rw [Task.errand, hjob]
    exact moveTo_other h hother t s.acquireWake_agenda rfl hother _
  · rename_i hjob
    have hother : t.errand = .other := by rw [Task.errand, hjob]
    rw [call_agenda]
    exact moveTo_other h hother t s.acquireWake_agenda rfl hother _
  · rename_i hjob
    have hother : t.errand = .other := by rw [Task.errand, hjob]
    rw [call_agenda]
    exact moveTo_other h hother t s.acquireWake_agenda rfl hother _

/-- The packages that are left do not show on the agenda. -/
theorem chooseKeyValue_errand (h : s.OnAgenda t) (hidle : t.stage.isTending = true)
    (hjob : t.job = .keyValue drained keyValue full observer nonIncremental) :
    Turn s.agenda P t.number t.errand
      (s.chooseKeyValue t drained keyValue full observer nonIncremental).agenda := by
  have hopen := Stage.not_closing_of_tending hidle
  have herrand := errand_pass hjob hopen
  have hplain : t.errand.isPlain = true := by rw [herrand]; rfl
  have hcanceled : t.canceled = true → Turn s.agenda P t.number t.errand
      (s.endKeyValue t drained .cancelled).agenda := by
    intro hcanceled
    obtain ⟨disk, hend⟩ := endKeyValue_agenda s herrand .cancelled
    rw [hend, herrand]
    exact .ends disk fun _ => hcanceled
  -- the task with other packages left
  have hsame : ∀ keyValue full, ({ t with
      job := .keyValue drained keyValue full observer nonIncremental } : Task).errand = t.errand :=
    fun keyValue full => (@errand_pass { t with
      job := .keyValue drained keyValue full observer nonIncremental } _ _ _ _ _ rfl hopen).trans
        herrand.symm
  have hmoved : ∀ keyValue full (stage : Stage), stage.isClosing = false →
      Turn s.agenda P t.number t.errand
        (s.moveTo { t with job := .keyValue drained keyValue full observer nonIncremental }
          stage).agenda := by
    intro keyValue full stage hstage
    rw [moveTo_plain (h.congr s
      { t with job := .keyValue drained keyValue full observer nonIncremental } rfl rfl
      (hsame keyValue full)) (by rw [hsame, hplain]) hstage]
    exact .stays hplain (.refl _)
  have hdone : ∀ keyValue full package status, status ≠ .cancelled →
      Turn s.agenda P t.number t.errand
        (s.packageDone { t with job := .keyValue drained keyValue full observer nonIncremental }
          drained observer package status).agenda := by
    intro keyValue full package status hstatus
    have hturn := packageDone_errand (P := P)
      (h.congr s _ (by rfl) (by rfl) (hsame keyValue full)) ((hsame keyValue full).trans herrand)
      observer package (fun hcancel => absurd hcancel hstatus)
    rw [hsame] at hturn
    exact hturn
  refine chooseKeyValue_elim ?commits ?breaksOff ?offers ?visits ?skips
  case commits =>
    rw [call_agenda, moveTo_plain h hplain rfl]
    exact .stays hplain (.refl _)
  case breaksOff => exact hcanceled
  case offers =>
    intro keyValue full
    rw [call_agenda]
    exact hmoved _ _ _ rfl
  case visits =>
    intro keyValue full v
    rw [visit_agenda]
    exact hmoved _ _ _ rfl
  case skips =>
    exact fun _ _ _ _ hstatus => hdone _ _ _ _ (by rcases hstatus with rfl | rfl <;> nofun)

theorem chooseInit_errand (h : s.OnAgenda t) (hother : t.errand = .other) (names : List String)
    (observer : Option String) (overall : Status) :
    Turn s.agenda P t.number t.errand (s.chooseInit t names observer overall).agenda := by
  refine chooseInit_elim ?ends ?skips ?wipes
  case ends =>
    rw [endPlain_agenda, tellFinished_agenda, hother]
    exact .quits
  case skips =>
    exact fun _ _ _ => moveTo_other h hother _ (tellResult_agenda _ _ _ _) (by rfl) (by rfl) _
  case wipes =>
    intro name rest
    rw [call_agenda]
    exact moveTo_other h hother _ (s.lend_agenda _ _) (by rfl) (by rfl) _

theorem chooseRestore_errand (h : s.OnAgenda t) (hother : t.errand = .other)
    (order : RestoreOrder) (rest : List String) :
    Turn s.agenda P t.number t.errand (s.chooseRestore t order rest).agenda := by
  refine chooseRestore_elim ?commits ?visits ?skips
  case commits =>
    rw [call_agenda]
    exact moveTo_other h hother _ rfl rfl hother _
  case visits =>
    intro rest v
    rw [visit_agenda]
    exact moveTo_other h hother _ rfl (by rfl) (by rfl) _
  case skips => exact fun _ => moveTo_other h hother _ rfl (by rfl) (by rfl) _

theorem choose_errand (h : s.OnAgenda t) (hstage : t.stage = .choosing) :
    Turn s.agenda P t.number t.errand (s.choose t).agenda := by
  unfold choose
  cases hjob : t.job with
  | keyValue drained keyValue full observer nonIncremental =>
    exact chooseKeyValue_errand h (by rw [hstage]; rfl) hjob
  | full p lastBackup =>
    simp only
    rw [endFull_agenda s hjob, errand_full hjob, hstage]
    exact .closes rfl ⟨nofun, nofun⟩
  | wipe names observer overall =>
    exact chooseInit_errand h (by rw [Task.errand, hjob]) names observer overall
  | clearData package =>
    rw [endPlain_agenda, Task.errand, hjob]
    exact .quits
  | restore order rest =>
    exact chooseRestore_errand h (by rw [Task.errand, hjob]) order rest

/-! ## Answers of transports -/

theorem initDone_errand (h : s.OnAgenda t) (hother : t.errand = .other) (rest : List String)
    (observer : Option String) (overall : Status) (reply : Device.Reply) :
    Turn s.agenda P t.number t.errand
      (s.initDone t rest observer overall reply).agenda := by
  -- the last steps leave the agenda as it is
  have hlast : ∀ (s' : System) (result overall : Status),
      s'.agenda.errands = s.agenda.errands →
      (((s'.tellResult observer t.transport result).dispose t.lease).moveTo
        { t with job := .wipe rest observer overall, lease := none } .choosing).agenda =
          s'.agenda := by
    intro s' result overall herrands
    have hagenda : ((s'.tellResult observer t.transport result).dispose t.lease).agenda =
        s'.agenda := by rw [dispose_agenda, tellResult_agenda]
    have herrand : ({ t with job := .wipe rest observer overall, lease := none } : Task).errand =
        t.errand := hother.symm
    rw [moveTo_plain (h.congr _ _ (by rw [hagenda, herrands]) (by rfl) herrand)
      (by rw [herrand, hother]; rfl) rfl, hagenda]
  unfold initDone
  simp only
  split
  · have hreset : ∀ s' : System, s'.agenda = (s.resetBackupState t.transport).2.agenda →
        Turn s.agenda P t.number t.errand
          (((s'.tellResult observer t.transport .success).dispose t.lease).moveTo
            { t with job := .wipe rest observer overall, lease := none } .choosing).agenda := by
      intro s' hsame
      rcases s.resetBackupState_agenda t.transport with hnone | ⟨packages, disk, hall⟩
      · rw [hlast _ _ _ (by rw [hsame, hnone]), hsame, hnone]
        exact .stays (by rw [hother]; rfl) (.refl _)
      · rw [hlast _ _ _ (by rw [hsame, hall]; rfl), hsame, hall, hother]
        exact .wipes packages disk
    dsimp only
    split
    · exact hreset _ (setInitPending_agenda _ _ _ _)
    · exact hreset _ rfl
  · dsimp only
    rw [hlast _ _ _ (by rw [retryInit_agenda]), retryInit_agenda]
    exact .stays (by rw [hother]; rfl) (.refl _)

theorem heed_errand (t : Task) (reply : Device.Reply) : (t.heed reply).errand = t.errand := by
  unfold Task.heed
  split <;> rfl

theorem heed_number (t : Task) (reply : Device.Reply) : (t.heed reply).number = t.number := by
  unfold Task.heed
  split <;> rfl

theorem commitStatus_ne_cancelled (reply : Device.Reply) : commitStatus reply ≠ .cancelled := by
  unfold commitStatus
  split <;> nofun

theorem replyKeyValue_errand (h : s.OnAgenda t) (herrand : t.errand = .pass drained t.canceled)
    (observer : Option String) (call : TransportCall) (reply : Device.Reply) :
    Turn s.agenda P t.number t.errand
      (s.replyKeyValue t drained observer call reply).agenda := by
  -- the answer may ask for a wipe, which is no part of the errand
  have h' : s.OnAgenda (t.heed reply) := h.congr s _ rfl (heed_number t reply) (heed_errand t reply)
  have herrand' : (t.heed reply).errand = .pass drained (t.heed reply).canceled := by
    unfold Task.heed
    split <;> exact herrand
  rw [← heed_number t reply, ← heed_errand t reply]
  refine replyKeyValue_elim ?done ?doneFull ?asks ?commits
  case done =>
    intro left package hleft
    have hsame : left.agenda = s.agenda := by
      rcases hleft with rfl | rfl | rfl
      · rfl
      · exact writeMetadata_agenda _ _
      · exact recordProcessed_agenda _ _
    have hturn := packageDone_errand (P := P) (h'.congr left _ (by rw [hsame]) rfl rfl)
      herrand' observer package fun hcancel => absurd hcancel (ofReply_ne_cancelled reply)
    rw [hsame] at hturn
    exact hturn
  case doneFull =>
    intro package _
    have hfiled : ((s.recordProcessed package).enqueueFull package s.now).agenda =
        s.agenda.reschedule (s.agenda.schedule.enqueue package s.agenda.now) := by
      rw [enqueueFull_agenda, recordProcessed_agenda]
      rfl
    unfold packageDone
    simp only [Status.endsPass, Bool.false_eq_true, if_false]
    have hsame : ((s.recordProcessed package).enqueueFull package s.now |>.tellResult observer
        package .success).agenda.errands = s.agenda.errands := by
      rw [tellResult_agenda, hfiled, reschedule, request_errands]
    rw [moveTo_plain (h'.congr _ _ hsame rfl rfl) (by rw [herrand']; rfl) rfl, tellResult_agenda,
      hfiled, herrand']
    exact .files package
  case asks =>
    intro _
    rw [call_agenda, moveTo_plain h' (by rw [herrand']; rfl) rfl]
    exact .stays (by rw [herrand']; rfl) (.refl _)
  case commits =>
    intro _
    obtain ⟨disk, hend⟩ := endKeyValue_agenda s herrand' (commitStatus reply)
    rw [hend, herrand']
    exact .ends disk fun hcancel => absurd hcancel (commitStatus_ne_cancelled reply)

theorem replyFull_errand (hjob : t.job = .full p lastBackup) {call : TransportCall}
    (hstage : t.stage = .calling call) (hother : call ≠ .currentRestoreSet)
    (hcourse : t.stage.IsFull p) {reply : Device.Reply} (hassents : P ↔ reply = .ok .ok) :
    Turn s.agenda P t.number t.errand
      (s.replyFull t p.name lastBackup call reply).agenda := by
  have hheed : (t.heed reply).job = .full p lastBackup ∧ (t.heed reply).token = t.token := by
    unfold Task.heed
    split <;> exact ⟨hjob, rfl⟩
  -- the call that comes next
  have hcalls : ∀ (s' : System) (next : TransportCall), s'.agenda = s.agenda →
      Advances p P t.stage (.calling next) →
      Turn s.agenda P t.number t.errand (s'.call (t.heed reply) next).agenda := by
    intro s' next hsame hadvances
    have herrand : ({ t.heed reply with stage := .calling next } : Task).errand =
        .full p lastBackup t.token (.calling next) := by
      rw [← hheed.2]
      exact errand_full hheed.1
    rw [call_agenda, moveTo_agenda, herrand, hsame, heed_number, errand_full hjob]
    exact .moves hadvances (.refl _)
  have hends : ∀ status, (status = .success ↔ t.stage = .calling .currentRestoreSet ∨
      t.stage = .calling .finishBackup ∧ P) →
      Turn s.agenda P t.number t.errand
        (s.endFull (t.heed reply) p.name lastBackup status).agenda := by
    intro status hsuccess
    rw [endFull_agenda s hheed.1, heed_number, hheed.2, errand_full hjob]
    exact .closes (by rw [hstage]; rfl) hsuccess
  unfold replyFull
  simp only
  rw [hstage] at hcourse hcalls hends
  cases hcourse with
  | offering =>
    simp only
    split
    · rename_i haccepted
      refine hcalls _ _ (recordProcessed_agenda _ _) ⟨.committing, rfl, rfl, ?_, ?_, nofun, nofun⟩
      · exact ⟨fun _ => ⟨rfl, hassents.2 (ofReply_eq_success.1 haccepted)⟩, fun _ => rfl⟩
      · exact ⟨nofun, nofun⟩
    · rename_i hrefused
      exact hends _ ⟨fun hsuccess => absurd hsuccess hrefused, nofun⟩
  | committing =>
    simp only
    split
    · rename_i hwants
      have hcommitted : P := hassents.2 ((s.wantsDataset_iff reply).1 hwants).1
      exact hcalls s _ rfl ⟨.asking, rfl, rfl, ⟨nofun, nofun⟩, ⟨fun _ => rfl, fun _ => rfl⟩,
        fun _ => hcommitted, nofun⟩
    · refine hends _ (commitStatus_eq_success.trans ?_)
      exact ⟨fun haccepted => .inr ⟨rfl, hassents.2 haccepted⟩,
        fun hcall => hassents.1 (hcall.elim nofun And.right)⟩
  | asking => exact absurd rfl hother

theorem takeReply_errand (h : s.OnAgenda t) {call : TransportCall}
    (hstage : t.stage = .calling call)
    (hother : call = .currentRestoreSet → ∀ p lastBackup, t.job ≠ .full p lastBackup)
    (hcourse : ∀ p lastBackup, t.job = .full p lastBackup → t.stage.IsFull p) :
    Turn s.agenda (s.Assents t) t.number t.errand (s.takeReply t call).agenda := by
  have hassents : s.Assents t ↔ (s.device.answer t.transport call).1 = .ok .ok := by
    refine ⟨?_, fun haccepted => ⟨call, hstage, haccepted⟩⟩
    rintro ⟨other, hother, haccepted⟩
    rw [hstage] at hother
    cases hother
    exact haccepted
  have hsame : (s.answered t call).agenda = s.agenda := answer_agenda s _ _
  have h' : (s.answered t call).OnAgenda t := h.congr _ t (by rw [hsame]) rfl rfl
  -- a job that is no backup goes on or ends without a trace on the agenda
  have hgoes : ∀ stage, t.errand = .other → Turn s.agenda (s.Assents t) t.number t.errand
      ((s.answered t call).moveTo t stage).agenda :=
    fun stage hother => moveTo_other h hother _ hsame rfl hother _
  have hrestore : ∀ order rest started, t.job = .restore order rest →
      Turn s.agenda (s.Assents t) t.number t.errand
        ((s.answered t call).endRestore t order started).agenda := by
    intro order rest started hjob
    rw [endRestore_agenda, hsame, Task.errand, hjob]
    exact .quits
  rw [← hsame]
  rw [← hsame] at hgoes hrestore
  refine takeReply_elim ?keyValue ?full ?wipeGoesOn ?wiped ?clearGoesOn ?cleared ?restoreGoesOn
    ?restoreFails ?restored
  case keyValue =>
    intro _ _ _ _ observer hjob
    exact replyKeyValue_errand h' (errand_pass hjob (by rw [hstage]; rfl)) _ call _
  case full =>
    exact fun p lastBackup hjob => replyFull_errand hjob hstage
      (fun hask => hother hask p lastBackup hjob) (hcourse p lastBackup hjob) hassents
  case wipeGoesOn =>
    intro _ _ _ hjob _
    rw [call_agenda]
    exact hgoes _ (by rw [Task.errand, hjob])
  case wiped =>
    exact fun rest observer overall hjob _ =>
      initDone_errand h' (by rw [Task.errand, hjob]) rest observer overall _
  case clearGoesOn =>
    intro _ hjob
    rw [call_agenda]
    exact hgoes _ (by rw [Task.errand, hjob])
  case cleared =>
    intro _ hjob
    rw [endPlain_agenda, Task.errand, hjob]
    exact .quits
  case restoreGoesOn => exact fun _ _ hjob => hgoes _ (by rw [Task.errand, hjob])
  case restoreFails => exact fun _ _ _ _ hjob _ _ => hrestore _ _ _ hjob
  case restored => exact fun _ _ hjob _ => hrestore _ _ _ hjob

/-- A pass that asked for the dataset it wrote is done. -/
theorem takeDataset_errand (h : s.OnAgenda t) (hstage : t.stage = .calling .currentRestoreSet)
    (hcourse : ∀ p lastBackup, t.job = .full p lastBackup → t.stage.IsFull p) :
    Turn s.agenda (s.Assents t) t.number t.errand (s.takeDataset t).agenda := by
  unfold takeDataset
  cases hjob : t.job with
  | keyValue drained keyValue full observer nonIncremental =>
    have herrand := errand_pass hjob (by rw [hstage]; rfl)
    obtain ⟨disk, hend⟩ := endKeyValue_agenda (s.storeDataset t.transport) herrand .success
    simp only
    rw [hend, storeDataset_agenda, herrand]
    exact .ends disk nofun
  | full p lastBackup =>
    simp only
    rw [endFull_agenda _ hjob, storeDataset_agenda, errand_full hjob, hstage]
    exact .closes rfl ⟨fun _ => .inl rfl, fun _ => rfl⟩
  | wipe | clearData | restore =>
    exact takeReply_errand h hstage (fun _ => by simp [hjob]) hcourse

/-- A pass that winds down goes on with that. -/
theorem closeTask_errand {status : Status} (hstage : t.stage = .closing status) :
    Turn s.agenda P t.number t.errand (s.closeTask t status).agenda := by
  unfold closeTask
  cases hjob : t.job with
  | keyValue drained keyValue full observer nonIncremental =>
    have hpassed : t.errand = .passed status := by simp only [Task.errand, hjob, hstage]
    simp only
    rw [closeKeyValue_agenda, hpassed]
    exact .departs
  | full p lastBackup =>
    have hleaving : ({ t with stage := .leaving } : Task).errand =
        .full p lastBackup t.token .leaving := errand_full hjob
    simp only
    rw [vacate, moveTo_agenda, clearRunningFull_agenda, hleaving, errand_full hjob, hstage]
    exact .vacates
  | wipe | clearData | restore =>
    simp only
    exact .stays (by rw [Task.errand, hjob]; rfl) (.refl _)

/-- A scheduled full backup that has given up its place leaves the schedule as it finds it. -/
theorem leave_agenda (s : System) {p : Package} {lastBackup : Int}
    (hjob : t.job = .full p lastBackup) : (s.leave t).agenda = s.agenda.drop t.number := by
  simp only [leave, hjob, dropTask_agenda, dispose_agenda, scheduleNextFullJob_agenda,
    releaseWake_agenda, dropToken_agenda]

theorem leave_errand (hstage : t.stage = .leaving) :
    Turn s.agenda P t.number t.errand (s.leave t).agenda := by
  cases hjob : t.job with
  | full p lastBackup =>
    rw [s.leave_agenda hjob, errand_full hjob, hstage]
    exact .leaves
  | keyValue =>
    simp only [leave, hjob]
    exact .stays (by rw [errand_pass hjob (by rw [hstage]; rfl)]; rfl) (.refl _)
  | wipe | clearData | restore =>
    simp only [leave, hjob]
    exact .stays (by rw [Task.errand, hjob]; rfl) (.refl _)

/-- **Every step of a task is one of the turns.** One that has broken down makes none. -/
theorem stepTask_errand (h : s.OnAgenda t) (hready : s.isReady t = true)
    (hcourse : ∀ p lastBackup, t.job = .full p lastBackup → t.stage.IsFull p) :
    Turn s.agenda (s.Assents t) t.number t.errand (s.stepTask t).agenda := by
  refine stepTask_elim ?opening ?choosing ?queued ?binding ?prepared ?starting ?working ?asking
    ?calling ?closing ?leaving ?fallen
  case opening => exact openTask_errand h
  case choosing => exact choose_errand h
  case queued => exact fun _ _ hstage => askHost_errand h hstage hcourse
  case binding => exact fun _ _ hstage => meetAgent_errand h hstage hcourse
  case prepared => exact fun _ _ hstage => heedCancel_errand h hstage hcourse
  case starting => exact fun _ _ hstage => giveWork_errand h hstage hcourse
  case working => exact fun _ _ hstage => collectWork_errand h hstage hcourse
  case asking => exact fun hstage => takeDataset_errand h hstage hcourse
  case calling =>
    exact fun _ hstage hother => takeReply_errand h hstage (fun hask => absurd hask hother) hcourse
  case closing => exact fun _ => closeTask_errand
  case leaving => exact leave_errand
  case fallen =>
    intro hstage
    simp only [isReady, hstage] at hready
    cases hready

end System

end Holdfast
