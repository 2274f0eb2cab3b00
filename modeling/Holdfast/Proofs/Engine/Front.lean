import Holdfast.Proofs.Engine.FootprintWork
import Holdfast.Proofs.Engine.Matters

/-!
# The front of the engine

Two things are asked of the host of the agents and the jobs: to bring up the agent of a package, and
to run the job of full backups after a delay. What was asked, with the line of binds and the stages
at which tasks stand, is the front of the engine. This module says what the small operations of the
engine do to it.

- `System.front`: the extract;
- `Front.join`, `Front.leave`, `Front.ask`, `Front.arm`, …: what is done to a front;
- one equation for each operation (`System.scheduleNextFullJob_front`, `System.closeKeyValue_front`,
  …). Most of them leave the front as it is.
-/

namespace Holdfast

namespace Device.Notice

/-- The agent that the host was asked for. -/
def asked? : Notice → Option (String × AgentMode)
  | .agent package (.bind mode) => some (package, mode)
  | _ => none

/-- The delay after which the job of full backups was to run. -/
def fullDelay? : Notice → Option Nat
  | .fullJob delay => some delay
  | _ => none

end Device.Notice

/-- Where a task stands. -/
structure Place where
  number : Nat
  kind : Pass.Kind
  stage : Stage
  deriving DecidableEq, Repr

/-- The place of a task. -/
def Task.place (t : Task) : Place := ⟨t.number, t.job.kind, t.stage⟩

/-- The extract of the state that says what was asked of the host, and on whose behalf. -/
structure Front where
  /-- Tickets of the binds, in the order in which they are served. -/
  line : List Nat
  nextTicket : Nat
  places : List Place
  /-- Agents that the host was asked for, oldest first. -/
  asked : List (String × AgentMode)
  /-- Packages whose agents were unbound, oldest first. -/
  unbound : List String
  /-- Delays after which the job of full backups was to run, oldest first. -/
  delays : List Nat

namespace Front

/-- The parts of the state that the front is read from. -/
def parts : Footprint := [.line, .tasks, .notices .agents, .notices .fullJob]

/-- A bind is lined up. -/
def join (f : Front) : Front :=
  { f with line := f.line ++ [f.nextTicket], nextTicket := f.nextTicket + 1 }

/-- The bind whose turn it is ends. -/
def leave (f : Front) : Front := { f with line := f.line.tail }

/-- The host is asked for an agent. -/
def ask (f : Front) (v : Visit) : Front := { f with asked := f.asked ++ [(v.package.name, v.mode)] }

/-- An agent is unbound. -/
def unbind (f : Front) (package : String) : Front := { f with unbound := f.unbound ++ [package] }

/-- The job of full backups is to run after one delay, and then after another. -/
def arm (f : Front) (delays : List Nat) : Front := { f with delays := f.delays ++ delays }

/-- A task stands at another place. -/
def stand (f : Front) (p : Place) : Front :=
  { f with places := f.places.map fun other => if other.number = p.number then p else other }

/-- A task is over. -/
def drop (f : Front) (number : Nat) : Front :=
  { f with places := f.places.filter fun p => p.number ≠ number }

/-- A task begins. -/
def enter (f : Front) (p : Place) : Front := { f with places := f.places ++ [p] }

/-- To arm nothing. -/
theorem arm_nil (f : Front) : f.arm [] = f := by simp [arm]

/-- The delays are kept in the order in which they were asked for. -/
theorem arm_arm (f : Front) (delays delays' : List Nat) :
    (f.arm delays).arm delays' = f.arm (delays ++ delays') := by
  simp [arm]

end Front

namespace Binder

/-- The line of binds is as it was. -/
structure Keeps (b b' : Binder) : Prop where
  line : b'.line = b.line
  next : b'.nextTicket = b.nextTicket

variable {b : Binder}

theorem Keeps.refl (b : Binder) : b.Keeps b := ⟨rfl, rfl⟩

theorem Keeps.trans {b b' b'' : Binder} (h : b.Keeps b') (h' : b'.Keeps b'') : b.Keeps b'' :=
  ⟨h'.line.trans h.line, h'.next.trans h.next⟩

/-- The host is asked, and the line stays. -/
theorem await_keeps (b : Binder) (package : String) : b.Keeps (b.await package) := ⟨rfl, rfl⟩

/-- An agent that comes up ends no turn. -/
theorem connected_keeps (b : Binder) (package : String) : b.Keeps (b.connected package ()).2 := by
  unfold connected
  split <;> exact ⟨rfl, rfl⟩

/-- Neither does one that goes away. -/
theorem disconnected_keeps (b : Binder) (package : String) : b.Keeps (b.disconnected package) := by
  unfold disconnected
  split <;> exact ⟨rfl, rfl⟩

/-- Whatever the host does when it is asked, nobody leaves the line. -/
theorem hostReacts_keeps (behaviour : Device.Behaviour) (package : String) (b : Binder) :
    b.Keeps (System.hostReacts behaviour package b).2 := by
  cases behaviour with
  | normal | double | silent => exact b.connected_keeps package
  | unreachable | refuse => exact .refl b
  | disconnect => exact b.disconnected_keeps package
  | wrong => exact b.connected_keeps _

end Binder

namespace System

/-- The front of the engine. -/
def front (s : System) : Front where
  line := s.engine.binder.line
  nextTicket := s.engine.binder.nextTicket
  places := s.engine.tasks.map Task.place
  asked := (s.device.log.filterMap Device.Notice.asked?).reverse
  unbound := (s.device.log.filterMap Device.Notice.unbound?).reverse
  delays := (s.device.log.filterMap Device.Notice.fullDelay?).reverse

/-- The delay until the first package of the schedule is due, if it is within range. -/
def nextDelay? (s : System) : Option Nat :=
  if s.nextDueFits then s.engine.schedule.nextDue?.map fun dueAt => (dueAt - s.now).toNat else none

variable {s s' : System} {t : Task}

/-- What keeps away from its parts leaves the front as it is. -/
theorem Within.front {parts : Footprint} (h : s.Within parts s')
    (hparts : ∀ p ∈ Front.parts, p ∉ parts) : s'.front = s.front := by
  have hline : (s'.engine.binder.line, s'.engine.binder.nextTicket) =
      (s.engine.binder.line, s.engine.binder.nextTicket) := h.same .line (hparts _ (by decide))
  have htasks : s'.engine.tasks = s.engine.tasks := h.same .tasks (hparts _ (by decide))
  have hasked : s'.device.log.filterMap Device.Notice.asked? =
      s.device.log.filterMap Device.Notice.asked? :=
    h.log_filterMap (hparts (.notices .agents) (by decide)) fun notice hother => by
      cases notice <;> first | rfl | exact absurd rfl hother
  have hunbound := h.log_unbound (hparts _ (by decide))
  have hdelays : s'.device.log.filterMap Device.Notice.fullDelay? =
      s.device.log.filterMap Device.Notice.fullDelay? :=
    h.log_filterMap (hparts (.notices .fullJob) (by decide)) fun notice hother => by
      cases notice <;> first | rfl | exact absurd rfl hother
  obtain ⟨hline, hticket⟩ := Prod.mk.inj hline
  simp only [System.front, hline, hticket, htasks, hasked, hunbound, hdelays]

/-! ## Notices, commands and timers -/

/-- A notice that asks nothing of the host. -/
theorem note_front (s : System) {notice : Device.Notice} (hasked : notice.asked? = none)
    (hunbound : notice.unbound? = none) (hdelay : notice.fullDelay? = none) :
    (s.note notice).front = s.front := by
  simp only [front, note, Device.note, List.filterMap_cons, hasked, hunbound, hdelay]

/-- The host is asked for an agent. -/
theorem note_bind (s : System) (v : Visit) :
    (s.note (.agent v.package.name (.bind v.mode))).front = s.front.ask v := by
  simp [front, note, Device.note, List.filterMap_cons, Device.Notice.asked?,
    Device.Notice.unbound?, Device.Notice.fullDelay?, Front.ask]

/-- An agent is unbound. -/
theorem note_unbind_front (s : System) (package : String) :
    (s.note (.agent package .unbind)).front = s.front.unbind package := by
  simp [front, note, Device.note, List.filterMap_cons, Device.Notice.asked?,
    Device.Notice.unbound?, Device.Notice.fullDelay?, Front.unbind]

/-- The job of full backups is armed. -/
theorem note_fullJob (s : System) (delay : Nat) :
    (s.note (.fullJob delay)).front = s.front.arm [delay] := by
  simp [front, note, Device.note, List.filterMap_cons, Device.Notice.asked?,
    Device.Notice.unbound?, Device.Notice.fullDelay?, Front.arm]

@[simp] theorem tellResult_front (s : System) (observer : Option String) (package : String)
    (status : Status) : (s.tellResult observer package status).front = s.front :=
  (s.tellResult_within observer package status).front (by decide)

@[simp] theorem tellFinished_front (s : System) (observer : Option String) (status : Status) :
    (s.tellFinished observer status).front = s.front :=
  (s.tellFinished_within observer status).front (by decide)

@[simp] theorem post_front (s : System) (command : Command) : (s.post command).front = s.front := by
  unfold post
  split <;> rfl

@[simp] theorem send_front (s : System) (command : Command) :
    (s.send command).2.front = s.front := by
  rw [send_snd, post_front]

@[simp] theorem dispose_front (s : System) (lease : Option Lease) :
    (s.dispose lease).front = s.front := (s.dispose_within lease).front (by decide)

@[simp] theorem postDelayed_front (s : System) (command : Command) (delay : Nat) :
    (s.postDelayed command delay).2.front = s.front := rfl

@[simp] theorem releaseWake_front (s : System) : s.releaseWake.front = s.front :=
  s.releaseWake_within.front (by decide)

@[simp] theorem dropToken_front (s : System) (t : Task) : (s.dropToken t).front = s.front :=
  (s.dropToken_within t).front (by decide)

/-- Nobody has joined or left the line. -/
theorem withBinder_front (s : System) {binder : Binder} (h : s.engine.binder.Keeps binder) :
    (s.onEngine fun e => { e with binder }).front = s.front := by
  simp only [front, onEngine, h.line, h.next]

/-! ## Tasks -/

/-- A task that is changed stands at another place. -/
theorem setTask_front (s : System) (t : Task) : (s.setTask t).front = s.front.stand t.place := by
  simp only [setTask, front, onEngine, Front.stand, List.map_map]
  congr 1
  refine List.map_congr_left fun other _ => ?_
  simp only [Function.comp_apply]
  split
  · rename_i h
    rw [if_pos (show other.place.number = t.place.number from h)]
  · rename_i h
    rw [if_neg (show other.place.number ≠ t.place.number from h)]

/-- A task moves on to another stage. -/
theorem moveTo_front (s : System) (t : Task) (stage : Stage) :
    (s.moveTo t stage).front = s.front.stand { t.place with stage } :=
  s.setTask_front _

/-- A task waits for the answer of its transport. -/
theorem call_front (s : System) (t : Task) (call : TransportCall) :
    (s.call t call).front = s.front.stand { t.place with stage := .calling call } := by
  rw [System.call, moveTo_front, note_front _ rfl rfl rfl]

/-- A task is over. -/
theorem dropTask_front (s : System) (number : Nat) :
    (s.dropTask number).front = s.front.drop number := by
  simp only [dropTask, front, onEngine, Front.drop, List.filter_map]
  rfl

/-- A task begins. -/
theorem spawn_front (s : System) (t : Task) : (s.spawn t).front = s.front.enter t.place := by
  simp [spawn, front, onEngine, Front.enter]

/-- What the books say of tasks tells where they stand. -/
theorem places_eq (s : System) :
    s.front.places = s.ledger.seats.map fun e => ⟨e.number, e.job.kind, e.stage⟩ := by
  simp only [front, ledger, List.map_map]
  rfl

/-- No two places have one number. -/
theorem places_numbers (hs : s.Distinct) : (s.front.places.map (·.number)).Nodup := by
  rw [places_eq, List.map_map]
  exact hs

/-- Every task has its place. -/
theorem mem_places (h : t ∈ s.engine.tasks) : t.place ∈ s.front.places := List.mem_map_of_mem h

/-- A canceled task stands where it did. -/
theorem cancelOperation_front (hs : s.Distinct) (token : OpToken) :
    (s.cancelOperation token).front = s.front := by
  have hplaces : (s.cancelOperation token).front.places = s.front.places := by
    obtain ⟨keys, -, hledger⟩ := cancelOperation_ledger hs token
    rw [places_eq, places_eq, hledger]
    rfl
  have hothers : ({ (s.cancelOperation token).front with places := [] } : Front) =
      { s.front with places := [] } := by
    unfold cancelOperation
    simp only
    split
    · split
      · split <;> rfl
      · rfl
    · rfl
    · rfl
  simp only [Front.mk.injEq] at hothers
  obtain ⟨hline, hnext, -, hasked, hunbound, hdelays⟩ := hothers
  simp only [front, Front.mk.injEq]
  exact ⟨hline, hnext, hplaces, hasked, hunbound, hdelays⟩

/-- Operations are canceled one after the other. -/
theorem cancelAll_front (tokens : List OpToken) (hs : s.Distinct) :
    (tokens.foldl cancelOperation s).front = s.front := by
  induction tokens generalizing s with
  | nil => rfl
  | cons token tokens ih =>
    obtain ⟨keys, -, hledger⟩ := cancelOperation_ledger hs token
    have hs' : (s.cancelOperation token).Distinct := by
      rw [Distinct, hledger]
      exact hs
    rw [List.foldl_cons, ih hs', cancelOperation_front hs]

/-! ## Upkeep -/

@[simp] theorem freshToken_front (s : System) : s.freshToken.2.front = s.front :=
  s.freshToken_within.front (by decide)

@[simp] theorem scheduleKeyValueJob_front (s : System) :
    s.scheduleKeyValueJob.front = s.front := s.scheduleKeyValueJob_within.front (by decide)

/-- The job is armed for the first package of the schedule, unless the time until that is due is out
of range. -/
theorem scheduleNextFullJob_front (s : System) (latency : Nat) :
    (s.scheduleNextFullJob latency).front =
      s.front.arm (s.nextDelay?.toList.map (max latency)) := by
  unfold scheduleNextFullJob nextDelay?
  cases s.engine.schedule.nextDue? with
  | none =>
    rw [Option.map_none, ite_self]
    exact (Front.arm_nil _).symm
  | some dueAt =>
    simp only
    split
    · exact s.note_fullJob _
    · exact (Front.arm_nil _).symm

@[simp] theorem requestScheduleWrite_front (s : System) :
    s.requestScheduleWrite.front = s.front := s.requestScheduleWrite_within.front (by decide)

@[simp] theorem enqueueFull_front (s : System) (package : String) (lastBackup : Int) :
    (s.enqueueFull package lastBackup).front = s.front :=
  (s.enqueueFull_within package lastBackup).front (by decide)

@[simp] theorem deferFull_front (s : System) (package : String) (lastBackup dueAt : Int) :
    (s.deferFull package lastBackup dueAt).front = s.front :=
  (s.deferFull_within package lastBackup dueAt).front (by decide)

@[simp] theorem clearRunningFull_front (s : System) (token : Option OpToken) :
    (s.clearRunningFull token).front = s.front :=
  (s.clearRunningFull_within token).front (by decide)

@[simp] theorem recordProcessed_front (s : System) (package : String) :
    (s.recordProcessed package).front = s.front :=
  (s.recordProcessed_within package).front (by decide)

@[simp] theorem closeDrained_front (s : System) (drained : Option Drained) (success : Bool) :
    (s.closeDrained drained success).front = s.front :=
  (s.closeDrained_within drained success).front (by decide)

@[simp] theorem setInitPending_front (s : System) (pending : Bool) (name folderName : String) :
    (s.setInitPending pending name folderName).front = s.front :=
  (s.setInitPending_within pending name folderName).front (by decide)

@[simp] theorem retryInit_front (s : System) (transport : String) :
    (s.retryInit transport).front = s.front := (s.retryInit_within transport).front (by decide)

@[simp] theorem heedInit_front (s : System) (t : Task) : (s.heedInit t).front = s.front :=
  (s.heedInit_within t).front (by decide)

@[simp] theorem writeMetadata_front (s : System) (transport : String) :
    (s.writeMetadata transport).front = s.front :=
  (s.writeMetadata_within transport).front (by decide)

@[simp] theorem storeDataset_front (s : System) (transport : String) :
    (s.storeDataset transport).front = s.front :=
  (s.storeDataset_within transport).front (by decide)

@[simp] theorem resetBackupState_front (s : System) (transport : String) :
    (s.resetBackupState transport).2.front = s.front :=
  (s.resetBackupState_within transport).front (by decide)

/-- Whatever a transport answers, the front stays as it is. -/
@[simp] theorem answer_front (s : System) (transport : String) (call : TransportCall) :
    { s with device := (s.device.answer transport call).2 }.front = s.front := rfl

/-- An agent is unbound, whether its process is killed or not. -/
theorem tearDown_front (s : System) (p : Package) :
    (s.tearDown p).front = s.front.unbind p.name := by
  have hunbound := s.note_unbind_front p.name
  unfold tearDown
  simp only
  split
  · rw [note_front _ rfl rfl rfl, hunbound]
  · exact hunbound

/-! ## Winding down -/

@[simp] theorem drawnRetry_front (s : System) (t : Task) : (s.drawnRetry t).front = s.front :=
  (s.drawnRetry_within t).front (by decide)

/-- A key-value pass that announced its end gives the rest back, and may arm its own job. -/
@[simp] theorem closeKeyValue_front (s : System) (t : Task) (observer : Option String)
    (status : Status) : (s.closeKeyValue t observer status).front = s.front.drop t.number := by
  have harm : ∀ s : System,
      (if status = .success ∨ status = .cancelled then s else s.scheduleKeyValueJob).front =
        s.front := by
    intro s
    split
    · rfl
    · exact s.scheduleKeyValueJob_front
  simp only [closeKeyValue, dropTask_front, dispose_front, releaseWake_front, harm, dropToken_front,
    tellFinished_front]

@[simp] theorem endPlain_front (s : System) (t : Task) :
    (s.endPlain t).front = s.front.drop t.number := by
  simp only [endPlain, dropTask_front, dispose_front, releaseWake_front]

@[simp] theorem endRestore_front (s : System) (t : Task) (order : RestoreOrder) (started : Bool) :
    (s.endRestore t order started).front = s.front.drop t.number := by
  have hdatasets : ∀ s : System, ∀ datasets : Datasets,
      (if started && order.recordAncestral then (s.setDatasets datasets).2 else s).front =
        s.front := by
    intro s datasets
    split <;> rfl
  unfold endRestore
  cases order.installToken <;>
    simp only [dropTask_front, post_front, dispose_front, releaseWake_front,
      @note_front _ (.installed _ _) rfl rfl rfl, hdatasets]

end System

end Holdfast
