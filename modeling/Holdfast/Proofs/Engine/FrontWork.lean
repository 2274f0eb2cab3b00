import Holdfast.Proofs.Engine.Front

/-!
# What a step of a task does to the front

- `Front.quit`: what becomes of the visit in which a task is, when it comes to nothing or to its
  end;
- `Front.Turn`: what a step of a task can do, one constructor per way in which a task can go on or
  end;
- `System.stepTask_turn_front`: **every step of a task is of this kind.** In particular the host is
  asked for an agent only by the task whose turn it is.
-/

namespace Holdfast

namespace Stage

/-- The ticket with which a task stands in the line of binds. -/
def ticket? : Stage → Option Nat
  | .queued _ ticket | .binding _ ticket => some ticket
  | .opening | .choosing | .prepared _ _ | .starting _ _ | .working _ _ | .calling _ | .closing _
  | .leaving | .fallen => none

/-- The visit in which a task has its agent, from the return of the bind to the end of the work. -/
def agent? : Stage → Option Visit
  | .prepared v _ | .starting v _ | .working v _ => some v
  | .opening | .choosing | .queued _ _ | .binding _ _ | .calling _ | .closing _ | .leaving
  | .fallen => none

/-- Whether a task is in no visit. -/
def isApart : Stage → Bool
  | .opening | .choosing | .calling _ | .closing _ | .leaving | .fallen => true
  | .queued _ _ | .binding _ _ | .prepared _ _ | .starting _ _ | .working _ _ => false

variable {stage : Stage}

theorem ticket?_of_isApart (h : stage.isApart = true) : stage.ticket? = none := by
  cases stage <;> first | rfl | cases h

theorem agent?_of_isApart (h : stage.isApart = true) : stage.agent? = none := by
  cases stage <;> first | rfl | cases h

/-- A task that has its agent has no ticket any more. -/
theorem ticket?_of_agent? {v : Visit} (h : stage.agent? = some v) : stage.ticket? = none := by
  cases stage <;> first | rfl | cases h

theorem isApart_of_agent? {v : Visit} (h : stage.agent? = some v) : stage.isApart = false := by
  cases stage <;> first | rfl | cases h

end Stage

/-- Whether passes of a kind have agents brought up. -/
def Pass.Kind.visits : Kind → Bool
  | .keyValue | .full | .restore => true
  | .wipe | .clearData => false

namespace Front

/-- A task is done with the visit in which it is: the host has refused it, the agent did not
connect, or its work is over. -/
def quit (f : Front) : Stage → Front
  | .queued v _ => (f.ask v).leave
  | .binding _ _ => f.leave
  | .prepared v _ | .starting v _ | .working v _ => f.unbind v.package.name
  | .opening | .choosing | .calling _ | .closing _ | .leaving | .fallen => f

theorem quit_apart (f : Front) {stage : Stage} (h : stage.isApart = true) : f.quit stage = f := by
  cases stage <;> first | rfl | cases h

/-- A task that has its agent gives it back. -/
theorem quit_agent (f : Front) {stage : Stage} {v : Visit} (h : stage.agent? = some v) :
    f.quit stage = f.unbind v.package.name := by
  cases stage <;> cases h <;> rfl

theorem quit_line (f : Front) (stage : Stage) :
    (f.quit stage).line = if stage.ticket?.isSome then f.line.tail else f.line := by
  cases stage <;> rfl

theorem quit_next (f : Front) (stage : Stage) : (f.quit stage).nextTicket = f.nextTicket := by
  cases stage <;> rfl

theorem quit_places (f : Front) (stage : Stage) : (f.quit stage).places = f.places := by
  cases stage <;> rfl

theorem quit_delays (f : Front) (stage : Stage) : (f.quit stage).delays = f.delays := by
  cases stage <;> rfl

/-- What a step of a task does, when `due` is handed out at the end of a scheduled full backup. -/
inductive Turn (f : Front) (p : Place) (due : List Nat) : Front → Prop where
  /-- The task lines up for the agent of a package. -/
  | joins (v : Visit) :
    p.stage.isApart = true → p.kind.visits = true →
    Turn f p due (f.join.stand { p with stage := .queued v f.nextTicket })
  /-- The host is asked for the agent and accepts. -/
  | asks {v : Visit} {ticket : Nat} :
    p.stage = .queued v ticket →
    Turn f p due ((f.ask v).stand { p with stage := .binding v ticket })
  /-- The agent has connected and is returned to the task. -/
  | meets {v : Visit} {ticket : Nat} (token : OpToken) :
    p.stage = .binding v ticket →
    Turn f p due (f.leave.stand { p with stage := .prepared v token })
  /-- The task goes on with its agent. -/
  | works {v : Visit} {stage : Stage} :
    p.stage.agent? = some v → stage.agent? = some v → Turn f p due (f.stand { p with stage })
  /-- The task goes on without an agent. -/
  | goes {stage : Stage} :
    stage.isApart = true → Turn f p due ((f.quit p.stage).stand { p with stage })
  /-- A task that is no scheduled full backup ends. -/
  | ends : p.kind ≠ .full → Turn f p due ((f.quit p.stage).drop p.number)
  /-- A scheduled full backup ends, and the job is armed. -/
  | leaves : p.kind = .full → p.stage = .leaving → Turn f p due ((f.arm due).drop p.number)
  /-- The task has nothing to do. -/
  | stays : p.stage.isApart = true → Turn f p due f

/-- A step of a task has led to a system. -/
def Reaches (f : Front) (p : Place) (s : System) : Prop := f.Turn p s.nextDelay?.toList s.front

end Front

namespace System

open Front (Turn Reaches)

variable {f : Front} {p : Place} {s : System} {t t' : Task}

/-- A step is on its way: the task is in no visit any more. -/
structure Apart (f : Front) (p : Place) (s : System) (t : Task) : Prop where
  front : s.front = f.quit p.stage
  number : t.number = p.number
  kind : t.job.kind = p.kind

namespace Apart

theorem start (h : t.stage.isApart = true) : Apart s.front t.place s t :=
  ⟨(s.front.quit_apart h).symm, rfl, rfl⟩

theorem congr (h : Apart f p s t) {s' : System} (hsame : s'.front = s.front) : Apart f p s' t :=
  ⟨hsame.trans h.front, h.number, h.kind⟩

/-- The task is changed where it does not count. -/
theorem change (h : Apart f p s t) (hnumber : t'.number = t.number)
    (hkind : t'.job.kind = t.job.kind) : Apart f p s t' :=
  ⟨h.front, hnumber.trans h.number, hkind.trans h.kind⟩

theorem place (h : Apart f p s t) (stage : Stage) :
    ({ t.place with stage } : Place) = { p with stage } := by
  rw [Task.place, h.number, h.kind]

theorem moveTo (h : Apart f p s t) {stage : Stage} (hstage : stage.isApart = true) :
    Reaches f p (s.moveTo t stage) := by
  rw [Reaches, moveTo_front, h.place, h.front]
  exact .goes hstage

theorem call (h : Apart f p s t) (c : TransportCall) : Reaches f p (s.call t c) := by
  rw [Reaches, call_front, h.place, h.front]
  exact .goes rfl

/-- A task that is no scheduled full backup ends. -/
theorem quit (h : Apart f p s t) (hkind : t.job.kind ≠ .full) {s' : System}
    (hend : s'.front = s.front.drop t.number) : Reaches f p s' := by
  rw [Reaches, hend, h.front, h.number]
  exact .ends (h.kind ▸ hkind)

/-- A scheduled full backup is done with its package, or breaks down. -/
theorem endFull (h : Apart f p s t) (package : String) (lastBackup : Int) (status : Status) :
    Reaches f p (s.endFull t package lastBackup status) := by
  refine endFull_elim ?succeeds ?retries ?falls
  case succeeds =>
    refine fun _ => Apart.moveTo (h.congr ?_) rfl
    rw [enqueueFull_front, heedInit_front]
  case retries =>
    refine fun _ dueAt => Apart.moveTo (h.congr ?_) rfl
    rw [deferFull_front, drawnRetry_front]
  case falls =>
    intro _
    have hfallen : Apart f p ((s.drawnRetry t).dispose t.lease) { t with lease := none } := by
      refine Apart.change (h.congr ?_) rfl rfl
      rw [dispose_front, drawnRetry_front]
    exact hfallen.moveTo rfl

/-- A key-value pass is done with its packages. -/
theorem endKeyValue (h : Apart f p s t) (drained : Option Drained) (status : Status) :
    Reaches f p (s.endKeyValue t drained status) := by
  unfold System.endKeyValue
  refine Apart.moveTo (h.congr ?_) rfl
  rw [post_front, closeDrained_front, heedInit_front]

/-- A package of a pass is done, and with it the pass if that cannot go on. -/
theorem packageDone (h : Apart f p s t) (drained : Option Drained) (observer : Option String)
    (package : String) (status : Status) :
    Reaches f p (s.packageDone t drained observer package status) := by
  have htold : Apart f p (s.tellResult observer package status) t :=
    h.congr (s.tellResult_front _ _ _)
  unfold System.packageDone
  simp only
  split
  · exact htold.endKeyValue _ _
  · exact htold.moveTo rfl

/-- The agent of a package did not do its work. -/
theorem visitFailed (h : Apart f p s t) (v : Visit) (status : Status) :
    Reaches f p (s.visitFailed t v status) := by
  unfold System.visitFailed
  cases hjob : t.job with
  | keyValue drained keyValue full observer nonIncremental =>
    exact h.packageDone _ _ _ _
  | full package lastBackup => exact h.endFull _ _ _
  | wipe | clearData | restore => exact h.moveTo rfl

end Apart

/-! ## Visits -/

/-- A task lines up for an agent. -/
theorem visit_front (s : System) (t : Task) (v : Visit) :
    (s.visit t v).front =
      s.front.join.stand { t.place with stage := .queued v s.front.nextTicket } := by
  unfold visit
  simp only [moveTo_front]
  rfl

/-- A task that is in no visit begins one. -/
theorem Apart.visit (h : Apart f p s t) (hstage : p.stage.isApart = true)
    (hkind : p.kind.visits = true) (v : Visit) : Reaches f p (s.visit t v) := by
  have hfront : s.front = f := h.front.trans (f.quit_apart hstage)
  rw [Reaches, visit_front, h.place, hfront]
  exact .joins v hstage hkind

/-- The bind whose turn it is ends. -/
theorem leave_front (s : System) {binder : Binder} (h : s.engine.binder.Keeps binder) :
    (s.onEngine fun e => { e with binder := binder.leave }).front = s.front.leave := by
  simp only [front, onEngine, Binder.leave, Front.leave, h.line, h.next]

theorem askHost_turn_front (s : System) {t : Task} {v : Visit} {ticket : Nat}
    (hstage : t.stage = .queued v ticket) : Reaches s.front t.place (s.askHost t v ticket) := by
  have hasked := s.note_bind v
  unfold askHost
  simp only
  generalize s.note (.agent v.package.name (.bind v.mode)) = s₁ at hasked ⊢
  have hline : s₁.engine.binder.Keeps (hostReacts (s₁.device.behaviour v.package.name)
      v.package.name (s₁.engine.binder.await v.package.name)).2 :=
    .trans (Binder.await_keeps _ _) (Binder.hostReacts_keeps _ _ _)
  generalize hostReacts _ _ _ = answer at hline ⊢
  obtain ⟨accepted, binder⟩ := answer
  simp only at hline ⊢
  have hbinder := s₁.withBinder_front hline
  have hleft := s₁.leave_front hline
  have hasks : ∀ due, s.front.Turn t.place due
      (((s₁.onEngine fun e => { e with binder }).front).stand
        { t.place with stage := .binding v ticket }) := by
    intro due
    rw [hbinder, hasked]
    exact .asks hstage
  split
  · rw [Reaches, moveTo_front]
    split <;> exact hasks _
  · refine Apart.visitFailed ⟨?_, rfl, rfl⟩ v _
    rw [hleft, hasked, show t.place.stage = .queued v ticket from hstage]
    rfl

/-- The wait for an agent is registered under a token that the device has drawn. -/
theorem prepare_front (s : System) (t : Task) (v : Visit) :
    (s.prepare t v).front =
      s.front.stand { t.place with stage := .prepared v s.freshToken.1 } := by
  unfold prepare
  simp only
  rw [moveTo_front]
  exact congrArg (fun f : Front => f.stand _) s.freshToken_front

theorem meetAgent_turn_front (s : System) {t : Task} {v : Visit} {ticket : Nat}
    (hstage : t.stage = .binding v ticket) : Reaches s.front t.place (s.meetAgent t v) := by
  have hleft : (s.onEngine fun e => { e with binder := e.binder.leave }).front = s.front.leave :=
    rfl
  have hstage' : t.place.stage = .binding v ticket := hstage
  refine meetAgent_elim ?prepares ?fails
  case prepares =>
    intro _
    rw [Reaches, prepare_front, hleft]
    exact .meets _ hstage'
  case fails =>
    intro left _ hleft'
    have hsame : left.front = s.front.leave := by
      rcases hleft' with rfl | rfl
      · exact hleft
      · exact (note_front _ rfl rfl rfl).trans hleft
    refine Apart.visitFailed ⟨?_, rfl, rfl⟩ v _
    rw [hsame, hstage']
    rfl

/-- A task that was canceled waits for its agent without having it start. -/
theorem heedCancel_turn_front (hs : s.Distinct) {t : Task} {v : Visit} {token : OpToken}
    (hstage : t.stage = .prepared v token) :
    Reaches s.front t.place (s.heedCancel t v token) := by
  have hagent : t.place.stage.agent? = some v := congrArg Stage.agent? hstage
  unfold heedCancel Reaches
  split
  · rw [moveTo_front, cancelOperation_front hs]
    exact .works hagent rfl
  · rw [moveTo_front]
    exact .works hagent rfl

/-- What an agent is told to do is neither a bind nor an unbind. -/
theorem giveWork_turn_front (s : System) {t : Task} {v : Visit} {token : OpToken}
    (hstage : t.stage = .starting v token) : Reaches s.front t.place (s.giveWork t v token) := by
  have hnote : (s.note (.agent v.package.name (workNotice t v.mode))).front = s.front := by
    refine s.note_front ?_ ?_ rfl
    all_goals
      unfold workNotice
      split <;> rfl
  unfold giveWork Reaches
  simp only
  rw [moveTo_front]
  refine congrArg (fun f : Front => f.stand _) hnote ▸ ?_
  exact .works (congrArg Stage.agent? hstage) rfl

theorem collectWork_turn_front (s : System) {t : Task} {v : Visit} {token : OpToken}
    (hstage : t.stage = .working v token) :
    Reaches s.front t.place (s.collectWork t v token) := by
  have hapart : Apart s.front t.place (s.collected v token) { t with agentToken := none } := by
    refine ⟨?_, rfl, rfl⟩
    rw [show t.place.stage = .working v token from hstage]
    exact tearDown_front _ _
  refine collectWork_elim ?offers ?offersFull ?restores ?fails
  case offers => exact fun _ _ _ _ _ _ _ => hapart.call _
  case offersFull => exact fun _ _ _ => hapart.call _
  case restores => exact fun _ _ => hapart.moveTo rfl
  case fails => exact hapart.visitFailed v _

/-! ## Stages -/

theorem openTask_turn_front (s : System) {t : Task} (hstage : t.stage = .opening) :
    Reaches s.front t.place (s.openTask t) := by
  have happ : t.stage.isApart = true := by rw [hstage]; rfl
  have hstart : Apart s.front t.place s t := .start happ
  have hwoken : Apart s.front t.place s.acquireWake t := hstart.congr rfl
  unfold openTask
  cases hjob : t.job with
  | keyValue drained keyValue full observer nonIncremental =>
    simp only
    split
    · exact hwoken.endKeyValue _ _
    · exact hwoken.moveTo rfl
  | full package lastBackup => exact hstart.visit happ (by simp [Task.place, hjob]; rfl) _
  | wipe names observer overall => exact hwoken.moveTo rfl
  | clearData package => exact hwoken.call _
  | restore order rest => exact hwoken.call _

theorem chooseKeyValue_turn_front (s : System) {t : Task} (hstage : t.stage = .choosing)
    {drained : Option Drained} {keyValue full : List String} {observer : Option String}
    {nonIncremental : Bool}
    (hjob : t.job = .keyValue drained keyValue full observer nonIncremental) :
    Reaches s.front t.place (s.chooseKeyValue t drained keyValue full observer nonIncremental) := by
  have happ : t.stage.isApart = true := by rw [hstage]; rfl
  have hkind : t.job.kind = .keyValue := by rw [hjob]; rfl
  have hvisits : t.place.kind.visits = true := by
    show t.job.kind.visits = true
    rw [hkind]
    rfl
  have hstart : Apart s.front t.place s t := .start happ
  -- the task with other packages left
  have hleft : ∀ keyValue full, Apart s.front t.place s
      { t with job := .keyValue drained keyValue full observer nonIncremental } :=
    fun keyValue full => hstart.change rfl hkind.symm
  refine chooseKeyValue_elim ?commits ?breaksOff ?offers ?visits ?skips
  case commits => exact hstart.call _
  case breaksOff => exact fun _ => hstart.endKeyValue _ _
  case offers => exact fun _ _ => (hleft _ _).call _
  case visits => exact fun _ _ v => (hleft _ _).visit happ hvisits v
  case skips => exact fun _ _ _ _ _ => (hleft _ _).packageDone _ _ _ _

theorem chooseInit_turn_front (s : System) {t : Task} (hstage : t.stage = .choosing)
    {names : List String} {observer : Option String} {overall : Status}
    (hjob : t.job = .wipe names observer overall) :
    Reaches s.front t.place (s.chooseInit t names observer overall) := by
  have hkind : t.job.kind = .wipe := by rw [hjob]; rfl
  have hstart : Apart s.front t.place s t := .start (by rw [hstage]; rfl)
  have hleft : ∀ rest overall lease, Apart s.front t.place s
      { t with job := .wipe rest observer overall, lease } :=
    fun rest overall lease => hstart.change rfl hkind.symm
  clear hjob
  refine chooseInit_elim ?ends ?skips ?wipes
  case ends =>
    exact Apart.quit (hstart.congr (s.tellFinished_front _ _)) (by simp [hkind])
      (endPlain_front _ _)
  case skips =>
    exact fun _ _ _ => Apart.moveTo ((hleft _ _ _).congr (s.tellResult_front _ _ _)) rfl
  case wipes => exact fun _ _ => Apart.call ((hleft _ _ _).congr rfl) _

theorem chooseRestore_turn_front (s : System) {t : Task} (hstage : t.stage = .choosing)
    {order : RestoreOrder} {rest : List String} (hjob : t.job = .restore order rest) :
    Reaches s.front t.place (s.chooseRestore t order rest) := by
  have happ : t.stage.isApart = true := by rw [hstage]; rfl
  have hkind : t.job.kind = .restore := by rw [hjob]; rfl
  have hvisits : t.place.kind.visits = true := by
    show t.job.kind.visits = true
    rw [hkind]
    rfl
  have hstart : Apart s.front t.place s t := .start happ
  have hleft : ∀ rest, Apart s.front t.place s { t with job := .restore order rest } :=
    fun rest => hstart.change rfl hkind.symm
  refine chooseRestore_elim ?commits ?visits ?skips
  case commits => exact hstart.call _
  case visits => exact fun _ v => (hleft _).visit happ hvisits v
  case skips => exact fun _ => (hleft _).moveTo rfl

theorem choose_turn_front (s : System) {t : Task} (hstage : t.stage = .choosing) :
    Reaches s.front t.place (s.choose t) := by
  have hstart : Apart s.front t.place s t := .start (by rw [hstage]; rfl)
  unfold choose
  cases hjob : t.job with
  | keyValue drained keyValue full observer nonIncremental =>
    exact s.chooseKeyValue_turn_front hstage hjob
  | full package lastBackup => exact hstart.endFull _ _ _
  | wipe names observer overall => exact s.chooseInit_turn_front hstage hjob
  | clearData package => exact hstart.quit (by simp [hjob, Job.kind]) (endPlain_front _ _)
  | restore order rest => exact s.chooseRestore_turn_front hstage hjob

/-! ## Answers of transports -/

/-- The answer of a transport is taken into account. -/
theorem Apart.heed (h : Apart f p s t) (reply : Device.Reply) : Apart f p s (t.heed reply) := by
  unfold Task.heed
  split <;> exact h.change rfl rfl

theorem Apart.initDone (h : Apart f p s t) (hkind : t.job.kind = .wipe) (rest : List String)
    (observer : Option String) (overall : Status) (reply : Device.Reply) :
    Reaches f p (s.initDone t rest observer overall reply) := by
  -- the last steps leave everything else as it is
  have hlast : ∀ (s' : System) (result overall : Status), s'.front = s.front →
      Reaches f p (((s'.tellResult observer t.transport result).dispose t.lease).moveTo
        { t with job := .wipe rest observer overall, lease := none } .choosing) := by
    intro s' result overall hsame
    have hleft : Apart f p s { t with job := .wipe rest observer overall, lease := none } :=
      h.change rfl hkind.symm
    refine Apart.moveTo (hleft.congr ?_) rfl
    rw [dispose_front, tellResult_front, hsame]
  unfold System.initDone
  simp only
  split
  · have hreset := s.resetBackupState_front t.transport
    generalize s.resetBackupState t.transport = answer at hreset ⊢
    obtain ⟨outcome, s₁⟩ := answer
    dsimp only at hreset ⊢
    refine hlast _ _ _ ?_
    split
    · rw [setInitPending_front, hreset]
    · exact hreset
  · exact hlast _ _ _ (s.retryInit_front _)

theorem Apart.replyKeyValue (h : Apart f p s t) (drained : Option Drained)
    (observer : Option String) (c : TransportCall) (reply : Device.Reply) :
    Reaches f p (s.replyKeyValue t drained observer c reply) := by
  have hheeded := h.heed reply
  refine replyKeyValue_elim ?done ?doneFull ?asks ?commits
  case done =>
    intro left package hleft
    refine Apart.packageDone (hheeded.congr ?_) _ _ _ _
    rcases hleft with rfl | rfl | rfl
    · rfl
    · exact s.writeMetadata_front _
    · exact s.recordProcessed_front _
  case doneFull =>
    intro package _
    refine Apart.packageDone (hheeded.congr ?_) _ _ _ _
    rw [enqueueFull_front, recordProcessed_front]
  case asks => exact fun _ => hheeded.call _
  case commits => exact fun _ => hheeded.endKeyValue _ _

theorem Apart.replyFull (h : Apart f p s t) (package : String) (lastBackup : Int)
    (c : TransportCall) (reply : Device.Reply) :
    Reaches f p (s.replyFull t package lastBackup c reply) := by
  have hheeded := h.heed reply
  refine replyFull_elim ?commits ?fails ?asks ?ends
  case commits => exact Apart.call (hheeded.congr (s.recordProcessed_front _)) _
  case fails => exact hheeded.endFull _ _ _
  case asks => exact fun _ => hheeded.call _
  case ends => exact fun _ => hheeded.endFull _ _ _

theorem takeReply_turn_front (s : System) {t : Task} {c : TransportCall}
    (hstage : t.stage = .calling c) : Reaches s.front t.place (s.takeReply t c) := by
  have hstart : Apart s.front t.place (s.answered t c) t :=
    .congr (.start (by rw [hstage]; rfl)) (s.answer_front _ _)
  have hend : ∀ order rest started, t.job = .restore order rest →
      Reaches s.front t.place ((s.answered t c).endRestore t order started) :=
    fun _ _ _ hjob => hstart.quit (by simp [hjob, Job.kind]) (endRestore_front _ _ _ _)
  refine takeReply_elim ?keyValue ?full ?wipeGoesOn ?wiped ?clearGoesOn ?cleared ?restoreGoesOn
    ?restoreFails ?restored
  case keyValue =>
    exact fun _ _ _ _ _ _ => hstart.replyKeyValue _ _ _ _
  case full => exact fun _ _ _ => hstart.replyFull _ _ _ _
  case wipeGoesOn => exact fun _ _ _ _ _ => hstart.call _
  case wiped => exact fun _ _ _ hjob _ => hstart.initDone (by rw [hjob]; rfl) _ _ _ _
  case clearGoesOn => exact fun _ _ => hstart.call _
  case cleared =>
    exact fun _ hjob => hstart.quit (by simp [hjob, Job.kind]) (endPlain_front _ _)
  case restoreGoesOn => exact fun _ _ _ => hstart.moveTo rfl
  case restoreFails => exact fun _ _ _ _ hjob _ _ => hend _ _ _ hjob
  case restored => exact fun _ _ hjob _ => hend _ _ _ hjob

/-- A pass that asked for the dataset it wrote is done. -/
theorem takeDataset_turn_front (s : System) {t : Task}
    (hstage : t.stage = .calling .currentRestoreSet) :
    Reaches s.front t.place (s.takeDataset t) := by
  have hstored : Apart s.front t.place (s.storeDataset t.transport) t :=
    .congr (.start (by rw [hstage]; rfl)) (s.storeDataset_front _)
  unfold takeDataset
  cases hjob : t.job with
  | keyValue => exact hstored.endKeyValue _ _
  | full => exact hstored.endFull _ _ _
  | wipe | clearData | restore => exact s.takeReply_turn_front hstage

/-- A key-value pass ends, and a scheduled full backup gives up its place. -/
theorem closeTask_turn_front (s : System) {t : Task} {status : Status}
    (hstage : t.stage = .closing status) : Reaches s.front t.place (s.closeTask t status) := by
  have hstart : Apart s.front t.place s t := .start (by rw [hstage]; rfl)
  unfold closeTask
  cases hjob : t.job with
  | keyValue => exact hstart.quit (by simp [hjob, Job.kind]) (closeKeyValue_front _ _ _ _)
  | full => exact Apart.moveTo (hstart.congr (s.clearRunningFull_front _)) rfl
  | wipe | clearData | restore => exact .stays (congrArg Stage.isApart hstage)

/-- A scheduled full backup ends, and the job is armed for the first package of the schedule as it
is then. -/
theorem leave_task_front (s : System) {t : Task} {p : Package} {lastBackup : Int}
    (hjob : t.job = .full p lastBackup) :
    (s.leave t).front = (s.front.arm (s.leave t).nextDelay?.toList).drop t.number := by
  -- nothing but the job comes after the schedule
  have hlast : ∀ s : System,
      (((s.scheduleNextFullJob 0).dispose t.lease).dropTask t.number).nextDelay? =
        s.nextDelay? := by
    intro s
    have harmed : (s.scheduleNextFullJob 0).nextDelay? = s.nextDelay? := by
      rcases s.scheduleNextFullJob_cases 0 with hsame | ⟨delay, hnoted⟩
      · rw [hsame]
      · rw [hnoted]
        rfl
    cases t.lease <;> exact harmed
  have hnone : ∀ delays : List Nat, delays.map (max 0) = delays := by
    intro delays
    rw [List.map_congr_left fun delay _ => Nat.zero_max delay, List.map_id']
  simp only [leave, hjob, hlast, dropTask_front, dispose_front, scheduleNextFullJob_front, hnone,
    releaseWake_front, dropToken_front]

theorem leave_turn_front (s : System) {t : Task} (hstage : t.stage = .leaving) :
    Reaches s.front t.place (s.leave t) := by
  cases hjob : t.job with
  | full package lastBackup =>
    rw [Reaches, s.leave_task_front hjob]
    exact .leaves (by rw [Task.place, hjob]; rfl) hstage
  | keyValue | wipe | clearData | restore =>
    simp only [Reaches, leave, hjob]
    exact .stays (congrArg Stage.isApart hstage)

/-- **Every step of a task is one of the turns.** -/
theorem stepTask_turn_front (hs : s.Distinct) (t : Task) :
    Reaches s.front t.place (s.stepTask t) := by
  refine stepTask_elim ?opening ?choosing ?queued ?binding ?prepared ?starting ?working ?asking
    ?calling ?closing ?leaving ?fallen
  case opening => exact s.openTask_turn_front
  case choosing => exact s.choose_turn_front
  case queued => exact fun _ _ => s.askHost_turn_front
  case binding => exact fun _ _ => s.meetAgent_turn_front
  case prepared => exact fun _ _ => heedCancel_turn_front hs
  case starting => exact fun _ _ => s.giveWork_turn_front
  case working => exact fun _ _ => s.collectWork_turn_front
  case asking => exact s.takeDataset_turn_front
  case calling => exact fun _ hstage _ => s.takeReply_turn_front hstage
  case closing => exact fun _ => s.closeTask_turn_front
  case leaving => exact s.leave_turn_front
  case fallen => exact fun hstage => .stays (congrArg Stage.isApart hstage)

end System

end Holdfast
