import Holdfast.Proofs.Engine.Roster
import Holdfast.Proofs.Engine.Errands

/-!
# What a step of a task does to the roster

- `Task.Continues`: a task goes on as the pass it was, canceled or not;
- `Roster.Settles`: what becomes of a transport that a wipe is done with. It is gone, or it was
  wiped and its mark is taken away, or it is wiped later;
- `Roster.Turn`: what a step can do, one constructor per way in which a task can go on or end;
- `System.stepTask_turn_roster`: **every step of a task is of this kind.** In particular an agent is
  told to back up only in the step after the one in which the task was found not to be canceled.

The wait for an agent is registered, the cancel is looked for and the agent is started in three
steps. A cancel can fall between any two of them.
-/

namespace Holdfast

open OperationTable (Tells)

/-! ## Tables in which a few tokens are touched -/

/-- Only some tokens may have changed in a table. -/
def OperationTable.Spares {κ : Type} (t : OperationTable κ) (touched : List OpToken)
    (t' : OperationTable κ) : Prop :=
  ∀ token, token ∉ touched → t'.get? token = t.get? token

namespace OperationTable.Spares

variable {κ : Type} {t t' t'' : OperationTable κ} {touched : List OpToken} {token : OpToken}

theorem refl (t : OperationTable κ) (touched : List OpToken) : t.Spares touched t :=
  fun _ _ => rfl

theorem trans (h : t.Spares touched t') (h' : t'.Spares touched t'') : t.Spares touched t'' :=
  fun token hother => (h' token hother).trans (h token hother)

/-- An act on one token leaves the others alone. -/
theorem of_tells {now : Option (Operation κ)} {said : List (OpEvent κ)}
    (h : Tells t token now said t') (hmem : token ∈ touched) : t.Spares touched t' :=
  fun other hother => h.others other fun heq => hother (heq ▸ hmem)

/-- An agent reports. -/
theorem complete (result : Int) (hmem : token ∈ touched) :
    t.Spares touched (t.complete token result) :=
  of_tells (t.complete_tells token result) hmem

/-- A token is canceled. -/
theorem cancel (hmem : token ∈ touched) : t.Spares touched (t.cancel token).2 :=
  of_tells (t.cancel_tells token).2 hmem

/-- What came of a wait is taken. -/
theorem wait (hmem : token ∈ touched) : t.Spares touched (t.wait token).2 := by
  obtain ⟨now, htells⟩ := t.wait_tells token
  exact of_tells htells hmem

/-- A wait is registered. One that nobody can wait for is refused, and then nothing is touched. -/
theorem register (kind : OpKind) (watcher : κ) (timeout : Nat) (hmem : token ∈ touched) :
    t.Spares touched (t.register token kind watcher timeout) := by
  cases hkind : kind.isWaitable with
  | true =>
    obtain ⟨op, -, -, htells⟩ := t.register_tells token hkind watcher timeout
    exact of_tells htells hmem
  | false =>
    rw [t.register_refused token hkind]
    exact refl t touched

end OperationTable.Spares

/-- An agent that was given work reports under its own token only. -/
theorem System.agentReacts_spares (behaviour : Device.Behaviour) {token : OpToken}
    {touched : List OpToken} (t : OperationTable Watcher) (hmem : token ∈ touched) :
    t.Spares touched (agentReacts behaviour token t) := by
  cases behaviour with
  | normal | refuse | disconnect | wrong => exact .complete 0 hmem
  | double => exact .trans (.complete 0 hmem) (.complete 1 hmem)
  | silent | unreachable => exact .refl t touched

/-! ## Tasks that go on -/

/-- The token under which an agent works, or will. -/
def Stage.worker? : Stage → Option OpToken
  | .prepared _ token | .starting _ token | .working _ token => some token
  | .opening | .choosing | .queued _ _ | .binding _ _ | .calling _ | .closing _ | .leaving
  | .fallen => none

namespace Task

/-- The tokens of agents that a task holds. -/
def holds (t : Task) : List OpToken := t.agentToken.toList ++ t.stage.worker?.toList

/-- A task goes on under its number and its token, canceled or not. -/
structure Continues (t t' : Task) : Prop where
  number : t'.number = t.number
  token : t'.token = t.token
  canceled : t'.canceled = t.canceled
  pass : t'.job.isPass = t.job.isPass

variable {t t' : Task}

theorem Continues.refl (t : Task) : t.Continues t := ⟨rfl, rfl, rfl, rfl⟩

/-- An answer may ask for a wipe; the task is the same one after it. -/
theorem heed_continues (t : Task) (reply : Device.Reply) : t.Continues (t.heed reply) := by
  unfold Task.heed
  split <;> exact ⟨rfl, rfl, rfl, rfl⟩

/-- A pass wipes nothing. -/
theorem wipes_of_pass (h : t.job.isPass = true) : t.wipes = [] := by
  unfold wipes
  cases hjob : t.job with
  | wipe rest observer overall =>
    rw [hjob] at h
    cases h
  | keyValue | full | clearData | restore => rfl

/-- A wipe that was not waiting for an answer has still the same transports to wipe. -/
theorem wipes_subset (h : ∀ call, t.stage ≠ .calling call) (stage : Stage) :
    t.wipes ⊆ ({ t with stage } : Task).wipes := by
  unfold wipes
  cases t.job with
  | wipe rest observer overall =>
    cases hstage : t.stage with
    | calling call => exact absurd hstage (h call)
    | _ =>
      cases stage with
      | calling call => exact List.subset_cons_self _ _
      | _ => exact List.Subset.refl _
  | keyValue | full | clearData | restore => exact List.nil_subset _

end Task

namespace Roster

/-! ## Steps -/

/-- A wipe is done with a transport. -/
inductive Settles (r : Roster) (name : String) : Roster → Prop where
  | gone : name ∉ r.registered → Settles r name r
  | wiped : Settles r name (r.unmark name)
  | later : Settles r name (r.delay [name])

/-- What a step of a task does to the roster, with the token that is issued in it. -/
inductive Turn (r : Roster) (t : Task) : Option OpToken → Roster → Prop where
  /-- Nothing happens. -/
  | stays : Turn r t none r
  /-- The task goes on. It may have waited for an agent and have set a timer. -/
  | goes {t' : Task} {ops : OperationTable Watcher} {k : Nat} :
    t.Continues t' → t'.holds ⊆ t.holds → t.wipes ⊆ t'.wipes → r.ops.Spares t.holds ops →
    Turn r t none ({ r with ops, nextNumber := r.nextNumber + k }.seat t')
  /-- The wait for an agent is registered. -/
  | prepares {t' : Task} {ops : OperationTable Watcher} {token : OpToken} :
    t.Continues t' → t'.holds ⊆ [token] → t.wipes ⊆ t'.wipes → r.ops.Spares [token] ops →
    Turn r t (some token) ({ r.issue with ops }.seat t')
  /-- A task that was canceled does not have its agent started. -/
  | heeds {t' : Task} {token : OpToken} :
    t.canceled = true → t.Continues t' → t'.holds ⊆ t.holds → t.wipes ⊆ t'.wipes → token ∈ t.holds →
    Turn r t none ((r.cancel token).seat t')
  /-- An agent gets its work. -/
  | starts {t' : Task} {ops : OperationTable Watcher} {handed : List (String × OpToken)}
      {worked : List Device.Notice} {v : Visit} {token : OpToken} :
    t.stage = .starting v token → t.Continues t' → t'.holds ⊆ t.holds → t.wipes ⊆ t'.wipes →
    r.ops.Spares t.holds ops → (∀ entry ∈ handed, entry ∈ r.handed ∨ entry.2 ∈ t.holds) →
    worked = r.worked ++
      [Device.Notice.agent v.package.name (System.workNotice t v.mode)].filter (·.isWork) →
    Turn r t none ({ r with ops, handed, worked }.seat t')
  /-- A wipe is done with one transport. -/
  | settles {t' : Task} {r' : Roster} {name : String} :
    t.Continues t' → t'.holds ⊆ t.holds → t.wipes ⊆ name :: t'.wipes → r.Settles name r' →
    Turn r t none (r'.seat t')
  /-- A pass is done with its packages. A transport that asked for it is marked for wiping. -/
  | closes {asked t' : Task} {ops : OperationTable Watcher} {k : Nat} :
    t.job.isPass = true → t.Continues t' → t'.holds ⊆ t.holds → r.ops.Spares t.holds ops →
    Turn r t none ((({ r with ops, nextNumber := r.nextNumber + k } : Roster).mind asked).seat t')
  /-- A pass is over. -/
  | departs : t.job.isPass = true → Turn r t none ((r.forget t.token).drop t.number)
  | quits : t.job.isPass = false → t.wipes = [] → Turn r t none (r.drop t.number)

end Roster

namespace System

open Roster (Turn)

variable {r : Roster} {s s' : System} {t t' : Task}

/-- A step is on its way: so far it may have waited for the agent of the task and have set a
timer. -/
structure Amid (r : Roster) (t : Task) (s : System) (t' : Task) : Prop where
  roster : ∃ ops k, r.ops.Spares t.holds ops ∧
    s.roster = { r with ops, nextNumber := r.nextNumber + k }
  continues : t.Continues t'
  agent : ∀ token, t'.agentToken = some token → token ∈ t.holds
  wipes : t.wipes ⊆ t'.wipes

namespace Amid

/-- Nothing has happened yet. -/
theorem start (s : System) (t : Task) : Amid s.roster t s t where
  roster := ⟨s.roster.ops, 0, .refl _ _, rfl⟩
  continues := .refl t
  agent token h := List.mem_append_left _ (by rw [h]; exact List.mem_singleton_self token)
  wipes := List.Subset.refl _

/-- Something else has happened. -/
theorem congr (h : Amid r t s t') (hsame : s'.roster = s.roster) : Amid r t s' t' :=
  ⟨hsame ▸ h.roster, h.continues, h.agent, h.wipes⟩

/-- A number has been handed out. -/
theorem count (h : Amid r t s t') (hcount : s'.roster = s.roster.count) : Amid r t s' t' := by
  obtain ⟨ops, k, hspares, hroster⟩ := h.roster
  refine ⟨⟨ops, k + 1, hspares, ?_⟩, h.continues, h.agent, h.wipes⟩
  rw [hcount, hroster]
  rfl

/-- The task is changed where it does not count. -/
theorem change (h : Amid r t s t') {t'' : Task} (hcontinues : t'.Continues t'')
    (hagent : t''.agentToken = t'.agentToken) (hwipes : t'.wipes ⊆ t''.wipes) :
    Amid r t s t'' where
  roster := h.roster
  continues :=
    ⟨hcontinues.number.trans h.continues.number, hcontinues.token.trans h.continues.token,
      hcontinues.canceled.trans h.continues.canceled, hcontinues.pass.trans h.continues.pass⟩
  agent := by
    rw [hagent]
    exact h.agent
  wipes := List.Subset.trans h.wipes hwipes

/-- A step of a pass is on its way: it has nothing to wipe. -/
theorem wipes_nil (h : Amid r t s t') (hpass : t'.job.isPass = true) : t.wipes = [] :=
  Task.wipes_of_pass (h.continues.pass ▸ hpass)

/-- The task moves to a stage at which no agent works. -/
theorem moveTo (h : Amid r t s t') {stage : Stage} (hidle : stage.worker? = none)
    (hwipes : t.wipes ⊆ ({ t' with stage } : Task).wipes) :
    Turn r t none (s.moveTo t' stage).roster := by
  obtain ⟨ops, k, hspares, hroster⟩ := h.roster
  rw [moveTo_roster, hroster]
  refine .goes ⟨h.continues.number, h.continues.token, h.continues.canceled, h.continues.pass⟩
    (fun token hmem => h.agent token ?_) hwipes hspares
  simpa [Task.holds, hidle] using hmem

/-- A task that was not waiting for an answer moves. -/
theorem moveOn (h : Amid r t s t') (hcalls : ∀ call, t'.stage ≠ .calling call) {stage : Stage}
    (hidle : stage.worker? = none) :
    Turn r t none (s.moveTo t' stage).roster :=
  h.moveTo hidle (List.Subset.trans h.wipes (Task.wipes_subset hcalls stage))

/-- A pass moves. -/
theorem movePass (h : Amid r t s t') (hpass : t'.job.isPass = true) {stage : Stage}
    (hidle : stage.worker? = none) :
    Turn r t none (s.moveTo t' stage).roster :=
  h.moveTo hidle (by rw [h.wipes_nil hpass]; exact List.nil_subset _)

theorem call (h : Amid r t s t') {c : TransportCall}
    (hwipes : t.wipes ⊆ ({ t' with stage := .calling c } : Task).wipes) :
    Turn r t none (s.call t' c).roster :=
  (h.congr (s.note_roster rfl)).moveTo rfl hwipes

/-- A pass makes a call. -/
theorem callPass (h : Amid r t s t') (hpass : t'.job.isPass = true) (c : TransportCall) :
    Turn r t none (s.call t' c).roster :=
  h.call (by rw [h.wipes_nil hpass]; exact List.nil_subset _)

/-- A pass is done with its packages. -/
theorem close (h : Amid r t s t') (hpass : t'.job.isPass = true) {t'' : Task}
    (hcontinues : t'.Continues t'') (hagent : t''.agentToken = t'.agentToken)
    (hidle : t''.stage.worker? = none) (hend : s'.roster = (s.roster.mind t').seat t'') :
    Turn r t none s'.roster := by
  have hamid : Amid r t s t'' :=
    h.change hcontinues hagent (by rw [Task.wipes_of_pass hpass]; exact List.nil_subset _)
  obtain ⟨ops, k, hspares, hroster⟩ := h.roster
  rw [hend, hroster]
  refine .closes (h.continues.pass ▸ hpass) hamid.continues (fun token hmem => ?_) hspares
  refine hamid.agent token ?_
  simpa [Task.holds, hidle] using hmem

end Amid

/-! ## Winding down -/

/-- A pass that announces its end has marked its transport if that asked for it. -/
theorem endKeyValue_roster (s : System) (t : Task) (drained : Option Drained) (status : Status) :
    (s.endKeyValue t drained status).roster =
      (s.roster.mind t).seat { t with stage := .closing status } := by
  rw [endKeyValue, moveTo_roster, post_roster _ rfl, closeDrained_roster, heedInit_roster]

/-- Then it is over, and its token is forgotten. -/
theorem closeKeyValue_roster (s : System) (t : Task) (observer : Option String)
    (status : Status) :
    (s.closeKeyValue t observer status).roster = (s.roster.forget t.token).drop t.number := by
  have harm : ∀ s : System,
      (if status = .success ∨ status = .cancelled then s else s.scheduleKeyValueJob).roster =
        s.roster := by
    intro s
    split
    · rfl
    · exact s.scheduleKeyValueJob_roster
  simp only [closeKeyValue, dropTask_roster, dispose_roster, releaseWake_roster, harm,
    dropToken_roster, tellFinished_roster]

/-- A full backup marks its transport before the time of its next attempt is known. -/
@[simp] theorem drawnRetry_roster (s : System) (t : Task) :
    (s.drawnRetry t).roster = s.roster.mind t := by
  rw [drawnRetry, draw_roster, heedInit_roster]

/-- A task that breaks down stays where it is. -/
theorem fall_roster (s : System) (t : Task) :
    (s.fall t).roster = s.roster.seat { t with stage := .fallen, lease := none } := by
  show (s.dispose t.lease).roster.seat _ = _
  rw [dispose_roster]

/-- A full backup that is done with its package stands near its end, or it has broken down. -/
theorem endFull_roster (s : System) (t : Task) (package : String) (lastBackup : Int)
    (status : Status) : ∃ t' : Task, t.Continues t' ∧ t'.agentToken = t.agentToken ∧
      t'.stage.worker? = none ∧
      (s.endFull t package lastBackup status).roster = (s.roster.mind t).seat t' := by
  refine endFull_elim ?succeeds ?retries ?falls
  case succeeds =>
    intro _
    refine ⟨{ t with stage := .closing status }, ⟨rfl, rfl, rfl, rfl⟩, rfl, rfl, ?_⟩
    rw [moveTo_roster, enqueueFull_roster, heedInit_roster]
  case retries =>
    intro _ dueAt
    refine ⟨{ t with stage := .closing status }, ⟨rfl, rfl, rfl, rfl⟩, rfl, rfl, ?_⟩
    rw [moveTo_roster, deferFull_roster, drawnRetry_roster]
  case falls =>
    intro _
    refine ⟨{ t with stage := .fallen, lease := none }, ⟨rfl, rfl, rfl, rfl⟩, rfl, rfl, ?_⟩
    rw [fall_roster, drawnRetry_roster]

/-- A task that has nothing to announce is over. -/
theorem endPlain_roster (s : System) (t : Task) :
    (s.endPlain t).roster = s.roster.drop t.number := by
  simp only [endPlain, dropTask_roster, dispose_roster, releaseWake_roster]

/-- A restore is over: neither its commands nor its notices are on the roster. -/
theorem endRestore_roster (s : System) (t : Task) (order : RestoreOrder) (started : Bool) :
    (s.endRestore t order started).roster = s.roster.drop t.number := by
  have hdatasets : ∀ s : System, ∀ datasets : Datasets,
      (if started && order.recordAncestral then (s.setDatasets datasets).2 else s).roster =
        s.roster := by
    intro s datasets
    split <;> rfl
  unfold endRestore
  cases order.installToken <;>
    simp only [dropTask_roster, @post_roster _ (.restoreFinished _) rfl, dispose_roster,
      releaseWake_roster, @note_roster _ (.installed _ _) rfl, hdatasets]

/-! ## Packages of a pass -/

namespace Amid

variable {drained : Option Drained} {observer : Option String}

/-- A pass announces its end in the middle of a step. -/
theorem endKeyValue (h : Amid r t s t') (hpass : t'.job.isPass = true)
    (drained : Option Drained) (status : Status) :
    Turn r t none (s.endKeyValue t' drained status).roster :=
  @close _ _ _ _ _ h hpass { t' with stage := .closing status } ⟨rfl, rfl, rfl, rfl⟩ rfl rfl
    (endKeyValue_roster _ _ _ _)

/-- So does a full backup, or it breaks down. -/
theorem endFull (h : Amid r t s t') (hpass : t'.job.isPass = true) (package : String)
    (lastBackup : Int) (status : Status) :
    Turn r t none (s.endFull t' package lastBackup status).roster := by
  obtain ⟨t'', hcontinues, hagent, hidle, hend⟩ := s.endFull_roster t' package lastBackup status
  exact h.close hpass hcontinues hagent hidle hend

/-- After a package a pass goes on, or it announces its end. -/
theorem packageDone (h : Amid r t s t') (hpass : t'.job.isPass = true)
    (drained : Option Drained) (observer : Option String) (package : String) (status : Status) :
    Turn r t none (s.packageDone t' drained observer package status).roster := by
  have htold : Amid r t (s.tellResult observer package status) t' :=
    h.congr (s.tellResult_roster _ _ _)
  unfold System.packageDone
  simp only
  split
  · exact htold.endKeyValue hpass _ _
  · exact htold.movePass hpass rfl

/-- A task joins the line of binds, and no agent of its own is at work by then. -/
theorem visit (h : Amid r t s t') (hcalls : ∀ call, t'.stage ≠ .calling call) (v : Visit) :
    Turn r t none (s.visit t' v).roster := by
  unfold System.visit
  exact Amid.moveOn (h.congr rfl) hcalls rfl

/-- An agent did not do its work: some tasks go on, a full backup announces its end. -/
theorem visitFailed (h : Amid r t s t') (hcalls : ∀ call, t'.stage ≠ .calling call) (v : Visit)
    (status : Status) : Turn r t none (s.visitFailed t' v status).roster := by
  unfold System.visitFailed
  cases hjob : t'.job with
  | keyValue drained keyValue full observer nonIncremental =>
    exact h.packageDone (by rw [hjob]; rfl) _ _ _ _
  | full p lastBackup => exact h.endFull (by rw [hjob]; rfl) _ _ _
  | wipe | clearData | restore => exact h.moveOn hcalls rfl

end Amid

/-! ## Agents -/

/-- The host is asked to bind. At most, a timer is set for the agent to come up. -/
theorem askHost_turn_roster (s : System) {t : Task} {v : Visit} {ticket : Nat}
    (hstage : t.stage = .queued v ticket) :
    Turn s.roster t none (s.askHost t v ticket).roster := by
  have hcalls : ∀ call, t.stage ≠ .calling call := by simp [hstage]
  have hnote : (s.note (.agent v.package.name (.bind v.mode))).roster = s.roster :=
    s.note_roster rfl
  have hasked : Amid s.roster t (s.note (.agent v.package.name (.bind v.mode))) t :=
    (Amid.start s t).congr hnote
  unfold askHost
  simp only
  generalize s.note (.agent v.package.name (.bind v.mode)) = s₁ at hasked ⊢
  generalize hostReacts _ _ _ = answer
  -- whoever is awaited does not show on the roster
  have hbinder : ∀ binder, Amid s.roster t (s₁.onEngine fun e => { e with binder }) t :=
    fun binder => hasked.congr rfl
  split
  · split
    · exact (hbinder _).moveOn hcalls rfl
    · exact Amid.moveOn ((hbinder _).count (setTimer_roster _ rfl _)) hcalls rfl
  · exact (hbinder _).visitFailed hcalls v _

/-- The wait for an agent is registered under a new token. -/
theorem prepare_turn_roster (s : System) {t : Task} (v : Visit)
    (hcalls : ∀ call, t.stage ≠ .calling call) :
    Turn s.roster t (some s.freshToken.1) (s.prepare t v).roster := by
  have hself : s.freshToken.1 ∈ [s.freshToken.1] := List.mem_singleton_self _
  have hregistered := OperationTable.Spares.register (t := s.roster.ops) (workKind v.mode)
    (Watcher.agent v.package.name) (workTimeout s.freshToken.2.engine.settings v.mode) hself
  have hissued := s.freshToken_roster
  have hops : s.freshToken.2.engine.ops = s.roster.ops := congrArg Roster.ops hissued
  unfold prepare
  generalize s.freshToken = fresh at hself hregistered hissued hops ⊢
  obtain ⟨token, left⟩ := fresh
  simp only at hself hregistered hissued hops ⊢
  have hroster : (left.onEngine fun e => { e with
      ops := e.ops.register token (workKind v.mode) (.agent v.package.name)
        (workTimeout left.engine.settings v.mode) }).roster =
      { s.roster.issue with
        ops := s.roster.ops.register token (workKind v.mode) (.agent v.package.name)
          (workTimeout left.engine.settings v.mode) } := by
    rw [← hissued, ← hops]
    rfl
  rw [moveTo_roster, hroster]
  refine .prepares ⟨rfl, rfl, rfl, rfl⟩ (fun other hmem => ?_) (Task.wipes_subset hcalls _)
    hregistered
  rcases List.mem_append.1 hmem with hmem | hmem
  · simp only at hmem
    split at hmem
    · cases hmem
    · exact hmem
  · exact hmem

/-- The agent came up, and the wait for it is registered under a token that is issued for it; or the
visit has failed. -/
theorem meetAgent_turn_roster (s : System) {t : Task} {v : Visit}
    (hcalls : ∀ call, t.stage ≠ .calling call) :
    Turn s.roster t none (s.meetAgent t v).roster ∨
      Turn s.roster t (some s.freshToken.1) (s.meetAgent t v).roster := by
  refine meetAgent_elim ?prepares ?fails
  case prepares =>
    exact fun _ => .inr (prepare_turn_roster
      (s.onEngine fun e => { e with binder := e.binder.leave }) v hcalls)
  case fails =>
    intro left _ hleft
    have hsame : left.roster = s.roster := by
      rcases hleft with rfl | rfl
      · rfl
      · exact note_roster _ rfl
    exact .inl (((Amid.start s t).congr hsame).visitFailed hcalls v _)

/-- A task that was canceled gives up the wait for its agent. Else nothing but its stage changes. -/
theorem heedCancel_turn_roster (s : System) {t : Task} {v : Visit} {token : OpToken}
    (hstage : t.stage = .prepared v token) :
    Turn s.roster t none (s.heedCancel t v token).roster := by
  have hcalls : ∀ call, t.stage ≠ .calling call := by simp [hstage]
  have hholds : ∀ stage : Stage, stage.worker? = some token →
      ({ t with stage } : Task).holds ⊆ t.holds := by
    intro stage hworker
    simp only [Task.holds, hstage, hworker]
    exact List.Subset.refl _
  unfold heedCancel
  split
  · rename_i hcanceled
    rw [moveTo_roster, cancelOperation_roster]
    exact .heeds hcanceled ⟨rfl, rfl, rfl, rfl⟩ (hholds _ rfl) (Task.wipes_subset hcalls _)
      (by simp [Task.holds, hstage, Stage.worker?])
  · rw [moveTo_roster]
    exact .goes (k := 0) ⟨rfl, rfl, rfl, rfl⟩ (hholds _ rfl) (Task.wipes_subset hcalls _)
      (.refl _ _)

/-- An agent gets its work, also when its task was canceled after the last look. -/
theorem giveWork_turn_roster (s : System) {t : Task} {v : Visit} {token : OpToken}
    (hstage : t.stage = .starting v token) :
    Turn s.roster t none (s.giveWork t v token).roster := by
  have hcalls : ∀ call, t.stage ≠ .calling call := by simp [hstage]
  have hheld : token ∈ t.holds := by simp [Task.holds, hstage, Stage.worker?]
  have hreacts := agentReacts_spares (s.device.behaviour v.package.name) s.roster.ops hheld
  have hworked : ((s.note (.agent v.package.name (workNotice t v.mode))).device.log.filter
      (·.isWork)).reverse = s.roster.worked ++
        [Device.Notice.agent v.package.name (workNotice t v.mode)].filter (·.isWork) := by
    show ((Device.Notice.agent v.package.name (workNotice t v.mode) :: s.device.log).filter
      (·.isWork)).reverse = _
    rw [List.filter_cons, List.filter_singleton]
    split <;> simp [roster, *]
  unfold giveWork
  rw [moveTo_roster]
  refine .starts hstage ⟨rfl, rfl, rfl, rfl⟩ ?_ (Task.wipes_subset hcalls _) hreacts
    (fun entry hmem => ?_) hworked
  · simp only [Task.holds, hstage, Stage.worker?]
    exact List.Subset.refl _
  · rcases List.mem_cons.1 hmem with rfl | hmem
    · exact .inr hheld
    · exact .inl (List.mem_of_mem_filter hmem)

/-- The wait for the agent is over, and its operation is struck off. -/
theorem collectWork_turn_roster (s : System) {t : Task} {v : Visit} {token : OpToken}
    (hstage : t.stage = .working v token) :
    Turn s.roster t none (s.collectWork t v token).roster := by
  have hheld : token ∈ t.holds := by
    simp [Task.holds, hstage, Stage.worker?]
  have hcalls : ∀ call, ({ t with agentToken := none } : Task).stage ≠ .calling call := by
    simp [hstage]
  have hamid : Amid s.roster t (s.collected v token) { t with agentToken := none } := by
    refine ⟨⟨(s.roster.ops.wait token).2, 0, .wait hheld, ?_⟩, ⟨rfl, rfl, rfl, rfl⟩, nofun,
      List.Subset.refl _⟩
    rw [collected, tearDown_roster]
    rfl
  refine collectWork_elim ?offers ?offersFull ?restores ?fails
  case offers =>
    exact fun _ _ _ _ _ _ hjob => hamid.callPass (by simp [hjob, Job.isPass]) _
  case offersFull => exact fun _ _ hjob => hamid.callPass (by simp [hjob, Job.isPass]) _
  case restores => exact fun _ _ => hamid.moveOn hcalls rfl
  case fails => exact hamid.visitFailed hcalls v _

/-! ## Stages -/

/-- The first step of a task. -/
theorem openTask_turn_roster (s : System) {t : Task} (hstage : t.stage = .opening) :
    Turn s.roster t none (s.openTask t).roster := by
  have hcalls : ∀ call, t.stage ≠ .calling call := by simp [hstage]
  have hstart := Amid.start s t
  have hwoken : Amid s.roster t s.acquireWake t := hstart.congr rfl
  unfold openTask
  cases hjob : t.job with
  | keyValue drained keyValue full observer nonIncremental =>
    have hpass : t.job.isPass = true := by rw [hjob]; rfl
    simp only
    split
    · exact hwoken.endKeyValue hpass _ _
    · exact hwoken.movePass hpass rfl
  | full p lastBackup => exact hstart.visit hcalls _
  | wipe names observer overall => exact hwoken.moveOn hcalls rfl
  | clearData package => exact hwoken.call (Task.wipes_subset hcalls _)
  | restore order rest => exact hwoken.call (Task.wipes_subset hcalls _)

/-- A pass takes the next package, commits, or announces its end. -/
theorem chooseKeyValue_turn_roster (s : System) {t : Task} (hstage : t.stage = .choosing)
    {drained : Option Drained} {keyValue full : List String} {observer : Option String}
    {nonIncremental : Bool}
    (hjob : t.job = .keyValue drained keyValue full observer nonIncremental) :
    Turn s.roster t none
      (s.chooseKeyValue t drained keyValue full observer nonIncremental).roster := by
  have hcalls : ∀ call, t.stage ≠ .calling call := by simp [hstage]
  have hstart := Amid.start s t
  have hpass : t.job.isPass = true := by rw [hjob]; rfl
  -- the task with other packages left
  have hleft : ∀ keyValue full, Amid s.roster t s
      { t with job := .keyValue drained keyValue full observer nonIncremental } := by
    intro keyValue full
    refine hstart.change ⟨rfl, rfl, rfl, hpass.symm⟩ rfl ?_
    rw [Task.wipes_of_pass hpass]
    exact List.nil_subset _
  refine chooseKeyValue_elim ?commits ?breaksOff ?offers ?visits ?skips
  case commits => exact hstart.callPass hpass _
  case breaksOff => exact fun _ => hstart.endKeyValue hpass _ _
  case offers => exact fun _ _ => (hleft _ _).callPass rfl _
  case visits => exact fun _ _ v => (hleft _ _).visit hcalls v
  case skips => exact fun _ _ _ _ _ => (hleft _ _).packageDone rfl _ _ _ _

/-- A wipe takes the next transport. One that is not registered is settled thereby. -/
theorem chooseInit_turn_roster (s : System) {t : Task} (hstage : t.stage = .choosing)
    {names : List String} {observer : Option String} {overall : Status}
    (hjob : t.job = .wipe names observer overall) :
    Turn s.roster t none (s.chooseInit t names observer overall).roster := by
  have hpass : t.job.isPass = false := by rw [hjob]; rfl
  have hwipes : t.wipes = names := by
    simp only [Task.wipes, hjob, hstage]
  have hholds : ∀ job lease stage, Stage.worker? stage = none →
      ({ t with job, lease, stage } : Task).holds ⊆ t.holds := by
    intro job lease stage hidle token hmem
    refine List.mem_append_left _ ?_
    simpa [Task.holds, hidle] using hmem
  clear hjob
  refine chooseInit_elim (P := fun names s' => t.wipes = names → Turn s.roster t none s'.roster)
    ?ends ?skips ?wipes hwipes
  case ends =>
    intro hwipes
    rw [endPlain_roster, tellFinished_roster]
    exact .quits hpass hwipes
  case skips =>
    intro name rest hunknown hwipes
    have hgone : name ∉ s.roster.registered := fun hmem =>
      absurd (hunknown.symm.trans ((s.registered_iff name).2 hmem)) nofun
    rw [moveTo_roster, tellResult_roster]
    refine .settles ⟨rfl, rfl, rfl, hpass.symm⟩ (hholds _ _ _ rfl) ?_ (.gone hgone)
    rw [hwipes]
    exact List.Subset.refl _
  case wipes =>
    intro name rest hwipes
    rw [call_roster, lend_roster]
    refine .goes (k := 0) ⟨rfl, rfl, rfl, hpass.symm⟩ (hholds _ _ _ rfl) ?_ (.refl _ _)
    rw [hwipes]
    exact List.Subset.refl _

/-- A restore takes the next package, or it commits. -/
theorem chooseRestore_turn_roster (s : System) {t : Task} (hstage : t.stage = .choosing)
    {order : RestoreOrder} {rest : List String} (hjob : t.job = .restore order rest) :
    Turn s.roster t none (s.chooseRestore t order rest).roster := by
  have hcalls : ∀ call, t.stage ≠ .calling call := by simp [hstage]
  have hwipes : t.wipes = [] := by
    simp only [Task.wipes, hjob]
  have hstart := Amid.start s t
  have hleft : ∀ rest, Amid s.roster t s { t with job := .restore order rest } := by
    intro rest
    refine hstart.change ⟨rfl, rfl, rfl, ?_⟩ rfl (by rw [hwipes]; exact List.nil_subset _)
    rw [hjob]
    rfl
  refine chooseRestore_elim ?commits ?visits ?skips
  case commits => exact hstart.call (by rw [hwipes]; exact List.nil_subset _)
  case visits => exact fun _ v => (hleft _).visit hcalls v
  case skips => exact fun _ => (hleft _).moveOn hcalls rfl

/-- A task takes what comes next. -/
theorem choose_turn_roster (s : System) {t : Task} (hstage : t.stage = .choosing) :
    Turn s.roster t none (s.choose t).roster := by
  unfold choose
  cases hjob : t.job with
  | keyValue drained keyValue full observer nonIncremental =>
    exact s.chooseKeyValue_turn_roster hstage hjob
  | full p lastBackup =>
    exact (Amid.start s t).endFull (by rw [hjob]; rfl) _ _ _
  | wipe names observer overall => exact s.chooseInit_turn_roster hstage hjob
  | clearData package =>
    simp only
    rw [endPlain_roster]
    exact .quits (by rw [hjob]; rfl) (by simp only [Task.wipes, hjob])
  | restore order rest => exact s.chooseRestore_turn_roster hstage hjob

/-! ## Answers of transports -/

/-- The answer to a wipe settles the transport: its mark is gone, or the wipe is tried again later.
-/
theorem initDone_turn_roster (s : System) {t : Task} {rest : List String}
    {observer : Option String} {overall : Status} (hjob : t.job = .wipe rest observer overall)
    {c : TransportCall} (hstage : t.stage = .calling c) (reply : Device.Reply) :
    Turn s.roster t none (s.initDone t rest observer overall reply).roster := by
  have hpass : t.job.isPass = false := by rw [hjob]; rfl
  have hwipes : t.wipes = t.transport :: rest := by
    simp only [Task.wipes, hjob, hstage]
  -- the last steps leave everything else as it is
  have hlast : ∀ (s' : System) (result overall : Status),
      s.roster.Settles t.transport s'.roster →
      Turn s.roster t none (((s'.tellResult observer t.transport result).dispose t.lease).moveTo
        { t with job := .wipe rest observer overall, lease := none } .choosing).roster := by
    intro s' result overall hsettles
    rw [moveTo_roster, dispose_roster, tellResult_roster]
    refine .settles ⟨rfl, rfl, rfl, hpass.symm⟩ (fun token hmem => ?_) ?_ hsettles
    · refine List.mem_append_left _ ?_
      simpa [Task.holds, Stage.worker?] using hmem
    · rw [hwipes]
      exact List.Subset.refl _
  unfold initDone
  simp only
  split
  · have hreset := s.resetBackupState_roster t.transport
    generalize s.resetBackupState t.transport = answer at hreset ⊢
    obtain ⟨outcome, s₁⟩ := answer
    dsimp only at hreset ⊢
    rcases s₁.folderName_roster t.transport with ⟨hunknown, fault, hfolder⟩ | ⟨-, name, hfolder⟩
    · rw [hfolder]
      refine hlast _ _ _ ?_
      rw [hreset] at hunknown ⊢
      exact .gone hunknown
    · rw [hfolder]
      refine hlast _ _ _ ?_
      rw [setInitPending_roster, hreset]
      exact .wiped
  · refine hlast _ _ _ ?_
    rw [retryInit_roster]
    exact .later

/-- The answer of a transport is taken into account. -/
theorem Amid.heed (h : Amid r t s t') (hpass : t'.job.isPass = true) (reply : Device.Reply) :
    Amid r t s (t'.heed reply) ∧ (t'.heed reply).job.isPass = true := by
  have hsame : (t'.heed reply).agentToken = t'.agentToken ∧
      (t'.heed reply).job.isPass = true := by
    unfold Task.heed
    split <;> exact ⟨rfl, hpass⟩
  refine ⟨h.change (t'.heed_continues reply) hsame.1 ?_, hsame.2⟩
  rw [Task.wipes_of_pass hpass]
  exact List.nil_subset _

/-- A transport answers a pass. -/
theorem replyKeyValue_turn_roster (h : Amid r t s t') (hpass : t'.job.isPass = true)
    (drained : Option Drained) (observer : Option String) (c : TransportCall)
    (reply : Device.Reply) :
    Turn r t none (s.replyKeyValue t' drained observer c reply).roster := by
  obtain ⟨hamid, hpass'⟩ := h.heed hpass reply
  refine replyKeyValue_elim ?done ?doneFull ?asks ?commits
  case done =>
    intro left package hleft
    refine Amid.packageDone (hamid.congr ?_) hpass' _ _ _ _
    rcases hleft with rfl | rfl | rfl
    · rfl
    · exact s.writeMetadata_roster _
    · exact s.recordProcessed_roster _
  case doneFull =>
    intro package _
    refine Amid.packageDone (hamid.congr ?_) hpass' _ _ _ _
    rw [enqueueFull_roster, recordProcessed_roster]
  case asks => exact fun _ => hamid.callPass hpass' _
  case commits => exact fun _ => hamid.endKeyValue hpass' _ _

/-- A transport answers a full backup. -/
theorem replyFull_turn_roster (h : Amid r t s t') (hpass : t'.job.isPass = true)
    (package : String) (lastBackup : Int) (c : TransportCall) (reply : Device.Reply) :
    Turn r t none (s.replyFull t' package lastBackup c reply).roster := by
  obtain ⟨hamid, hpass'⟩ := h.heed hpass reply
  refine replyFull_elim ?commits ?fails ?asks ?ends
  case commits => exact Amid.callPass (hamid.congr (s.recordProcessed_roster _)) hpass' _
  case fails => exact hamid.endFull hpass' _ _ _
  case asks => exact fun _ => hamid.callPass hpass' _
  case ends => exact fun _ => hamid.endFull hpass' _ _ _

/-- A transport answers a task. Only the answer to a wipe settles anything. -/
theorem takeReply_turn_roster (s : System) {t : Task} {c : TransportCall}
    (hstage : t.stage = .calling c) : Turn s.roster t none (s.takeReply t c).roster := by
  have hsame : (s.answered t c).roster = s.roster := s.answer_roster _ _
  have hstart : Amid s.roster t (s.answered t c) t := (Amid.start s t).congr hsame
  have hclear : ∀ package, t.job = .clearData package → t.wipes = [] :=
    fun _ hjob => by simp only [Task.wipes, hjob]
  have hrestore : ∀ order rest, t.job = .restore order rest → t.wipes = [] :=
    fun _ _ hjob => by simp only [Task.wipes, hjob]
  have hend : ∀ order rest started, t.job = .restore order rest →
      Turn s.roster t none ((s.answered t c).endRestore t order started).roster := by
    intro order rest started hjob
    rw [endRestore_roster, hsame]
    exact .quits (by rw [hjob]; rfl) (hrestore _ _ hjob)
  refine takeReply_elim ?keyValue ?full ?wipeGoesOn ?wiped ?clearGoesOn ?cleared ?restoreGoesOn
    ?restoreFails ?restored
  case keyValue =>
    exact fun _ _ _ _ _ hjob => replyKeyValue_turn_roster hstart (by rw [hjob]; rfl) _ _ _ _
  case full => exact fun _ _ hjob => replyFull_turn_roster hstart (by rw [hjob]; rfl) _ _ _ _
  case wipeGoesOn =>
    intro rest observer overall hjob _
    refine hstart.call ?_
    simp only [Task.wipes, hjob, hstage]
    exact List.Subset.refl _
  case wiped =>
    intro rest observer overall hjob _
    rw [← hsame]
    exact initDone_turn_roster _ hjob hstage _
  case clearGoesOn =>
    exact fun _ hjob => hstart.call (by rw [hclear _ hjob]; exact List.nil_subset _)
  case cleared =>
    intro package hjob
    rw [endPlain_roster, hsame]
    exact .quits (by rw [hjob]; rfl) (hclear _ hjob)
  case restoreGoesOn =>
    exact fun _ _ hjob => hstart.moveTo rfl (by rw [hrestore _ _ hjob]; exact List.nil_subset _)
  case restoreFails => exact fun _ _ _ _ hjob _ _ => hend _ _ _ hjob
  case restored => exact fun _ _ hjob _ => hend _ _ _ hjob

/-- The dataset that the transport names is stored, and the pass announces its end. -/
theorem takeDataset_turn_roster (s : System) {t : Task}
    (hstage : t.stage = .calling .currentRestoreSet) :
    Turn s.roster t none (s.takeDataset t).roster := by
  have hstored : Amid s.roster t (s.storeDataset t.transport) t :=
    (Amid.start s t).congr (s.storeDataset_roster _)
  unfold takeDataset
  cases hjob : t.job with
  | keyValue => exact hstored.endKeyValue (by rw [hjob]; rfl) _ _
  | full => exact hstored.endFull (by rw [hjob]; rfl) _ _ _
  | wipe | clearData | restore => exact s.takeReply_turn_roster hstage

/-! ## The last steps -/

/-- A pass that has announced its end is over; a full backup only gives up its slot. -/
theorem closeTask_turn_roster (s : System) (t : Task) (status : Status) :
    Turn s.roster t none (s.closeTask t status).roster := by
  unfold closeTask
  cases hjob : t.job with
  | keyValue drained keyValue full observer nonIncremental =>
    simp only
    rw [closeKeyValue_roster]
    exact .departs (by rw [hjob]; rfl)
  | full p lastBackup =>
    exact Amid.movePass ((Amid.start s t).congr (s.clearRunningFull_roster _))
      (by rw [hjob]; rfl) rfl
  | wipe | clearData | restore => exact .stays

/-- A full backup that has given up its slot is over. -/
theorem leave_turn_roster (s : System) (t : Task) :
    Turn s.roster t none (s.leave t).roster := by
  unfold leave
  cases hjob : t.job with
  | full p lastBackup =>
    simp only
    rw [dropTask_roster, dispose_roster, scheduleNextFullJob_roster, releaseWake_roster,
      dropToken_roster]
    exact .departs (by rw [hjob]; rfl)
  | keyValue | wipe | clearData | restore => exact .stays

/-- **Every step of a task is one of the turns.** If a token is issued in it, that is the next
one. -/
theorem stepTask_turn_roster (s : System) (t : Task) :
    Turn s.roster t none (s.stepTask t).roster ∨
      Turn s.roster t (some s.freshToken.1) (s.stepTask t).roster := by
  refine stepTask_elim ?opening ?choosing ?queued ?binding ?prepared ?starting ?working ?asking
    ?calling ?closing ?leaving ?fallen
  case opening => exact fun hstage => .inl (s.openTask_turn_roster hstage)
  case choosing => exact fun hstage => .inl (s.choose_turn_roster hstage)
  case queued => exact fun _ _ hstage => .inl (s.askHost_turn_roster hstage)
  case binding => exact fun _ _ hstage => s.meetAgent_turn_roster (by simp [hstage])
  case prepared => exact fun _ _ hstage => .inl (s.heedCancel_turn_roster hstage)
  case starting => exact fun _ _ hstage => .inl (s.giveWork_turn_roster hstage)
  case working => exact fun _ _ hstage => .inl (s.collectWork_turn_roster hstage)
  case asking => exact fun hstage => .inl (s.takeDataset_turn_roster hstage)
  case calling => exact fun _ hstage _ => .inl (s.takeReply_turn_roster hstage)
  case closing => exact fun status _ => .inl (s.closeTask_turn_roster t status)
  case leaving => exact fun _ => .inl (s.leave_turn_roster t)
  case fallen => exact fun _ => .inl .stays

end System

end Holdfast
