import Holdfast.Proofs.Engine.World

/-!
# The desk of restores

What the engine knows of restores and of their session shows up in a few fields of its state.
The desk is the extract of these fields, and this module says which operations leave it alone.

- `System.desk`: the extract;
- `System.Still`: the desk is as it was, apart from numbers handed out, and every task has the
  entry it had. What keeps away from the parts of the desk is of this kind (`Within.still`);
- `System.Calm`: tasks other than restores may have come and gone besides. **Every step of a task
  is of this kind, apart from the last one of a restore** (`stepTask_calm`).
-/

namespace Holdfast

/-- Whether a command is no matter of restores. -/
def Command.isQuiet : Command → Bool
  | .startRestore _ | .restoreFinished _ | .sessionTimeout _ | .shutdown => false
  | _ => true

/-- Whether a timer will post a command that is a matter of restores. -/
def TimerAction.isAlarm : TimerAction → Bool
  | .post command => !command.isQuiet
  | .expireBind _ => false

/-- The restore that a job carries out. -/
def Job.restore? : Job → Option RestoreOrder
  | .restore order _ => some order
  | _ => none

/-- A task as the desk knows it: its number, and its restore if it is one. -/
def Task.entry (t : Task) : Nat × Option RestoreOrder := (t.number, t.job.restore?)

/-- What the installer was told. -/
def Device.Notice.installed? : Notice → Option (Int × Bool)
  | .installed token launched => some (token, launched)
  | _ => none

/-- The extract of the state that is a matter of restores. -/
structure Desk where
  looping : Bool
  clock : Nat
  /-- How long a session may be inactive. -/
  timeout : Nat
  session : Option OpenSession
  /-- Timers that will post a command of these. -/
  alarms : List Timer
  /-- Queued commands that are matters of restores, oldest first. -/
  mail : List Command
  restoring : Bool
  waiting : List RestoreOrder
  /-- Restores that run, by the numbers of their tasks. -/
  running : List (Nat × RestoreOrder)
  ancestral : UInt64
  ancestralPackages : Option NameSet
  /-- What the installer was told, oldest first. -/
  installed : List (Int × Bool)
  nextNumber : Nat

/-- The parts of the state that the desk is read from, apart from the numbers handed out. -/
def Desk.parts : Footprint :=
  [.looping, .clock, .givens, .session, .timers .others, .mail .restores, .mail .loop, .restoring,
    .waitingRestores, .tasks, .ancestral, .notices .installer]

namespace System

/-- The tasks as the desk knows them. -/
def entries (s : System) : List (Nat × Option RestoreOrder) := s.engine.tasks.map Task.entry

/-- The restores among some tasks. -/
def restoresOf (entries : List (Nat × Option RestoreOrder)) : List (Nat × RestoreOrder) :=
  entries.filterMap fun entry => entry.2.map fun order => (entry.1, order)

/-- The desk of restores. -/
def desk (s : System) : Desk where
  looping := s.engine.looping
  clock := s.engine.ops.clock
  timeout := s.engine.settings.restoreTimeout
  session := s.engine.session
  alarms := s.engine.timers.filter (·.action.isAlarm)
  mail := s.engine.inbox.filter (!·.isQuiet)
  restoring := s.engine.restoring
  waiting := s.engine.waitingRestores
  running := restoresOf s.entries
  ancestral := s.engine.datasets.ancestral
  ancestralPackages := s.engine.datasets.packages
  installed := (s.device.log.filterMap Device.Notice.installed?).reverse
  nextNumber := s.engine.nextNumber

/-- Each number belongs to one task, and the next number to none. -/
structure Numbered (s : System) : Prop where
  nodup : (s.entries.map (·.1)).Nodup
  below : ∀ entry ∈ s.entries, entry.1 < s.engine.nextNumber

/-- A task is one of the tasks. -/
structure Seated (s : System) (t : Task) : Prop where
  numbered : s.Numbered
  mem : t.entry ∈ s.entries

/-- A task that is changed but not in its order has the same seat. -/
theorem Seated.same {s : System} {t t' : Task} (h : s.Seated t) (hentry : t'.entry = t.entry) :
    s.Seated t' :=
  ⟨h.numbered, hentry ▸ h.mem⟩

/-- The desk is as it was, apart from numbers handed out, and so is every task. -/
structure Still (s s' : System) : Prop where
  desk : { s'.desk with nextNumber := s.engine.nextNumber } = s.desk
  inbox : s.engine.inbox <+: s'.engine.inbox
  next : s.engine.nextNumber ≤ s'.engine.nextNumber
  entries : s'.entries = s.entries

/-- The desk is as it was, apart from numbers handed out, and so is every restore. -/
structure Calm (s s' : System) : Prop where
  desk : { s'.desk with nextNumber := s.engine.nextNumber, running := s.desk.running } = s.desk
  running : s'.desk.running.Perm s.desk.running
  inbox : s.engine.inbox <+: s'.engine.inbox
  next : s.engine.nextNumber ≤ s'.engine.nextNumber
  numbered : s'.Numbered

variable {s s' s'' : System} {t : Task}

namespace Still

/-- A change elsewhere. -/
theorem of_eq (hdesk : s'.desk = s.desk) (hinbox : s'.engine.inbox = s.engine.inbox)
    (hentries : s'.entries = s.entries) : s.Still s' := by
  have hnext : s'.engine.nextNumber = s.engine.nextNumber := congrArg Desk.nextNumber hdesk
  refine ⟨?_, hinbox ▸ List.prefix_rfl, Nat.le_of_eq hnext.symm, hentries⟩
  rw [hdesk]
  rfl

theorem refl : s.Still s := of_eq rfl rfl rfl

theorem trans (h : s.Still s') (h' : s'.Still s'') : s.Still s'' where
  desk := by
    have hdesk := congrArg (fun d : Desk => { d with nextNumber := s.engine.nextNumber }) h'.desk
    exact hdesk.trans h.desk
  inbox := h.inbox.trans h'.inbox
  next := Nat.le_trans h.next h'.next
  entries := h'.entries.trans h.entries

/-- Tasks keep numbers of their own. -/
theorem numbered (h : s.Still s') (hs : s.Numbered) : s'.Numbered where
  nodup := h.entries ▸ hs.nodup
  below entry hentry := Nat.lt_of_lt_of_le (hs.below entry (h.entries ▸ hentry)) h.next

/-- A task keeps its seat. -/
theorem seated (h : s.Still s') (hs : s.Seated t) : s'.Seated t :=
  ⟨h.numbered hs.numbered, h.entries ▸ hs.mem⟩

theorem calm (h : s.Still s') (hs : s.Numbered) : s.Calm s' where
  desk := by
    have hdesk := congrArg (fun d : Desk => { d with running := s.desk.running }) h.desk
    exact hdesk
  running := by
    show (restoresOf s'.entries).Perm (restoresOf s.entries)
    rw [h.entries]
  inbox := h.inbox
  next := h.next
  numbered := h.numbered hs

end Still

namespace Calm

theorem trans (h : s.Calm s') (h' : s'.Calm s'') : s.Calm s'' where
  desk := by
    have hdesk := congrArg (fun d : Desk =>
      { d with nextNumber := s.engine.nextNumber, running := s.desk.running }) h'.desk
    exact hdesk.trans h.desk
  running := h'.running.trans h.running
  inbox := h.inbox.trans h'.inbox
  next := Nat.le_trans h.next h'.next
  numbered := h'.numbered

/-- A change elsewhere. -/
theorem of_eq (hs : s.Numbered) (hdesk : s'.desk = s.desk)
    (hinbox : s'.engine.inbox = s.engine.inbox) (hentries : s'.entries = s.entries) : s.Calm s' :=
  (Still.of_eq hdesk hinbox hentries).calm hs

/-- Upkeep before. -/
theorem after (hstill : s.Still s') (hs : s.Numbered) (h : s'.Numbered → s'.Calm s'') :
    s.Calm s'' :=
  (hstill.calm hs).trans (h (hstill.numbered hs))

/-- Upkeep before, for a task. -/
theorem seatedAfter (hstill : s.Still s') (hs : s.Seated t) (h : s'.Seated t → s'.Calm s'') :
    s.Calm s'' :=
  (hstill.calm hs.numbered).trans (h (hstill.seated hs))

end Calm

/-- What keeps away from its parts leaves the desk as it is, apart from numbers handed out. -/
theorem Within.still {parts : Footprint} (h : s.Within parts s')
    (hparts : ∀ p ∈ Desk.parts, p ∉ parts) : s.Still s' := by
  have hlooping : s'.engine.looping = s.engine.looping := h.same .looping (hparts _ (by decide))
  have hclock : s'.engine.ops.clock = s.engine.ops.clock := h.same .clock (hparts _ (by decide))
  have hgivens := h.same .givens (hparts _ (by decide))
  have hsettings : s'.engine.settings = s.engine.settings := congrArg Prod.fst hgivens
  have hsession : s'.engine.session = s.engine.session := h.same .session (hparts _ (by decide))
  have hrestoring : s'.engine.restoring = s.engine.restoring :=
    h.same .restoring (hparts _ (by decide))
  have hwaiting : s'.engine.waitingRestores = s.engine.waitingRestores :=
    h.same .waitingRestores (hparts _ (by decide))
  have htasks : s'.engine.tasks = s.engine.tasks := h.same .tasks (hparts _ (by decide))
  have hancestral : (s'.engine.datasets.ancestral, s'.engine.datasets.packages) =
      (s.engine.datasets.ancestral, s.engine.datasets.packages) :=
    h.same .ancestral (hparts _ (by decide))
  have halarms : s'.engine.timers.filter (·.action.isAlarm) =
      s.engine.timers.filter (·.action.isAlarm) := by
    simp only [← List.filterMap_eq_filter]
    refine h.timers_filterMap (hparts (.timers .others) (by decide)) fun timer hother => ?_
    cases haction : timer.action with
    | expireBind ticket => simp [Option.guard, haction, TimerAction.isAlarm]
    | post command =>
      rw [haction] at hother
      cases command <;>
        first
        | exact absurd rfl hother
        | simp [Option.guard, haction, TimerAction.isAlarm, Command.isQuiet]
  have hmail : s'.engine.inbox.filter (!·.isQuiet) = s.engine.inbox.filter (!·.isQuiet) := by
    simp only [← List.filterMap_eq_filter]
    refine h.inbox_filterMap fun command hmail => ?_
    have hrestores := hparts (.mail .restores) (by decide)
    have hloop := hparts (.mail .loop) (by decide)
    cases command <;> first | rfl | contradiction
  have hinstalled : s'.device.log.filterMap Device.Notice.installed? =
      s.device.log.filterMap Device.Notice.installed? :=
    h.log_filterMap (hparts (.notices .installer) (by decide)) fun notice hother => by
      cases notice <;> first | rfl | exact absurd rfl hother
  obtain ⟨hancestral, hpackages⟩ := Prod.mk.inj hancestral
  have hentries : s'.entries = s.entries := congrArg (List.map Task.entry) htasks
  refine ⟨?_, h.inbox, h.numbers, hentries⟩
  simp only [System.desk, hlooping, hclock, hsettings, hsession, hrestoring, hwaiting, hancestral,
    hpackages, halarms, hmail, hinstalled, hentries]

/-! ## Tasks -/

/-- Another task in the place of one with the same entry. -/
theorem setTask_still (hs : s.Seated t) : s.Still (s.setTask t) := by
  have hentries : (s.setTask t).entries = s.entries := by
    show (s.engine.tasks.map fun other => if other.number = t.number then t else other).map
      Task.entry = s.engine.tasks.map Task.entry
    rw [List.map_map]
    refine List.map_congr_left fun other hother => ?_
    simp only [Function.comp_apply]
    split
    · rename_i hnumber
      exact List.inj_on_of_nodup_map hs.numbered.nodup hs.mem (List.mem_map_of_mem hother)
        hnumber.symm
    · rfl
  refine .of_eq ?_ rfl hentries
  simp only [desk, hentries]
  rfl

/-- A task moves on to another stage. -/
theorem moveTo_still (hs : s.Seated t) (stage : Stage) : s.Still (s.moveTo t stage) :=
  setTask_still (t := { t with stage }) (hs.same rfl)

/-- A task waits for the answer of its transport. -/
theorem call_still (hs : s.Seated t) (call : TransportCall) : s.Still (s.call t call) :=
  have hasked := (s.note_within .transports rfl).still (by decide)
  hasked.trans (moveTo_still (hasked.seated hs) _)

/-- A task that is canceled is the same to the desk. -/
theorem cancelOperation_still (hs : s.Numbered) (token : OpToken) :
    s.Still (s.cancelOperation token) := by
  have hcancel : ∀ (s : System) (token : OpToken),
      s.Still (s.onEngine fun e => { e with ops := (e.ops.cancel token).2 }) :=
    fun s token => (s.withOps_within (s.engine.ops.cancel_clock token)).still (by decide)
  have hfirst := hcancel s token
  unfold cancelOperation
  simp only
  split
  · split
    · rename_i task hfind
      have hmem : task.entry ∈ s.entries :=
        List.mem_map_of_mem (List.mem_of_find?_eq_some hfind)
      have hset := setTask_still (t := { task with canceled := true, agentToken := none })
        ⟨hfirst.numbered hs, hmem⟩
      split
      · exact (hfirst.trans hset).trans (hcancel _ _)
      · exact hfirst.trans hset
    · exact hfirst
  · exact hfirst
  · exact hfirst

/-- A task that is over has no entry. -/
theorem dropTask_entries (s : System) (number : Nat) :
    (s.dropTask number).entries = s.entries.filter (fun entry => entry.1 ≠ number) := by
  simp only [entries, dropTask, onEngine, List.filter_map]
  rfl

/-- The others keep numbers of their own. -/
theorem Numbered.dropTask (hs : s.Numbered) (number : Nat) : (s.dropTask number).Numbered where
  nodup := by
    rw [dropTask_entries]
    exact hs.nodup.sublist (List.filter_sublist.map _)
  below entry hentry := by
    rw [dropTask_entries] at hentry
    exact hs.below entry (List.mem_of_mem_filter hentry)

/-- A task that is no restore comes to its end. -/
theorem dropTask_calm (hs : s.Seated t) (hplain : t.job.restore? = none) :
    s.Calm (s.dropTask t.number) := by
  have hrestores : restoresOf (s.dropTask t.number).entries = restoresOf s.entries := by
    rw [dropTask_entries, restoresOf, List.filterMap_filter]
    refine List.filterMap_congr fun entry hentry => ?_
    split
    · rfl
    · rename_i hnumber
      have hsame : entry.1 = t.number := by simpa using hnumber
      have hentry : entry = t.entry :=
        List.inj_on_of_nodup_map hs.numbered.nodup hentry hs.mem hsame
      rw [hentry, Task.entry, hplain]
      rfl
  refine ⟨rfl, ?_, List.prefix_rfl, Nat.le_refl _, hs.numbered.dropTask _⟩
  show (restoresOf (s.dropTask t.number).entries).Perm (restoresOf s.entries)
  rw [hrestores]

/-- A task begins under a number of its own. -/
theorem Numbered.append (hs : s.Numbered) {entry : Nat × Option RestoreOrder}
    (hentries : s'.entries = s.entries ++ [entry]) (hnew : s.engine.nextNumber ≤ entry.1)
    (hnext : entry.1 < s'.engine.nextNumber) : s'.Numbered where
  nodup := by
    rw [hentries, List.map_append, List.map_singleton]
    refine List.Nodup.append hs.nodup (List.nodup_singleton _) ?_
    rw [List.disjoint_singleton]
    intro hmem
    obtain ⟨other, hother, hnumber⟩ := List.mem_map.1 hmem
    have hbelow := hs.below other hother
    omega
  below other hother := by
    rw [hentries] at hother
    rcases List.mem_append.1 hother with hold | hlast
    · have hbelow := hs.below other hold
      omega
    · rw [List.mem_singleton.1 hlast]
      exact hnext

/-- A task that is no restore begins under a number of its own. -/
theorem spawn_calm {task : Task} (hstill : s.Still s') (hs : s.Numbered)
    (hnew : s.engine.nextNumber ≤ task.number) (hnext : task.number < s'.engine.nextNumber)
    (hplain : task.job.restore? = none) : s.Calm (s'.spawn task) := by
  have hentries : (s'.spawn task).entries = s.entries ++ [task.entry] := by
    rw [← hstill.entries]
    simp [entries, spawn, onEngine]
  have hrestores : restoresOf (s'.spawn task).entries = restoresOf s.entries := by
    rw [hentries, restoresOf, List.filterMap_append]
    simp [Task.entry, hplain, restoresOf]
  refine ⟨?_, ?_, hstill.inbox, hstill.next, hs.append hentries hnew hnext⟩
  · exact congrArg (fun d : Desk => { d with running := s.desk.running }) hstill.desk
  · show (restoresOf (s'.spawn task).entries).Perm (restoresOf s.entries)
    rw [hrestores]

/-- Tasks are lined up anew. -/
theorem reorder_calm {tasks : List Task} (hs : s.Numbered) (h : tasks.Perm s.engine.tasks) :
    s.Calm (s.onEngine fun e => { e with tasks }) := by
  have hentries : (s.onEngine fun e => { e with tasks }).entries.Perm s.entries :=
    h.map Task.entry
  refine ⟨rfl, hentries.filterMap _, List.prefix_rfl, Nat.le_refl _, ?_, fun entry hentry => ?_⟩
  · exact (hentries.map _).nodup_iff.2 hs.nodup
  · exact hs.below entry (hentries.mem_iff.1 hentry)

/-! ## Steps of tasks

What a step does before the task is put into another place is upkeep, and so is what its end gives
back. -/

/-- A pass announces its end. -/
theorem endKeyValue_still (hs : s.Seated t) (drained : Option Drained) (status : Status) :
    s.Still (s.endKeyValue t drained status) :=
  have hannounced := (((s.heedInit_within t).andThen
    (closeDrained_within _ drained (status == .success))).andThen
      (post_within _ .passes rfl)).still (by decide)
  hannounced.trans (moveTo_still (hannounced.seated hs) _)

/-- Then it is over, and it was no restore. -/
theorem closeKeyValue_calm (hs : s.Seated t) (hplain : t.job.restore? = none)
    (observer : Option String) (status : Status) :
    s.Calm (s.closeKeyValue t observer status) := by
  have hjob : ∀ s : System, s.Still
      (if status = .success ∨ status = .cancelled then s else s.scheduleKeyValueJob) := by
    intro s
    split
    · exact .refl
    · exact s.scheduleKeyValueJob_within.still (by decide)
  have htold := ((s.tellFinished_within observer status).andThen (dropToken_within _ t)).still
    (by decide)
  refine .seatedAfter (htold.trans (hjob _)) hs fun hs => ?_
  exact .seatedAfter (((releaseWake_within _).andThen (dispose_within _ _)).still (by decide)) hs
    fun hs => dropTask_calm hs hplain

/-- A full backup puts its package back into the schedule, or it breaks down. -/
theorem endFull_still (hs : s.Seated t) (package : String) (lastBackup : Int) (status : Status) :
    s.Still (s.endFull t package lastBackup status) := by
  refine endFull_elim ?succeeds ?retries ?falls
  case succeeds =>
    intro _
    have hqueued := ((s.heedInit_within t).andThen
      (enqueueFull_within _ package (s.heedInit t).now)).still (by decide)
    exact hqueued.trans (moveTo_still (hqueued.seated hs) _)
  case retries =>
    intro _ dueAt
    have hqueued := ((s.drawnRetry_within t).andThen
      (deferFull_within _ package lastBackup dueAt)).still (by decide)
    exact hqueued.trans (moveTo_still (hqueued.seated hs) _)
  case falls =>
    intro _
    have hdisposed := ((s.drawnRetry_within t).andThen (dispose_within _ t.lease)).still (by decide)
    exact hdisposed.trans
      (setTask_still (t := { t with stage := .fallen, lease := none })
        ((hdisposed.seated hs).same rfl))

/-- A full backup gives up its slot. -/
theorem vacate_still (hs : s.Seated t) : s.Still (s.vacate t) :=
  have hcleared := (s.clearRunningFull_within t.token).still (by decide)
  hcleared.trans (moveTo_still (hcleared.seated hs) _)

/-- Then it is over. -/
theorem leave_calm (hs : s.Seated t) : s.Calm (s.leave t) := by
  unfold leave
  split
  · rename_i hjob
    refine .seatedAfter ?_ hs fun hs => dropTask_calm hs (by rw [hjob]; rfl)
    exact ((((s.dropToken_within t).andThen (releaseWake_within _)).andThen
      (scheduleNextFullJob_within _ 0)).andThen (dispose_within _ _)).still (by decide)
  all_goals exact System.Still.refl.calm hs.numbered

/-- What follows the announcement of an end. -/
theorem closeTask_calm (hs : s.Seated t) (status : Status) : s.Calm (s.closeTask t status) := by
  unfold closeTask
  split
  · rename_i hjob
    exact closeKeyValue_calm hs (by rw [hjob]; rfl) _ _
  · exact (vacate_still hs).calm hs.numbered
  all_goals exact System.Still.refl.calm hs.numbered

/-- A task that has nothing to announce is over. -/
theorem endPlain_calm (hs : s.Seated t) (hplain : t.job.restore? = none) :
    s.Calm (s.endPlain t) :=
  .seatedAfter ((s.releaseWake_within.andThen (dispose_within _ _)).still (by decide)) hs
    fun hs => dropTask_calm hs hplain

/-- The observer is told of a package. -/
theorem tellResult_still (s : System) (observer : Option String) (package : String)
    (status : Status) : s.Still (s.tellResult observer package status) :=
  (s.tellResult_within observer package status).still (by decide)

/-- A pass is done with a package. -/
theorem packageDone_calm (hs : s.Seated t) (drained : Option Drained) (observer : Option String)
    (package : String) (status : Status) :
    s.Calm (s.packageDone t drained observer package status) := by
  unfold packageDone
  refine .seatedAfter (s.tellResult_still observer package status) hs fun hs => ?_
  simp only
  split
  · exact (endKeyValue_still hs _ _).calm hs.numbered
  · exact (moveTo_still hs _).calm hs.numbered

/-- Who waits for which agent is no matter of the desk. -/
theorem withBinder_still (s : System) (binder : Binder) :
    s.Still (s.onEngine fun e => { e with binder }) :=
  (s.withBinder_within binder).still (by decide)

/-- A task joins the line of binds. -/
theorem visit_still (hs : s.Seated t) (v : Visit) : s.Still (s.visit t v) :=
  (s.withBinder_still _).trans (moveTo_still ((s.withBinder_still _).seated hs) _)

/-- An agent did not do its work. A restore goes on with the next package. -/
theorem visitFailed_calm (hs : s.Seated t) (v : Visit) (status : Status) :
    s.Calm (s.visitFailed t v status) := by
  unfold visitFailed
  cases hjob : t.job with
  | keyValue drained keyValue full observer nonIncremental =>
    exact packageDone_calm hs _ _ _ _
  | full package lastBackup => exact (endFull_still hs _ _ _).calm hs.numbered
  | restore order rest | wipe transports observer overall | clearData package =>
    exact (moveTo_still hs _).calm hs.numbered

/-- The host is asked to bind an agent. -/
theorem askHost_calm (hs : s.Seated t) (v : Visit) (ticket : Nat) :
    s.Calm (s.askHost t v ticket) := by
  unfold askHost
  simp only
  have hnote : s.Still (s.note (.agent v.package.name (.bind v.mode))) :=
    (s.note_within .agents rfl).still (by decide)
  have htimer : ∀ (s : System) (delay : Nat), s.Still (s.setTimer (.expireBind ticket) delay).2 :=
    fun s delay => (s.setTimer_within .binds rfl delay).still (by decide)
  refine .seatedAfter hnote hs fun hs => ?_
  generalize s.note (.agent v.package.name (.bind v.mode)) = s₁ at hs ⊢
  generalize hostReacts _ _ _ = answer
  split
  · refine .seatedAfter (s₁.withBinder_still answer.2) hs fun hs => ?_
    split
    · exact (moveTo_still hs _).calm hs.numbered
    · exact .seatedAfter (htimer _ _) hs fun hs => (moveTo_still hs _).calm hs.numbered
  · exact .seatedAfter (s₁.withBinder_still _) hs fun hs => visitFailed_calm hs v _

/-- The wait for an agent is registered. -/
theorem prepare_still (hs : s.Seated t) (v : Visit) : s.Still (s.prepare t v) := by
  have hregister := (s.freshToken_within.andThen (withOps_within s.freshToken.2
    (s.freshToken.2.engine.ops.act_clock (.register s.freshToken.1 (workKind v.mode)
      (.agent v.package.name) (workTimeout s.freshToken.2.engine.settings v.mode))))).still
        (by decide)
  let moved : Task :=
    { t with agentToken := if v.mode = .restore then none else some s.freshToken.1 }
  exact hregister.trans (moveTo_still (t := moved) ((hregister.seated hs).same rfl) _)

/-- A task that was canceled cancels the wait as well. -/
theorem heedCancel_still (hs : s.Seated t) (v : Visit) (token : OpToken) :
    s.Still (s.heedCancel t v token) := by
  unfold heedCancel
  split
  · have hcanceled := cancelOperation_still hs.numbered token
    exact hcanceled.trans (moveTo_still (hcanceled.seated hs) _)
  · exact moveTo_still hs _

/-- An agent is told to begin. -/
theorem giveWork_still (hs : s.Seated t) (v : Visit) (token : OpToken) :
    s.Still (s.giveWork t v token) :=
  have hgiven := (s.handWork_within t v token).still (by decide)
  hgiven.trans (moveTo_still (hgiven.seated hs) _)

/-- A bind is over. -/
theorem meetAgent_calm (hs : s.Seated t) (v : Visit) : s.Calm (s.meetAgent t v) := by
  have hleft := s.withBinder_still s.engine.binder.leave
  refine meetAgent_elim ?prepares ?fails
  case prepares =>
    exact fun _ => .seatedAfter hleft hs fun hs => (prepare_still hs v).calm hs.numbered
  case fails =>
    rintro left _ (rfl | rfl)
    · exact .seatedAfter hleft hs fun hs => visitFailed_calm hs v _
    · exact .seatedAfter (hleft.trans ((note_within _ .agents rfl).still (by decide))) hs
        fun hs => visitFailed_calm hs v _

/-- The work of an agent is over. -/
theorem collectWork_calm (hs : s.Seated t) (v : Visit) (token : OpToken) :
    s.Calm (s.collectWork t v token) := by
  refine .seatedAfter ((s.collected_within v token).still (by decide)) hs fun hs => ?_
  have hs : System.Seated _ { t with agentToken := none } := hs.same rfl
  refine collectWork_elim ?offers ?offersFull ?restores ?fails
  case offers => exact fun _ _ _ _ _ _ _ => (call_still hs _).calm hs.numbered
  case offersFull => exact fun _ _ _ => (call_still hs _).calm hs.numbered
  case restores => exact fun _ _ => (moveTo_still hs _).calm hs.numbered
  case fails => exact visitFailed_calm hs v _

/-- The first step of a task. -/
theorem openTask_calm (hs : s.Seated t) : s.Calm (s.openTask t) := by
  have hwake := s.acquireWake_within.still (by decide)
  unfold openTask
  split
  · refine .seatedAfter hwake hs fun hs => ?_
    simp only
    split
    · exact (endKeyValue_still hs _ _).calm hs.numbered
    · exact (moveTo_still hs _).calm hs.numbered
  · exact (visit_still hs _).calm hs.numbered
  · exact .seatedAfter hwake hs fun hs => (moveTo_still hs _).calm hs.numbered
  · exact .seatedAfter hwake hs fun hs => (call_still hs _).calm hs.numbered
  · exact .seatedAfter hwake hs fun hs => (call_still hs _).calm hs.numbered

/-- A pass takes what comes next. -/
theorem chooseKeyValue_calm (hs : s.Seated t) (hplain : t.job.restore? = none)
    (drained : Option Drained) (keyValue full : List String) (observer : Option String)
    (nonIncremental : Bool) :
    s.Calm (s.chooseKeyValue t drained keyValue full observer nonIncremental) := by
  have hleft : ∀ keyValue full, s.Seated
      { t with job := .keyValue drained keyValue full observer nonIncremental } :=
    fun keyValue full => hs.same (by rw [Task.entry, Task.entry, hplain]; rfl)
  refine chooseKeyValue_elim ?commits ?breaksOff ?offers ?visits ?skips
  case commits => exact (call_still hs _).calm hs.numbered
  case breaksOff => exact fun _ => (endKeyValue_still hs _ _).calm hs.numbered
  case offers => exact fun _ _ => (call_still (hleft _ _) _).calm hs.numbered
  case visits => exact fun _ _ _ => (visit_still (hleft _ _) _).calm hs.numbered
  case skips => exact fun _ _ _ _ _ => packageDone_calm (hleft _ _) _ _ _ _

/-- A wipe takes the next transport, or it is over. -/
theorem chooseInit_calm (hs : s.Seated t) (hplain : t.job.restore? = none) (names : List String)
    (observer : Option String) (overall : Status) :
    s.Calm (s.chooseInit t names observer overall) := by
  have hleft : ∀ {s' : System} rest overall lease, s'.Seated t →
      s'.Seated { t with job := .wipe rest observer overall, lease } :=
    fun _ _ _ hs => hs.same (by rw [Task.entry, Task.entry, hplain]; rfl)
  refine chooseInit_elim ?ends ?skips ?wipes
  case ends =>
    exact .seatedAfter ((s.tellFinished_within observer overall).still (by decide)) hs
      fun hs => endPlain_calm hs hplain
  case skips =>
    exact fun name rest _ => .seatedAfter (s.tellResult_still observer name .transportAborted) hs
      fun hs => (moveTo_still (hleft _ _ _ hs) _).calm hs.numbered
  case wipes =>
    exact fun name rest => .seatedAfter ((s.lend_within name _).still (by decide)) hs
      fun hs => (call_still (hleft _ _ _ hs) _).calm hs.numbered

/-- A restore takes the next package: its order is the same whatever is left of it. -/
theorem chooseRestore_still (hs : s.Seated t) {order : RestoreOrder} {rest : List String}
    (hjob : t.job = .restore order rest) (left : List String) :
    s.Still (s.chooseRestore t order left) := by
  have hsame : ∀ left, s.Seated { t with job := .restore order left } :=
    fun left => hs.same (by rw [Task.entry, Task.entry, hjob]; rfl)
  refine chooseRestore_elim ?commits ?visits ?skips
  case commits => exact call_still hs _
  case visits => exact fun _ _ => visit_still (hsame _) _
  case skips => exact fun _ => moveTo_still (hsame _) _

/-- A task takes what comes next. -/
theorem choose_calm (hs : s.Seated t) : s.Calm (s.choose t) := by
  unfold choose
  split
  · rename_i hjob
    exact chooseKeyValue_calm hs (by rw [hjob]; rfl) _ _ _ _ _
  · exact (endFull_still hs _ _ _).calm hs.numbered
  · rename_i hjob
    exact chooseInit_calm hs (by rw [hjob]; rfl) _ _ _
  · rename_i hjob
    exact endPlain_calm hs (by rw [hjob]; rfl)
  · rename_i hjob
    exact (chooseRestore_still hs hjob _).calm hs.numbered

/-- A transport was wiped, or could not be. -/
theorem initDone_calm (hs : s.Seated t) (hplain : t.job.restore? = none) (rest : List String)
    (observer : Option String) (overall : Status) (reply : Device.Reply) :
    s.Calm (s.initDone t rest observer overall reply) := by
  have hend : ∀ (s : System) (result overall : Status), s.Seated t →
      s.Calm (((s.tellResult observer t.transport result).dispose t.lease).moveTo
        { t with job := .wipe rest observer overall, lease := none } .choosing) := by
    intro s result overall hs
    refine .seatedAfter (((s.tellResult_within observer t.transport result).andThen
      (dispose_within _ t.lease)).still (by decide)) hs fun hs => ?_
    exact (moveTo_still (hs.same (by rw [Task.entry, Task.entry, hplain]; rfl)) _).calm hs.numbered
  unfold initDone
  simp only
  split
  · refine .seatedAfter ((s.resetBackupState_within t.transport).still (by decide)) hs
      fun hs => ?_
    generalize (s.resetBackupState t.transport).2 = reset at hs ⊢
    split
    · rename_i folderName _
      exact .seatedAfter ((reset.setInitPending_within false t.transport folderName).still
        (by decide)) hs fun hs => hend _ _ _ hs
    · exact hend _ _ _ hs
  · exact .seatedAfter ((s.retryInit_within t.transport).still (by decide)) hs
      fun hs => hend _ _ _ hs

/-- An answer does not change what a task was asked to do. -/
theorem heed_entry (t : Task) (reply : Device.Reply) : (t.heed reply).entry = t.entry := by
  unfold Task.heed
  split <;> rfl

/-- A transport answers a pass. -/
theorem replyKeyValue_calm (hs : s.Seated t) (drained : Option Drained)
    (observer : Option String) (call : TransportCall) (reply : Device.Reply) :
    s.Calm (s.replyKeyValue t drained observer call reply) := by
  have hs := hs.same (heed_entry t reply)
  refine replyKeyValue_elim ?done ?doneFull ?asks ?commits
  case done =>
    intro left package hleft
    have hstill : s.Still left := by
      rcases hleft with rfl | rfl | rfl
      · exact .refl
      · exact (s.writeMetadata_within _).still (by decide)
      · exact (s.recordProcessed_within _).still (by decide)
    exact .seatedAfter hstill hs fun hs => packageDone_calm hs _ _ _ _
  case doneFull =>
    exact fun package _ => .seatedAfter
      (((s.recordProcessed_within package).andThen (enqueueFull_within _ _ _)).still (by decide)) hs
      fun hs => packageDone_calm hs _ _ _ _
  case asks => exact fun _ => (call_still hs _).calm hs.numbered
  case commits => exact fun _ => (endKeyValue_still hs _ _).calm hs.numbered

/-- A transport answers a full backup. -/
theorem replyFull_calm (hs : s.Seated t) (package : String) (lastBackup : Int)
    (call : TransportCall) (reply : Device.Reply) :
    s.Calm (s.replyFull t package lastBackup call reply) := by
  have hs := hs.same (heed_entry t reply)
  refine replyFull_elim ?commits ?fails ?asks ?ends
  case commits =>
    exact .seatedAfter ((s.recordProcessed_within package).still (by decide)) hs fun hs =>
      (call_still hs _).calm hs.numbered
  case fails => exact (endFull_still hs _ _ _).calm hs.numbered
  case asks => exact fun _ => (call_still hs _).calm hs.numbered
  case ends => exact fun _ => (endFull_still hs _ _ _).calm hs.numbered

/-- The restore that ends with the next step of a task, and whether the transport had accepted
it. -/
def ending? (s : System) (t : Task) : Option (RestoreOrder × Bool) :=
  match t.job, t.stage with
  | .restore order _, .calling (.startRestore token packages) =>
    if commitStatus (s.device.answer t.transport (.startRestore token packages)).1 = .success then
      none
    else some (order, false)
  | .restore order _, .calling _ => some (order, true)
  | _, _ => none

/-- A transport answers a task. Only the last answer to a restore is left out: it ends the restore.
-/
theorem takeReply_calm (hs : s.Seated t) {call : TransportCall} (hstage : t.stage = .calling call)
    (hend : s.ending? t = none) : s.Calm (s.takeReply t call) := by
  have hanswered : s.Still (s.answered t call) := .of_eq rfl rfl rfl
  refine takeReply_elim ?keyValue ?full ?wipeGoesOn ?wiped ?clearGoesOn ?cleared ?restoreGoesOn
    ?restoreFails ?restored
  case keyValue =>
    exact fun _ _ _ _ _ _ => .seatedAfter hanswered hs fun hs =>
      replyKeyValue_calm hs _ _ _ _
  case full =>
    exact fun _ _ _ => .seatedAfter hanswered hs fun hs => replyFull_calm hs _ _ _ _
  case wipeGoesOn =>
    exact fun _ _ _ _ _ => .seatedAfter hanswered hs fun hs => (call_still hs _).calm hs.numbered
  case wiped =>
    exact fun _ _ _ hjob _ => .seatedAfter hanswered hs fun hs =>
      initDone_calm hs (by rw [hjob]; rfl) _ _ _ _
  case clearGoesOn =>
    exact fun _ _ => .seatedAfter hanswered hs fun hs => (call_still hs _).calm hs.numbered
  case cleared =>
    exact fun _ hjob => .seatedAfter hanswered hs fun hs => endPlain_calm hs (by rw [hjob]; rfl)
  case restoreGoesOn =>
    exact fun _ _ _ => .seatedAfter hanswered hs fun hs => (moveTo_still hs _).calm hs.numbered
  -- the last two are ends of a restore
  case restoreFails =>
    rintro order rest token packages hjob rfl hrefused
    simp only [ending?, hjob, hstage] at hend
    rw [if_neg hrefused] at hend
    cases hend
  case restored =>
    intro order rest hjob hother
    cases call with
    | startRestore token packages => exact absurd rfl (hother token packages)
    | _ => simp [ending?, hjob, hstage] at hend

/-- The answer to the question for a dataset is taken. -/
theorem takeDataset_calm (hs : s.Seated t) (hstage : t.stage = .calling .currentRestoreSet)
    (hend : s.ending? t = none) : s.Calm (s.takeDataset t) := by
  have hstored := (s.storeDataset_within t.transport).still (by decide)
  unfold takeDataset
  split
  · exact .seatedAfter hstored hs fun hs => (endKeyValue_still hs _ _).calm hs.numbered
  · exact .seatedAfter hstored hs fun hs => (endFull_still hs _ _ _).calm hs.numbered
  all_goals exact takeReply_calm hs hstage hend

/-- **A step of a task is calm, unless a restore ends with it.** -/
theorem stepTask_calm (hs : s.Seated t) (hend : s.ending? t = none) : s.Calm (s.stepTask t) := by
  refine stepTask_elim ?opening ?choosing ?queued ?binding ?prepared ?starting ?working ?asking
    ?calling ?closing ?leaving ?fallen
  case opening => exact fun _ => openTask_calm hs
  case choosing => exact fun _ => choose_calm hs
  case queued => exact fun v ticket _ => askHost_calm hs v ticket
  case binding => exact fun v _ _ => meetAgent_calm hs v
  case prepared => exact fun v token _ => (heedCancel_still hs v token).calm hs.numbered
  case starting => exact fun v token _ => (giveWork_still hs v token).calm hs.numbered
  case working => exact fun v token _ => collectWork_calm hs v token
  case asking => exact fun hstage => takeDataset_calm hs hstage hend
  case calling => exact fun call hstage _ => takeReply_calm hs hstage hend
  case closing => exact fun status _ => closeTask_calm hs status
  case leaving => exact fun _ => leave_calm hs
  case fallen => exact fun _ => System.Still.refl.calm hs.numbered

end System

end Holdfast
