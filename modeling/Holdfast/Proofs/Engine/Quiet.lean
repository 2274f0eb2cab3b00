import Holdfast.Proofs.Engine.Desk

/-!
# What leaves the desk of restores alone

Commands, events of the operation table and calls whose footprints have parts in common with the
desk of restores, and that do nothing to it all the same. They begin or cancel tasks that are no
restores, or put tasks into another order.

- `System.handle_calm`: commands that are no matter of restores;
- `System.handleEvent_still`: deadlines of operations;
- `System.sendBack_calm`, `System.wake_calm`: the order of the tasks;
- `System.cancelBackups_still`, `System.beginFull_calm`: calls.
-/

namespace Holdfast

namespace System

variable {s s' : System} {t : Task}

/-! ## Commands that are no matter of restores -/

/-- A pass is a task under a number that no restore has. -/
theorem startKeyValue_calm (hs : s.Numbered) (lease : Lease) (drained : Option Drained)
    (keyValue full : List String) (observer : Option String) (nonIncremental : Bool) :
    s.Calm (s.startKeyValue lease drained keyValue full observer nonIncremental) := by
  have hfresh := (s.freshToken_within.andThen (freshNumber_within _)).still (by decide)
  exact spawn_calm (hfresh.trans (.of_eq rfl rfl rfl)) hs (Nat.le_refl _) (Nat.lt_succ_self _) rfl

/-- The job of passes starts a pass at most. -/
theorem runKeyValue_calm (hs : s.Numbered) : s.Calm s.runKeyValue := by
  refine runKeyValue_elim ?stays ?putsOff ?drains
  case stays => exact fun _ => Still.refl.calm hs
  case putsOff => exact (s.scheduleKeyValueJob_within.still (by decide)).calm hs
  case drains =>
    intro name packages _ _
    have hstill : s.Still ((s.lend name "key-value").onEngine fun e =>
        { e with pending := s.engine.pending.drain.2 }) := .of_eq rfl rfl rfl
    exact .after hstill hs fun hs => startKeyValue_calm hs _ _ _ _ _ _

/-- A requested backup waits in a line of its own, or is a pass. -/
theorem startRequested_calm (hs : s.Numbered) (order : BackupOrder) :
    s.Calm (s.startRequested order) := by
  unfold startRequested
  split
  · exact .of_eq hs rfl rfl rfl
  · exact startKeyValue_calm hs _ _ _ _ _ _

/-- Where a pass ends, the next one is all that can begin. -/
theorem handlePassFinished_calm (hs : s.Numbered) : s.Calm s.handlePassFinished := by
  refine handlePassFinished_elim ?hears ?begins
  case hears => exact fun _ => .of_eq hs rfl rfl rfl
  case begins =>
    intro order rest _ _
    have hline : s.Still (s.onEngine fun e =>
        { e with runningPasses := e.runningPasses - 1, waitingRequests := rest }) :=
      .of_eq rfl rfl rfl
    exact .after hline hs fun hs => startRequested_calm hs order

/-- A wipe is no restore, though it borrows transports like one. -/
theorem startInit_calm (hs : s.Numbered) (transports : List String) (observer : Option String) :
    s.Calm (s.startInit transports observer) := by
  unfold startInit
  split
  · exact Still.refl.calm hs
  · exact spawn_calm (s.freshNumber_within.still (by decide)) hs (Nat.le_refl _)
      (Nat.lt_succ_self _) rfl

/-- Neither the deletion of data nor the timer of its next attempt is a matter of restores. -/
theorem startClearData_calm (hs : s.Numbered) (transport package : String) :
    s.Calm (s.startClearData transport package) := by
  refine startClearData_elim ?putsOff ?starts
  case putsOff => exact ((s.postDelayed_within .packages rfl _).still (by decide)).calm hs
  case starts =>
    exact spawn_calm (((s.lend_within transport "clear-data").andThen
      (freshNumber_within _)).still (by decide)) hs (Nat.le_refl _) (Nat.lt_succ_self _) rfl

/-- Commands that are no matter of restores. -/
theorem handle_calm (hs : s.Numbered) {command : Command} (hquiet : command.isQuiet = true) :
    s.Calm (s.handle command) := by
  cases command with
  | runKeyValue => exact runKeyValue_calm hs
  | requestBackup order => exact startRequested_calm hs order
  | passFinished => exact handlePassFinished_calm hs
  | wipe transports observer => exact startInit_calm hs transports observer
  | clearData transport package => exact startClearData_calm hs transport package
  | startRestore _ | restoreFinished _ | sessionTimeout _ | shutdown => cases hquiet
  | dataChanged | writeSchedule | snapshot =>
    -- Their footprints have no part in common with the desk.
    refine ((s.handle_within (by simp)).still ?_).calm hs
    dsimp only [Command.footprint]
    decide

/-- A deadline may cancel a restore; that changes nothing by which restores are followed. -/
theorem handleEvent_still (hs : s.Numbered) (event : OpEvent Watcher) :
    s.Still (s.handleEvent event) := by
  unfold handleEvent
  split
  · exact .refl
  · split
    · exact cancelOperation_still hs _
    · exact .refl

/-- A task goes behind the others. The desk has restores in no order. -/
theorem sendBack_calm (hs : s.Numbered) (number : Nat) : s.Calm (s.sendBack number) := by
  refine reorder_calm hs ?_
  have hperm := List.filter_append_perm (fun t : Task => decide (t.number ≠ number)) s.engine.tasks
  simpa using hperm

/-- The tasks whose calls come back go behind the others. -/
theorem wake_calm (hs : s.Numbered) (transport : String) (method : TransportMethod) :
    s.Calm (s.wake transport method) := by
  unfold wake
  split
  · refine reorder_calm hs ?_
    have hperm := List.filter_append_perm (fun t : Task => !waitsFor transport method t)
      s.engine.tasks
    simpa using hperm
  · exact Still.refl.calm hs

/-! ## Calls that are no matter of restores -/

/-- Every operation that is pending is canceled, one after the other. -/
theorem cancelBackups_still (hs : s.Numbered) : s.Still s.cancelBackups := by
  have hcancel : ∀ (tokens : List OpToken) (s : System), s.Numbered →
      s.Still (tokens.foldl cancelOperation s) := by
    intro tokens
    induction tokens with
    | nil => exact fun s _ => .refl
    | cons token rest ih =>
      intro s hs
      have hfirst := cancelOperation_still hs token
      exact hfirst.trans (ih _ (hfirst.numbered hs))
  exact (hcancel _ s hs).trans
    (((note_within _ .keyValueJob rfl).andThen (note_within _ .fullJob rfl)).still (by decide))

/-- A full backup is a task under a number that no restore has. -/
theorem startFull_calm (hs : s.Numbered) (lease : Lease) (entry : ScheduleEntry) (p : Package) :
    s.Calm (s.startFull lease entry p) := by
  have hfresh := (s.freshToken_within.andThen (freshNumber_within _)).still (by decide)
  exact spawn_calm (hfresh.trans (.of_eq rfl rfl rfl)) hs (Nat.le_refl _) (Nat.lt_succ_self _) rfl

/-- The job of full backups starts one full backup at most. -/
theorem dispatchFull_calm (hs : s.Numbered) : s.Calm s.dispatchFull.2.2 := by
  have hselect := s.selectNext_within.still (by decide)
  refine dispatchFull_elim ?waits ?putsBack ?starts
  case waits => exact hselect.calm hs
  case putsBack => exact fun _ _ _ _ => .after hselect hs fun hs => .of_eq hs rfl rfl rfl
  case starts =>
    intro entry p name _
    have hlent := (s.selectNext_within.andThen (lend_within _ name "full-backup")).still (by decide)
    exact .after hlent hs fun hs => startFull_calm hs _ entry p

/-- Whatever the job did, it may then ask for the schedule to be written and arm itself. -/
theorem beginFull_calm (hs : s.Numbered) : s.Calm s.beginFull.2 := by
  refine beginFull_elim ?start ?dispatches ?writes ?arms
  case start => exact Still.refl.calm hs
  case dispatches => exact fun _ => dispatchFull_calm hs
  case writes =>
    exact fun s' h =>
      h.trans ((s'.requestScheduleWrite_within.still (by decide)).calm h.numbered)
  case arms =>
    exact fun s' delay h =>
      h.trans (((s'.note_within .fullJob rfl).still (by decide)).calm h.numbered)

/-- The full backup that runs is canceled. -/
theorem endFullNow_still (hs : s.Numbered) : s.Still s.endFullNow.2 := by
  unfold endFullNow
  split
  · exact cancelOperation_still hs _
  · exact .refl

end System

end Holdfast
