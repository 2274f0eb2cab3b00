import Holdfast.Proofs.Engine.Affairs
import Holdfast.Proofs.Engine.FootprintWork
import Holdfast.Proofs.Engine.Stock

/-!
# What commands and calls do to the stock

- `System.handle_stock`, `System.make_stock`: of the commands and of the calls that are over at
  once, only a reset changes the stock;
- `World.news`: the news that an incident brings, and `World.meet_stock` that **this is all that an
  incident does to the stock**;
- `World.tidings`: the news along a run, and `World.live_stock`: **the stock is what the news of the
  run made of it.**
-/

namespace Holdfast

namespace System

variable {s : System}

/-- A command keeps away from the stock. -/
theorem handle_stock (s : System) (command : Command) :
    (s.handle command).stock = s.stock := by
  by_cases hstop : command = .shutdown
  · rw [hstop]
    rfl
  · refine (s.handle_within hstop).stock ?_
    cases command <;> dsimp only [Command.footprint] <;> decide

/-- A call keeps away from the stock, unless it is a reset. -/
theorem make_stock (s : System) (c : Call) :
    (c.make s).stock =
      match c with
      | .resetBackupState _ => s.stock.hear .forgets
      | _ => s.stock := by
  cases c with
  | resetBackupState transport => exact s.resetBackupState_stock transport
  | _ =>
    refine (s.make_within _).stock ?_
    dsimp only [Call.footprint]
    decide

end System

namespace World

variable {w : World}

/-- The news that an incident brings. -/
def news (w : World) : Incident → News
  | .event (.task number) =>
    match w.system.engine.tasks.find? (·.number == number) with
    | some t => if w.system.isReady t then w.system.news t else .nothing
    | none => .nothing
  | .event (.select name) =>
    if w.system.engine.policy.isTransportAllowed name w.system.engine.transports then
      if w.system.engine.transports.isRegistered name then .selects name else .selectsUnknown name
    else .nothing
  | .event (.land index) =>
    match w.flights[index]? with
    | some (.select lease) => .discloses lease.transport (w.system.datasetOf (some lease))
    | some (.sets _ _) | none => .nothing
  | .event (.call (.resetBackupState _)) => .forgets
  | _ => .nothing

/-- A selection brings its news when it begins: the transport is chosen, whether or not it can be
asked for its dataset. -/
theorem select_stock (w : World) (name : String) :
    (w.happen (.select name)).system.stock =
      w.system.stock.hear (w.news (.event (.select name))) := by
  simp only [happen, news, System.beginSelect, System.askDataset]
  by_cases hallowed :
      w.system.engine.policy.isTransportAllowed name w.system.engine.transports = true
  · simp only [if_pos hallowed]
    unfold TransportRegistry.lease
    -- only a registered transport is leased out and asked
    by_cases hknown : w.system.engine.transports.isRegistered name = true
    · have hselected : (w.system.onEngine fun e =>
          { e with transports := e.transports.select name }).engine.transports.isRegistered name =
            true := hknown
      rw [if_pos hknown]
      simp only [if_pos hselected]
      rfl
    · have hselected : ¬ (w.system.onEngine fun e =>
          { e with transports := e.transports.select name }).engine.transports.isRegistered name =
            true := hknown
      rw [if_neg hknown]
      simp only [if_neg hselected]
      rfl
  · simp only [if_neg hallowed]
    rfl

/-- When a question lands, a selection stores what the transport disclosed, and a question for
datasets stores nothing. -/
theorem land_stock (w : World) (index : Nat) :
    (w.happen (.land index)).system.stock =
      w.system.stock.hear (w.news (.event (.land index))) := by
  simp only [happen, news]
  cases w.flights[index]? with
  | none => rfl
  | some flight =>
    cases flight with
    | select lease =>
      show ((w.system.dispose (some lease)).setCurrentDataset _).2.stock = _
      rw [System.setCurrentDataset_stock, (w.system.dispose_within _).stock (by decide)]
      rfl
    | sets session lease => exact (w.system.endSets_within session lease).stock (by decide)

/-- **What an incident does to the stock.** -/
theorem meet_stock (hw : w.Orderly) (i : Incident) :
    (w.meet i).system.stock = w.system.stock.hear (w.news i) := by
  cases i with
  | shutdown => exact (w.system.send_within .loop rfl).stock (by decide)
  | event event =>
    cases event with
    | command =>
      simp only [meet, happen, news]
      split
      · rfl
      · exact System.handle_stock _ _
    | operation =>
      simp only [meet, happen, news]
      split
      · rfl
      · exact (System.handleEvent_within _ _).stock (by decide)
    | timers => exact w.system.fireTimers_within.stock (by decide)
    | clock => rfl
    | task number =>
      simp only [meet, happen, news]
      cases hfind : w.system.engine.tasks.find? (·.number == number) with
      | none => rfl
      | some t =>
        simp only
        split
        -- that scheduled full backups hold their course is known of every task of an orderly world
        · have hmem := System.mem_errands (List.mem_of_find?_eq_some hfind)
          refine w.system.stepTask_stock fun p lastBackup hjob => ?_
          exact hw.regular.course _ hmem p lastBackup t.token t.stage (System.errand_full hjob)
        · rfl
    | sendBack number => rfl
    | wake transport method => exact (w.system.wake_within transport method).stock (by decide)
    | call c =>
      refine (w.system.make_stock c).trans ?_
      cases c <;> rfl
    | select name => exact select_stock w name
    | sets session =>
      exact (congrArg System.stock (w.sets_system session)).trans
        ((w.system.beginSets_within session).stock (by decide))
    | land index => exact land_stock w index
    | drop index => exact congrArg System.stock (w.drop_system index)
    | outside disk device => rfl

/-- The news along a run, oldest first. -/
def tidings (w : World) : List Incident → List News
  | [] => []
  | i :: rest => w.news i :: (w.meet i).tidings rest

/-- The news of one incident more come last. -/
theorem tidings_concat (w : World) (incidents : List Incident) (i : Incident) :
    w.tidings (incidents ++ [i]) = w.tidings incidents ++ [(w.live incidents).news i] := by
  induction incidents generalizing w with
  | nil => rfl
  | cons j incidents ih =>
    rw [List.cons_append, tidings, ih]
    rfl

/-- **The stock is what the news of the run made of it.** -/
theorem live_stock (hw : w.Orderly) (incidents : List Incident) :
    (w.live incidents).system.stock = (w.tidings incidents).foldl Stock.hear w.system.stock := by
  induction incidents generalizing w with
  | nil => rfl
  | cons i incidents ih =>
    show ((w.meet i).live incidents).system.stock = _
    rw [ih (hw.meet i), meet_stock hw i]
    rfl

end World

end Holdfast
