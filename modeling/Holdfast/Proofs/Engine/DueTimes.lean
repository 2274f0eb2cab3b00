import Holdfast.Proofs.Engine.Slot
import Mathlib.Data.List.Infix

/-!
# Due times

The engine computes delays and due times with machine words. Settings that pass the check can still
make a delay so long that a sum leaves the range of its words. The sum over which a full backup that
failed computes its next due time then breaks the backup, and a difference to the next due time that
is out of range breaks off the call that asks for it.

- `Settings.Timely`: the settings for which this never happens, whatever is drawn, and
  `Settings.timely_iff`, which has that no weaker condition would do;
- `System.ExactTimes`: every time that the engine computes is what it would be without words;
- `Schedule.Change.Made`: the changes that the engine makes to its schedule, and
  `World.meet_changes`: **every incident changes the schedule by such changes**;
- `World.live_upright`: with timely settings no full backup ever breaks down;
- `World.due_times`: **with timely settings all times are exact, and what is put off or tried again
  is due in the future**;
- `World.retry_breaks_down`: without them a backup that failed can break down, and then its package
  is in no queue and nobody gives up the slot.
-/

namespace Holdfast

/-! ## Words -/

theorem wrapU64_of_fits {n : Nat} (h : n ≤ maxU64) : wrapU64 n = n :=
  Nat.mod_eq_of_lt (Nat.lt_succ_of_le h)

theorem wrapU64_le (n : Nat) : wrapU64 n ≤ maxU64 := Nat.le_of_lt_succ (Nat.mod_lt _ (by decide))

/-- What is drawn is below its bound, if there is any number below it. -/
theorem Device.drawn_le_pred (bound : Nat) (chance : List Nat) :
    drawn bound chance ≤ bound - 1 := by
  unfold drawn
  split
  · exact Nat.le_refl _
  · exact Nat.zero_le _
  · rename_i hbound
    exact Nat.le_sub_one_of_lt (Nat.mod_lt _ (Nat.pos_of_ne_zero hbound))

/-! ## Timely settings -/

/-- The clocks for which times are exact. -/
def InEpoch (now : Int) : Prop := 0 ≤ now ∧ now ≤ 4611686018427387904

instance (now : Int) : Decidable (InEpoch now) := inferInstanceAs (Decidable (_ ∧ _))

/-- Settings whose delays fit into their words, whatever is drawn. -/
structure Settings.Timely (s : Settings) : Prop where
  /-- The longest delay of the key-value job is an unsigned word. -/
  job : s.keyValueInterval + (s.keyValueFuzz - 1) ≤ maxU64
  /-- The longest back-off is an unsigned word. -/
  backoff : s.busyMin + (s.busyFuzz - 1) ≤ maxU64
  /-- Either every back-off takes up at most half of the range of signed words, or none is a signed
  word; half of the range stands for it then. -/
  retry : (s.busyMin + (s.busyFuzz - 1) : Nat) ≤ maxI64 / 2 ∨ maxI64 < s.busyMin

/-- The delay before a full backup that failed is tried again, without words. -/
def exactDelay (delay : Nat) : Int := if (delay : Int) ≤ maxI64 then delay else maxI64 / 2

theorem System.retryDelay?_eq {least fuzz : Nat} (h : least + fuzz ≤ maxU64) :
    retryDelay? least fuzz = some (exactDelay (least + fuzz)) := by
  rw [retryDelay?, if_neg (Nat.not_lt.2 h), exactDelay]
  split <;> rfl

namespace Settings.Timely

variable {settings : Settings} {now : Int} {fuzz : Nat}

theorem backoff_fits (h : settings.Timely) (hfuzz : fuzz ≤ settings.busyFuzz - 1) :
    settings.busyMin + fuzz ≤ maxU64 := by
  have hmost := h.backoff
  omega

/-- The delay of a retry is at most half of the range. -/
theorem exactDelay_le (h : settings.Timely) (hfuzz : fuzz ≤ settings.busyFuzz - 1) :
    exactDelay (settings.busyMin + fuzz) ≤ maxI64 / 2 := by
  unfold exactDelay
  rcases h.retry with hshort | hlong
  · split
    · omega
    · exact Int.le_refl _
  · exact Int.le_of_eq (if_neg (by omega))

/-- Every retry has a due time that a clock can show. -/
theorem retryAt?_eq (h : settings.Timely) (hnow : InEpoch now)
    (hfuzz : fuzz ≤ settings.busyFuzz - 1) :
    System.retryAt? now settings.busyMin fuzz =
      some (now + exactDelay (settings.busyMin + fuzz)) := by
  have hhalf : maxI64 / 2 = 4611686018427387903 := by decide
  have hmax : maxI64 = 9223372036854775807 := rfl
  have hle := h.exactDelay_le hfuzz
  obtain ⟨-, hfuture⟩ := hnow
  rw [System.retryAt?, System.retryDelay?_eq (h.backoff_fits hfuzz)]
  exact if_pos (by omega)

theorem busyUntil_eq (h : settings.Timely) (hnow : InEpoch now)
    (hfuzz : fuzz ≤ settings.busyFuzz - 1) :
    busyUntil now settings.busyMin fuzz = min maxI64 (now + (settings.busyMin + fuzz : Nat)) := by
  obtain ⟨hpast, hfuture⟩ := hnow
  have hmin : minI64 ≤ 0 := by decide
  have hmax : (0 : Int) ≤ maxI64 := by decide
  rw [busyUntil, wrapU64_of_fits (h.backoff_fits hfuzz)]
  unfold satAdd
  split <;> omega

end Settings.Timely

/-- **Timely settings are those with which no sum overflows**, at any time of the epoch and
whatever is drawn. -/
theorem Settings.timely_iff (settings : Settings) :
    settings.Timely ↔
      (∀ fuzz ≤ settings.keyValueFuzz - 1,
        wrapU64 (settings.keyValueInterval + fuzz) = settings.keyValueInterval + fuzz) ∧
      ∀ fuzz ≤ settings.busyFuzz - 1,
        wrapU64 (settings.busyMin + fuzz) = settings.busyMin + fuzz ∧
        ∀ now, InEpoch now → System.retryAt? now settings.busyMin fuzz ≠ none := by
  constructor
  · intro h
    refine ⟨fun fuzz hfuzz => ?_, fun fuzz hfuzz => ⟨?_, fun now hnow => ?_⟩⟩
    · have hmost := h.job
      exact wrapU64_of_fits (by omega)
    · exact wrapU64_of_fits (h.backoff_fits hfuzz)
    · rw [h.retryAt?_eq hnow hfuzz]
      nofun
  · rintro ⟨hjob, hbackoff⟩
    have hfits : ∀ fuzz ≤ settings.busyFuzz - 1, settings.busyMin + fuzz ≤ maxU64 := by
      intro fuzz hfuzz
      rw [← (hbackoff fuzz hfuzz).1]
      exact wrapU64_le _
    refine ⟨?_, hfits _ (Nat.le_refl _), ?_⟩
    · rw [← hjob _ (Nat.le_refl _)]
      exact wrapU64_le _
    · by_contra hnot
      have hhalf : maxI64 / 2 = 4611686018427387903 := by decide
      have hmax : maxI64 = 9223372036854775807 := rfl
      obtain ⟨hlong, hword⟩ := not_or.1 hnot
      -- some back-off is a signed word but takes up more than half of the range
      obtain ⟨fuzz, hfuzz, hmore, hless⟩ : ∃ fuzz ≤ settings.busyFuzz - 1,
          maxI64 / 2 < (settings.busyMin + fuzz : Nat) ∧
          ((settings.busyMin + fuzz : Nat) : Int) ≤ maxI64 := by
        by_cases hleast : maxI64 / 2 < settings.busyMin
        · exact ⟨0, Nat.zero_le _, by omega, by omega⟩
        · exact ⟨4611686018427387904 - settings.busyMin, by omega, by omega, by omega⟩
      refine (hbackoff fuzz hfuzz).2 4611686018427387904 ⟨by decide, by decide⟩ ?_
      rw [System.retryAt?, System.retryDelay?_eq (hfits fuzz hfuzz), exactDelay, if_pos hless]
      exact if_neg (by omega)

/-! ## The changes of the schedule -/

namespace Schedule

/-- The changes that the engine makes to its schedule at a time. -/
inductive Change.Made (settings : Settings) (now : Int) : Change → Prop where
  /-- A package was backed up or installed. -/
  | enters (package : String) : Made settings now (.enqueue package now)
  | drops (package : String) : Made settings now (.dequeue package)
  /-- A package is busy. -/
  | putsOff (package : String) (lastBackup : Int) {fuzz : Nat} : fuzz ≤ settings.busyFuzz - 1 →
    Made settings now (.defer package lastBackup (busyUntil now settings.busyMin fuzz))
  /-- The backup of a package failed. -/
  | retries (package : String) (lastBackup : Int) {dueAt : Int} {fuzz : Nat} :
    fuzz ≤ settings.busyFuzz - 1 → System.retryAt? now settings.busyMin fuzz = some dueAt →
    Made settings now (.defer package lastBackup dueAt)

/-- One schedule comes from another by such changes. -/
def ChangedBy (settings : Settings) (now : Int) (q q' : Schedule) : Prop :=
  ∃ changes, q' = q.after changes ∧ ∀ change ∈ changes, Change.Made settings now change

variable {settings : Settings} {now : Int} {q q' q'' : Schedule}

theorem ChangedBy.refl : ChangedBy settings now q q :=
  ⟨[], rfl, fun _ h => absurd h List.not_mem_nil⟩

theorem ChangedBy.of_change {change : Change} (h : Change.Made settings now change) :
    ChangedBy settings now q (change.apply q) := by
  refine ⟨[change], rfl, fun other hother => ?_⟩
  rw [List.mem_singleton.1 hother]
  exact h

theorem ChangedBy.trans (h : ChangedBy settings now q q') (h' : ChangedBy settings now q' q'') :
    ChangedBy settings now q q'' := by
  obtain ⟨changes, rfl, hmade⟩ := h
  obtain ⟨more, rfl, hmore⟩ := h'
  refine ⟨changes ++ more, (q.after_append changes more).symm, fun change hchange => ?_⟩
  rcases List.mem_append.1 hchange with hmem | hmem
  · exact hmade change hmem
  · exact hmore change hmem

/-- With timely settings a package is put off to the future. -/
theorem Change.Made.later {package : String} {lastBackup dueAt : Int}
    (h : Change.Made settings now (.defer package lastBackup dueAt)) (htimely : settings.Timely)
    (hpositive : 0 < settings.busyMin) (hnow : InEpoch now) : now < dueAt ∧ dueAt ≤ maxI64 := by
  have hmax : maxI64 = 9223372036854775807 := rfl
  have hhalf : maxI64 / 2 = 4611686018427387903 := by decide
  obtain ⟨hpast, hfuture⟩ := hnow
  cases h with
  | putsOff _ _ hfuzz =>
    rw [htimely.busyUntil_eq ⟨hpast, hfuture⟩ hfuzz]
    omega
  | @retries _ _ _ fuzz hfuzz hretry =>
    have hle := htimely.exactDelay_le hfuzz
    have hpos : 0 < exactDelay (settings.busyMin + fuzz) := by
      unfold exactDelay
      split <;> omega
    rw [htimely.retryAt?_eq ⟨hpast, hfuture⟩ hfuzz] at hretry
    cases hretry
    omega

/-- A queue in order whose due times are words. -/
structure Dated (interval : Nat) (q : Schedule) : Prop where
  ordered : Ordered interval q
  fits : ∀ e ∈ q.entries, e.dueAt ≤ maxI64

theorem dueAfter_le (interval : Nat) (lastBackup : Int) :
    dueAfter interval lastBackup ≤ maxI64 := by
  have : (0 : Int) ≤ maxI64 := by decide
  unfold dueAfter
  split <;> omega

theorem Dated.apply {interval : Nat} (h : Dated interval q) {change : Change}
    (hmade : Change.Made settings now change) (htimely : settings.Timely)
    (hpositive : 0 < settings.busyMin) (hnow : InEpoch now) :
    Dated interval (change.apply q) := by
  have hlater : ∀ package lastBackup dueAt, change = .defer package lastBackup dueAt →
      0 ≤ dueAt ∧ dueAt ≤ maxI64 := by
    rintro package lastBackup dueAt rfl
    obtain ⟨hdue, hfits⟩ := hmade.later htimely hpositive hnow
    exact ⟨Int.le_of_lt (Int.lt_of_le_of_lt hnow.1 hdue), hfits⟩
  have hvalid : change.Valid := by
    cases change with
    | defer package lastBackup dueAt => exact (hlater _ _ _ rfl).1
    | enqueue | dequeue | dequeueHead => trivial
  refine ⟨h.ordered.apply hvalid, fun e he => ?_⟩
  rcases (h.ordered.mem_apply change e).1 he with hentry | ⟨hold, -⟩
  · cases change with
    | enqueue package lastBackup =>
      cases hentry
      exact dueAfter_le interval lastBackup
    | defer package lastBackup dueAt =>
      cases hentry
      exact (hlater _ _ _ rfl).2
    | dequeue | dequeueHead => cases hentry
  · exact h.fits e hold

theorem Dated.changed {interval : Nat} (h : Dated interval q)
    (hchanged : ChangedBy settings now q q') (htimely : settings.Timely)
    (hpositive : 0 < settings.busyMin) (hnow : InEpoch now) : Dated interval q' := by
  obtain ⟨changes, rfl, hmade⟩ := hchanged
  induction changes generalizing q with
  | nil => exact h
  | cons change changes ih =>
    have hfirst := h.apply (hmade change List.mem_cons_self) htimely hpositive hnow
    exact ih hfirst fun other hother => hmade other (List.mem_cons_of_mem change hother)

theorem Reconciled.dated {interval : Nat} {pairs : List (String × Int)} {eligible : List String}
    (h : Reconciled interval pairs eligible q) : Dated interval q := by
  refine ⟨h.ordered, fun e he => ?_⟩
  rw [h.entry he]
  exact dueAfter_le interval _

end Schedule

open Schedule

/-! ## The full-backup job -/

/-- The choice drops packages and puts packages off. -/
theorem selectFull_changes (ctx : SelectionContext) (q : Schedule) (device : Device)
    (changed : Bool) (fuel : Nat) :
    ChangedBy ctx.settings ctx.now q (selectFull ctx q device changed fuel).schedule := by
  induction fuel generalizing q device changed with
  | zero => exact .refl
  | succ fuel ih =>
    -- each round drops the head or puts it off, and goes on with the rest
    have hdrop : ∀ package, ChangedBy ctx.settings ctx.now q (q.dequeue package) :=
      fun package => .of_change (.drops package)
    unfold selectFull
    split
    · exact .refl
    · rename_i head _
      split
      · exact .refl
      · split
        · exact .refl
        · split
          · exact (hdrop head.package).trans (ih _ _ _)
          · split
            · exact (hdrop head.package).trans (ih _ _ _)
            · split
              · have hfuzz := Device.drawn_le_pred ctx.settings.busyFuzz device.chance
                have hmade : Change.Made ctx.settings ctx.now
                    (.defer head.package head.lastBackup _) :=
                  .putsOff head.package head.lastBackup hfuzz
                have hputOff := ChangedBy.of_change (q := q) hmade
                simp only [Device.draw_eq]
                exact hputOff.trans (ih _ _ _)
              · exact hdrop head.package

/-- Nothing is chosen while the transport is not ready. -/
theorem selectFull_ready {ctx : SelectionContext} {q : Schedule} {device : Device}
    {changed : Bool} {fuel : Nat} {entry : ScheduleEntry} {p : Package}
    (h : (selectFull ctx q device changed fuel).selection = .run entry p) :
    ctx.ready = true := by
  induction fuel generalizing q device changed with
  | zero => cases h
  | succ fuel ih =>
    unfold selectFull at h
    split at h
    · cases h
    · split at h
      · cases h
      · rename_i hready
        simpa using hready

namespace System

/-- A transport that is ready can be leased. -/
theorem leaseCurrent_of_ready {s : System} (h : s.transportReady = true) (caller : String) :
    (s.engine.transports.leaseCurrent caller).1 ≠ none := by
  unfold transportReady at h
  unfold TransportRegistry.leaseCurrent TransportRegistry.lease
  split at h
  · rename_i name hselected
    simp only [Bool.and_eq_true] at h
    rw [hselected]
    simp only
    rw [if_pos h.1.1]
    nofun
  · cases h

@[simp] theorem requestScheduleWrite_schedule (s : System) :
    s.requestScheduleWrite.engine.schedule = s.engine.schedule := by
  unfold requestScheduleWrite post
  split
  · rfl
  · split <;> rfl

theorem dispatchFull_changes (s : System) :
    ChangedBy s.engine.settings s.now s.engine.schedule s.dispatchFull.2.2.engine.schedule := by
  have hchanges := selectFull_changes ⟨s.now, s.transportReady, s.engine.settings⟩
    s.engine.schedule s.device false (s.engine.schedule.entries.length + 1)
  have hready : ∀ entry p, s.selectNext.1 = .run entry p → s.transportReady = true :=
    fun entry p hrun => selectFull_ready hrun
  have hschedule : s.selectNext.2.2.engine.schedule = (selectFull
    ⟨s.now, s.transportReady, s.engine.settings⟩ s.engine.schedule s.device false
      (s.engine.schedule.entries.length + 1)).schedule := rfl
  rw [← hschedule] at hchanges
  refine dispatchFull_elim ?waits ?putsBack ?starts
  case waits => exact hchanges
  case putsBack =>
    exact fun entry p hrun hnone => absurd hnone (leaseCurrent_of_ready (hready entry p hrun) _)
  case starts => exact fun _ _ _ _ => hchanges

/-- What the full-backup job does to the schedule. -/
theorem beginFull_changes (s : System) :
    ChangedBy s.engine.settings s.now s.engine.schedule s.beginFull.2.engine.schedule := by
  refine beginFull_elim ?start ?dispatches ?writes ?arms
  case start => exact .refl
  case dispatches => exact fun _ => s.dispatchFull_changes
  case writes =>
    intro s' hchanges
    rwa [requestScheduleWrite_schedule]
  case arms => exact fun _ _ hchanges => hchanges

end System

/-! ## The schedule along a run -/

/-- What a step of a task does to the schedule. -/
theorem Agenda.Turn.changes {a a' : Agenda} {assents : Prop} {number : Nat} {errand : Errand}
    (h : Turn a assents number errand a') : ChangedBy a.settings a.now a.schedule a'.schedule := by
  cases h with
  | stays _ hheeds | moves _ hheeds => rcases hheeds with rfl | ⟨_, rfl⟩ <;> exact .refl
  | wipes | quits | leaves => exact .refl
  | files package =>
    rw [reschedule, request_schedule]
    exact .of_change (.enters package)
  | @ends drained _ status disk _ =>
    obtain ⟨_, heq, -⟩ := a.endPass_eq number drained status disk
    rw [heq]
    exact .refl
  | departs =>
    unfold closePass
    split <;> exact .refl
  | @closes p lastBackup token _ status _ _ =>
    have hseat : ∀ (a : Agenda) (q : Schedule) (errand : Errand),
        ((a.reschedule q).seat number errand).schedule = q := fun _ _ _ => request_schedule _
    unfold endFull
    split
    · rw [hseat]
      exact .of_change (.enters p.name)
    · split
      · rename_i dueAt hretry
        rw [putBack, hseat]
        exact .of_change
          (.retries p.name lastBackup (Device.drawn_le_pred a.settings.busyFuzz a.chance) hretry)
      · exact .refl
  | @vacates _ _ token _ =>
    obtain ⟨_, heq⟩ := a.vacate_eq token
    rw [heq]
    exact .refl

namespace World

variable {w : World}

/-- **What an incident does to the schedule.** -/
theorem meet_changes (hw : w.Orderly) (i : Incident) :
    ChangedBy w.system.engine.settings w.system.now w.system.engine.schedule
      (w.meet i).system.engine.schedule := by
  have hsame : ∀ a : Agenda, a.schedule = w.system.agenda.schedule →
      ChangedBy w.system.agenda.settings w.system.agenda.now w.system.agenda.schedule a.schedule :=
    fun a heq => heq ▸ .refl
  have haffair := hw.affair i
  show ChangedBy w.system.agenda.settings w.system.agenda.now w.system.agenda.schedule
    (w.meet i).system.agenda.schedule
  generalize hafter : (w.meet i).system.agenda = a at haffair
  cases haffair with
  | full _ =>
    rw [← hafter]
    exact w.system.beginFull_changes
  | @adds c package p replacing _ _ =>
    obtain ⟨_, _, heq⟩ := w.system.agenda.add_eq package p replacing
    rw [heq]
    simp only
    split
    · exact .of_change (.enters package)
    · exact .of_change (.drops package)
  | turn _ _ hturn => exact hturn.changes
  | ticks _ =>
    refine hsame _ ?_
    unfold Agenda.post
    split <;> rfl
  | cancelsAll numbers =>
    obtain ⟨_, heq⟩ := w.system.agenda.cancelAll_eq numbers
    exact hsame _ (by rw [heq])
  | rules _ hrules => cases hrules <;> exact .refl
  | removes _ replacing _ => cases replacing <;> exact .refl
  | idle | reorders | begins | stages | sleeps | postpones | starts | recounts | serves | writes
  | stops | cancels | saves | resets | registers | unregisters | outside => exact .refl

/-- The clock stays in the epoch along a run. -/
def InTime (w : World) (incidents : List Incident) : Prop :=
  ∀ before, before <+: incidents → InEpoch (w.live before).system.now

/-- The due times of the schedule are words after every run with timely settings. -/
theorem live_dated (hw : w.Orderly) (htimely : w.system.engine.settings.Timely)
    (hpositive : 0 < w.system.engine.settings.busyMin) {interval : Nat}
    (hstart : Dated interval w.system.engine.schedule) {incidents : List Incident}
    (hclock : w.InTime incidents) :
    Dated interval (w.live incidents).system.engine.schedule := by
  induction incidents using List.reverseRecOn with
  | nil => exact hstart
  | append_singleton incidents i ih =>
    have hbefore : Dated interval (w.live incidents).system.engine.schedule :=
      ih fun before hfirst => hclock before (hfirst.trans (List.prefix_append _ _))
    have hsettings := hw.live_settings incidents
    rw [live_concat]
    refine hbefore.changed (meet_changes (hw.live incidents) i) ?_ ?_
      (hclock incidents (List.prefix_append _ _))
    · rw [hsettings]
      exact htimely
    · rw [hsettings]
      exact hpositive

/-- With timely settings every retry has a due time. -/
theorem retryAt?_ne_none (htimely : w.system.engine.settings.Timely)
    (hnow : InEpoch w.system.now) : w.system.agenda.retryAt? ≠ none := by
  have hretry : w.system.agenda.retryAt? = some _ :=
    htimely.retryAt?_eq hnow (Device.drawn_le_pred _ _)
  rw [hretry]
  nofun

/-- No scheduled full backup has broken down. -/
def Upright (w : World) : Prop :=
  ∀ number p lastBackup token, (number, .full p lastBackup token .fallen) ∉ w.system.agenda.errands

/-- No incident breaks a scheduled full backup. -/
theorem Upright.meet (h : w.Upright) (hw : w.Orderly)
    (htimely : w.system.engine.settings.Timely) (hnow : InEpoch w.system.now) (i : Incident) :
    (w.meet i).Upright := by
  intro number p lastBackup token hmem
  cases (hw.affair i).onFulls.step hw.numbered.distinct hmem with
  | stays _ hold _ => exact h number p lastBackup _ hold
  | goes _ _ _ _ hopen _ _ => cases hopen
  | falls _ _ _ _ _ hretry => exact retryAt?_ne_none htimely hnow hretry

/-- No scheduled full backup breaks down along a run with timely settings. -/
theorem live_upright (hw : w.Orderly) (htimely : w.system.engine.settings.Timely)
    (hstart : w.Upright) {incidents : List Incident} (hclock : w.InTime incidents) :
    (w.live incidents).Upright := by
  induction incidents using List.reverseRecOn with
  | nil => exact hstart
  | append_singleton incidents i ih =>
    have hbefore : (w.live incidents).Upright :=
      ih fun before hfirst => hclock before (hfirst.trans (List.prefix_append _ _))
    rw [live_concat]
    refine hbefore.meet (hw.live incidents) ?_ (hclock incidents (List.prefix_append _ _)) i
    rw [hw.live_settings incidents]
    exact htimely

end World

/-! ## Exact times -/

namespace System

/-- Every time that the engine computes is exact: no sum and no difference leaves the range of its
words. -/
structure ExactTimes (s : System) : Prop where
  keyValueJob : s.scheduleKeyValueJob =
    (s.draw s.engine.settings.keyValueFuzz).2.note (.keyValueJob
      (s.engine.settings.keyValueInterval + (s.draw s.engine.settings.keyValueFuzz).1))
  /-- The call that arms the full-backup job does not break off. -/
  fullJob : ∀ latency, s.nextDueFits = true ∧ s.scheduleNextFullJob latency =
    match s.engine.schedule.nextDue? with
    | none => s
    | some dueAt => s.note (.fullJob (max latency (dueAt - s.now).toNat))
  /-- A busy package is put off by the whole back-off, at most to the end of the range. -/
  busy : ∀ fuzz ≤ s.engine.settings.busyFuzz - 1,
    wrapU64 (s.engine.settings.busyMin + fuzz) = s.engine.settings.busyMin + fuzz ∧
    busyUntil s.now s.engine.settings.busyMin fuzz =
      min maxI64 (s.now + (s.engine.settings.busyMin + fuzz : Nat))
  /-- A backup that failed is tried again after the whole back-off, or after half of the range when
  the back-off is no signed word. It does not break down. -/
  retry : ∀ t package lastBackup status, s.retryFull t package lastBackup status =
    ((s.draw s.engine.settings.busyFuzz).2.deferFull package lastBackup
      (s.now + exactDelay (s.engine.settings.busyMin +
        (s.draw s.engine.settings.busyFuzz).1))).moveTo t (.closing status)

theorem draw_le (s : System) (bound : Nat) : (s.draw bound).1 ≤ bound - 1 := by
  unfold draw
  rw [Device.draw_eq]
  exact Device.drawn_le_pred bound s.device.chance

theorem draw_now (s : System) (bound : Nat) : (s.draw bound).2.now = s.now := by
  unfold draw
  rw [Device.draw_eq]
  rfl

theorem exactTimes {s : System} (htimely : s.engine.settings.Timely) (hnow : InEpoch s.now)
    {interval : Nat} (hdated : Dated interval s.engine.schedule) : s.ExactTimes where
  keyValueJob := by
    have hfuzz := s.draw_le s.engine.settings.keyValueFuzz
    have hmost := htimely.job
    have hfits : s.engine.settings.keyValueInterval +
        (s.draw s.engine.settings.keyValueFuzz).1 ≤ maxU64 := by omega
    show (s.draw s.engine.settings.keyValueFuzz).2.note (.keyValueJob
      (wrapU64 (s.engine.settings.keyValueInterval +
        (s.draw s.engine.settings.keyValueFuzz).1))) = _
    rw [wrapU64_of_fits hfits]
  fullJob := by
    intro latency
    have hfits : s.nextDueFits = true := by
      unfold nextDueFits
      rw [Option.all_eq_true]
      rintro dueAt hdue
      obtain ⟨e, hhead, rfl⟩ := Option.map_eq_some_iff.1 hdue
      have hword := hdated.fits e (List.mem_of_mem_head? hhead)
      obtain ⟨hpast, -⟩ := hnow
      exact decide_eq_true (by omega)
    refine ⟨hfits, ?_⟩
    unfold scheduleNextFullJob
    cases s.engine.schedule.nextDue? with
    | none => rfl
    | some dueAt => exact if_pos hfits
  busy := fun fuzz hfuzz =>
    ⟨wrapU64_of_fits (htimely.backoff_fits hfuzz), htimely.busyUntil_eq hnow hfuzz⟩
  retry := by
    intro t package lastBackup status
    have hexact := htimely.retryAt?_eq hnow (s.draw_le s.engine.settings.busyFuzz)
    have hretry : retryAt? (s.draw s.engine.settings.busyFuzz).2.now
        (s.draw s.engine.settings.busyFuzz).2.engine.settings.busyMin
        (s.draw s.engine.settings.busyFuzz).1 = some (s.now + exactDelay
          (s.engine.settings.busyMin + (s.draw s.engine.settings.busyFuzz).1)) := by
      rw [draw_now]
      exact hexact
    unfold retryFull
    simp only [hretry]

end System

theorem Settings.busyMin_pos {settings : Settings} (h : settings.validate = .ok ()) :
    0 < settings.busyMin := by
  unfold validate at h
  split at h
  · cases h
  · split at h
    · cases h
    · rename_i hnone
      have hbusy := List.find?_eq_none.1 hnone ("busy_backoff_min_ms", settings.busyMin)
        (by simp [positiveTimes])
      simp only [beq_iff_eq] at hbusy
      exact Nat.pos_of_ne_zero hbusy

namespace World

/-- The schedule at the start. -/
theorem opened_dated {settings : Settings} {disk : Disk} {device : Device} {s : System}
    (h : System.start settings disk device.fresh = .ok s) :
    Dated settings.fullInterval (opened s).system.engine.schedule := by
  obtain ⟨_, _, schedule, _, _, changed, hreconciled, hagenda⟩ := System.start_agenda h
  obtain ⟨_, _, _, _, heq⟩ := Agenda.wakeUp_eq _ changed
  have hschedule : (opened s).system.engine.schedule = schedule := by
    show s.agenda.schedule = schedule
    rw [hagenda, heq]
  rw [hschedule]
  exact hreconciled.dated

/-- **Times are exact and back-offs lie in the future**, with timely settings and a clock that stays
in the epoch. Every due time is a word that is not negative. What the engine computes from its
settings, its clock and its schedule is exact, whatever else has changed in the middle of an
incident. Each incident changes the schedule by entering packages at the present time, dropping
packages and putting packages off to the future. No full backup breaks down. And when one is done
with its package without a commit, that is due again in the future. -/
theorem due_times {settings : Settings} {disk : Disk} {device : Device} {s : System}
    (h : System.start settings disk device.fresh = .ok s) (htimely : settings.Timely)
    {incidents : List Incident} (hclock : (opened s).InTime incidents) :
    let w := (opened s).live incidents
    (∀ e ∈ w.system.engine.schedule.entries, 0 ≤ e.dueAt ∧ e.dueAt ≤ maxI64) ∧
    (∀ s' : System, s'.engine.settings = settings → s'.now = w.system.now →
      s'.engine.schedule = w.system.engine.schedule → s'.ExactTimes) ∧
    (∀ i, ∃ changes, (w.meet i).system.engine.schedule = w.system.engine.schedule.after changes ∧
      ∀ change ∈ changes, Change.Made settings w.system.now change ∧
        ∀ package lastBackup dueAt, change = .defer package lastBackup dueAt →
          w.system.now < dueAt ∧ dueAt ≤ maxI64) ∧
    (∀ t ∈ w.system.engine.tasks, t.isFull = true → t.stage ≠ .fallen) ∧
    ∀ i, ∀ t ∈ w.system.engine.tasks, ∀ p lastBackup, t.job = .full p lastBackup →
      t.stage.isDone = false → ∀ t' ∈ (w.meet i).system.engine.tasks, t'.number = t.number →
      t'.stage.isDone = true → ¬ (opened s).Committed (incidents ++ [i]) t.number p.name →
      (∃ status, t'.stage = .closing status) ∧
      ∃ e, (w.meet i).system.engine.schedule.get? p.name = some e ∧
        e.lastBackup = lastBackup ∧ w.system.now < e.dueAt ∧ e.dueAt ≤ maxI64 := by
  have hopened := opened_orderly h
  have hw := hopened.live incidents
  have hpositive := Settings.busyMin_pos (System.start_cases h).1
  have hfirst : (opened s).system.engine.settings = settings := (System.start_idle h).1
  have hsettings := (hopened.live_settings incidents).trans hfirst
  have hnow := hclock incidents List.prefix_rfl
  have hdated : Dated settings.fullInterval ((opened s).live incidents).system.engine.schedule :=
    live_dated hopened (by rwa [hfirst]) (by rwa [hfirst]) (opened_dated h) hclock
  intro w
  have hupright : w.Upright := by
    refine live_upright hopened (by rwa [hfirst]) (fun _ _ _ _ hmem => ?_) hclock
    have hnone : (opened s).system.agenda.errands = [] := (System.start_idle h).2.2.1
    rw [hnone] at hmem
    cases hmem
  refine ⟨fun e he => ⟨hdated.ordered.nonneg e he, hdated.fits e he⟩,
    fun s' hsame hclock' hschedule => ?_, fun i => ?_, fun t ht hfull hfallen => ?_,
    fun i t ht p lastBackup hjob hopen t' ht' hnumber hdone hno => ?_⟩
  · exact System.exactTimes (hsame ▸ htimely) (hclock' ▸ hnow) (hschedule ▸ hdated)
  · obtain ⟨changes, hafter, hmade⟩ := meet_changes hw i
    rw [hsettings] at hmade
    refine ⟨changes, hafter, fun change hchange => ⟨hmade change hchange, ?_⟩⟩
    rintro package lastBackup dueAt rfl
    exact (hmade _ hchange).later htimely hpositive hnow
  · obtain ⟨p, lastBackup, hjob⟩ := Task.isFull_iff.1 hfull
    have hmem := System.mem_errands ht
    rw [System.errand_full hjob, hfallen] at hmem
    exact hupright _ _ _ _ hmem
  · have hmem := System.mem_errands ht
    rw [System.errand_full hjob] at hmem
    obtain ⟨stage, hstill⟩ :=
      ((hw.affair i).onFulls.next hw.numbered.distinct hmem).resolve_left fun hleaving => by
        rw [hleaving] at hopen
        cases hopen
    have herrand := (hw.meet i).numbered.distinct.eq (hnumber ▸ System.mem_errands ht') hstill
    obtain ⟨-, -, rfl⟩ := errand_eq_full herrand
    rcases (live_recorded hopened (opened_fulls h) incidents).done hw hmem hstill hopen hdone with
      ⟨-, hretry, -⟩ | ⟨hclosing, -, e, hget, -, hentry⟩
    · exact absurd hretry (retryAt?_ne_none (by rwa [hsettings]) hnow)
    rw [if_neg hno] at hentry
    obtain ⟨hlast, hretry⟩ := hentry
    -- the retry of the agenda is one of the changes that put a package off
    have hmade : Change.Made settings w.system.now (.defer p.name lastBackup e.dueAt) := by
      rw [← hsettings]
      exact .retries p.name lastBackup (Device.drawn_le_pred _ _) hretry
    exact ⟨hclosing, e, hget, hlast, hmade.later htimely hpositive hnow⟩

/-- A backup at the request of the job that is canceled, under a clock that stands. -/
theorem due_times_canceled :
    ∃ s, System.start { busyMin := 100, busyFuzz := 10 } {} deviceOfFiles.fresh = .ok s ∧
      ({ busyMin := 100, busyFuzz := 10 } : Settings).Timely ∧ (opened s).InTime filesCanceled ∧
      ((opened s).live filesCanceled).system.ExactTimes ∧
      ∃ e, ((opened s).live (filesCanceled ++ [.event (.task 1)])).system.engine.schedule.get?
        "files" = some e ∧ ((opened s).live filesCanceled).system.now < e.dueAt := by
  obtain ⟨s, hstart, hclock, hrunning, hbefore, hone, hafter, hno⟩ :=
    @start_decide { busyMin := 100, busyFuzz := 10 } {} deviceOfFiles.fresh (fun s =>
      let w := (opened s).live filesCanceled
      (∀ before ∈ filesCanceled.inits, InEpoch ((opened s).live before).system.now) ∧
        w.system.engine.runningFull.map (·.2) = some "files" ∧
        (∀ t ∈ w.system.engine.tasks, t.number = 1 ∧ t.stage.isDone = false) ∧
        (w.meet (.event (.task 1))).system.engine.tasks.length = 1 ∧
        (∀ t ∈ (w.meet (.event (.task 1))).system.engine.tasks,
          t.number = 1 ∧ t.stage.isDone = true) ∧
        ¬ (opened s).Committed (filesCanceled ++ [.event (.task 1)]) 1 "files") inferInstance
      (by decide +kernel)
  have htimely : ({ busyMin := 100, busyFuzz := 10 } : Settings).Timely :=
    ⟨by decide, by decide, by decide⟩
  have hclock : (opened s).InTime filesCanceled :=
    fun before hfirst => hclock before ((List.mem_inits _ _).2 hfirst)
  obtain ⟨⟨token, package⟩, hrunning, hname⟩ := Option.map_eq_some_iff.1 hrunning
  have hslot := live_slot (opened_orderly hstart) (opened_slot hstart) filesCanceled
  obtain ⟨t, ht, -, p, lastBackup, hjob, -, hfiles⟩ :=
    (running_iff hslot token package).1 hrunning
  have hfiles : p.name = "files" := hfiles.trans hname
  obtain ⟨hnumber, hopen⟩ := hbefore t ht
  obtain ⟨t', ht'⟩ := List.length_pos_iff_exists_mem.1 (by rw [hone]; exact Nat.one_pos)
  obtain ⟨hnumber', hdone⟩ := hafter t' ht'
  obtain ⟨-, hexact, -, -, hback⟩ := due_times hstart htimely hclock
  obtain ⟨-, e, hget, -, hlater, -⟩ := hback (.event (.task 1)) t ht p lastBackup hjob hopen t' ht'
    (hnumber'.trans hnumber.symm) hdone (by rwa [hnumber, hfiles])
  rw [hfiles, ← live_concat] at hget
  have hsettings := ((opened_orderly hstart).live_settings filesCanceled).trans
    (System.start_idle hstart).1
  exact ⟨s, hstart, htimely, hclock, hexact _ hsettings rfl rfl, e, hget, hlater⟩

/-- **A full backup that failed can break down.** The settings pass the check and the clock is in
the epoch, but the back-off is the longest signed word, and the sum of it and the time is none. The
package is in no queue any more, the slot keeps its name and the wake lock is held. -/
theorem retry_breaks_down :
    ∃ s, System.start { busyMin := 9223372036854775807, busyFuzz := 0 } {} deviceOfFiles.fresh =
        .ok s ∧
      (opened s).InTime (filesCanceled ++ [.event (.task 1)]) ∧
      ((opened s).live filesCanceled).system.agenda.retryAt? = none ∧
      let s' := ((opened s).live (filesCanceled ++ [.event (.task 1)])).system
      s'.engine.tasks.map (·.stage) = [.fallen] ∧
        s'.engine.schedule.packages.count "files" = 0 ∧
        s'.engine.runningFull.map (·.2) = some "files" ∧
        s'.device.wakeReleased < s'.device.wakeAcquired ∧
        maxI64 < s'.now + 9223372036854775807 := by
  obtain ⟨s, hstart, hclock, hretry, hstage, hcount, hrunning, hwake⟩ :=
    @start_decide { busyMin := 9223372036854775807, busyFuzz := 0 } {} deviceOfFiles.fresh (fun s =>
      (∀ before ∈ (filesCanceled ++ [Incident.event (.task 1)]).inits,
        InEpoch ((opened s).live before).system.now) ∧
      ((opened s).live filesCanceled).system.agenda.retryAt? = none ∧
      let s' := ((opened s).live (filesCanceled ++ [.event (.task 1)])).system
      s'.engine.tasks.map (·.stage) = [.fallen] ∧
        s'.engine.schedule.packages.count "files" = 0 ∧
        s'.engine.runningFull.map (·.2) = some "files" ∧
        s'.device.wakeReleased < s'.device.wakeAcquired ∧ maxI64 < s'.now + 9223372036854775807)
      inferInstance (by decide +kernel)
  exact ⟨s, hstart, fun before hfirst => hclock before ((List.mem_inits _ _).2 hfirst), hretry,
    hstage, hcount, hrunning, hwake⟩

end World

end Holdfast
