import Holdfast.Proofs.Engine.DueTimes
import Holdfast.Proofs.Engine.FrontCalls

/-!
# What becomes of a job that was pushed back

A cancel hands out a long delay for the job of full backups. A scheduled full backup that is
canceled by it winds down afterwards, and arms the job for the first package of the schedule.

- `Front.fulls`: the scheduled full backups that run;
- `Front.Turn.winds`, `World.meet_winds`: apart from calls, only the end of one of them arms the
  job;
- `World.retirements`, `World.live_retirements`: the ends along a run, and that without calls **each
  of them arms the job once and nothing else does**;
- `World.PutBack`, `World.Retires.armed`: where the package that was canceled is in the schedule
  again, the job is armed for the end of one back-off at the latest;
- `World.pushed_back`: **the job stays pushed back unless a scheduled full backup ends**;
- `World.pulled_forward`: such an end can arm the job at once.
-/

namespace Holdfast

/-- What stands for a delay is never longer than that. -/
theorem exactDelay_le_self (delay : Nat) : exactDelay delay ≤ delay := by
  have hhalf : maxI64 / 2 ≤ maxI64 := by decide
  unfold exactDelay
  split <;> omega

namespace Front

variable {f f' : Front} {p : Place} {due : List Nat}

/-- The scheduled full backups that run, by their numbers. -/
def fulls (f : Front) : List Nat := (f.places.filter (·.kind = .full)).map (·.number)

theorem mem_fulls {number : Nat} :
    number ∈ f.fulls ↔ ∃ p ∈ f.places, p.kind = .full ∧ p.number = number := by
  simp [fulls, and_assoc]

/-- A task that stands elsewhere is of the same kind. -/
theorem stand_fulls (hnodup : (f.places.map (·.number)).Nodup) (hmem : p ∈ f.places)
    (stage : Stage) : (f.stand { p with stage }).fulls = f.fulls := by
  have hsame : ∀ q ∈ f.places, q.number = p.number → q = p :=
    fun q hq => List.inj_on_of_nodup_map hnodup hq hmem
  unfold fulls stand
  rw [List.filter_map, List.map_map]
  have hkind : ∀ q ∈ f.places,
      ((fun q : Place => decide (q.kind = .full)) ∘
        fun q => if q.number = p.number then { p with stage } else q) q =
          decide (q.kind = .full) := by
    intro q hq
    by_cases hnumber : q.number = p.number
    · rw [Function.comp_apply, if_pos hnumber, hsame q hq hnumber]
    · rw [Function.comp_apply, if_neg hnumber]
  rw [List.filter_congr hkind]
  refine List.map_congr_left fun q _ => ?_
  by_cases hnumber : q.number = p.number
  · rw [Function.comp_apply, if_pos hnumber]
    exact hnumber.symm
  · rw [Function.comp_apply, if_neg hnumber]

theorem drop_fulls (f : Front) (number : Nat) :
    (f.drop number).fulls = f.fulls.filter (· ≠ number) := by
  simp only [fulls, drop, List.filter_map, List.filter_filter, Bool.and_comm]
  rfl

theorem quit_fulls (f : Front) (stage : Stage) : (f.quit stage).fulls = f.fulls := by
  rw [fulls, quit_places, fulls]

/-- **Only the end of a scheduled full backup arms the job.** -/
theorem Turn.winds (hturn : f.Turn p due f') (hnodup : (f.places.map (·.number)).Nodup)
    (hmem : p ∈ f.places) :
    (f'.delays = f.delays ∧ f'.fulls = f.fulls) ∨ (p.kind = .full ∧ p.stage = .leaving) := by
  cases hturn with
  | joins v _ _ => exact .inl ⟨rfl, stand_fulls hnodup hmem _⟩
  | asks _ => exact .inl ⟨rfl, stand_fulls hnodup hmem _⟩
  | meets token _ => exact .inl ⟨rfl, stand_fulls hnodup hmem _⟩
  | works _ _ => exact .inl ⟨rfl, stand_fulls hnodup hmem _⟩
  | @goes stage _ =>
    refine .inl ⟨f.quit_delays p.stage, ?_⟩
    have hplaces := f.quit_places p.stage
    rw [stand_fulls (hplaces ▸ hnodup) (hplaces ▸ hmem), quit_fulls]
  | ends hkind =>
    refine .inl ⟨f.quit_delays p.stage, ?_⟩
    rw [drop_fulls, quit_fulls]
    refine List.filter_eq_self.2 fun number hnumber => decide_eq_true ?_
    rintro rfl
    obtain ⟨q, hq, hfull, heq⟩ := mem_fulls.1 hnumber
    rw [List.inj_on_of_nodup_map hnodup hq hmem heq] at hfull
    exact hkind hfull
  | leaves hkind hstage => exact .inr ⟨hkind, hstage⟩
  | stays _ => exact .inl ⟨rfl, rfl⟩

theorem fulls_nodup (h : (f.places.map (·.number)).Nodup) : f.fulls.Nodup :=
  h.sublist (List.filter_sublist.map _)

theorem Deed.delays_eq {delays : List Nat} (hdeed : f.Deed delays f') :
    f'.delays = f.delays ++ delays := by
  cases hdeed <;> rfl

end Front

theorem Task.isFull_eq (t : Task) : t.isFull = decide (t.job.kind = .full) := by
  unfold Task.isFull
  cases hjob : t.job <;> rfl

namespace System

variable {s : System}

theorem Numbered.books (h : s.Numbered) : s.Distinct := by
  have hnodup := h.nodup
  unfold entries at hnodup
  unfold Distinct ledger
  rw [List.map_map] at hnodup ⊢
  exact hnodup

/-- The agenda and the front agree on the scheduled full backups that run. -/
theorem fulls_front (s : System) : s.agenda.fulls.map (·.1) = s.front.fulls := by
  rw [fulls_eq, Front.fulls, front, List.filter_map, List.map_map, List.map_map,
    List.filter_congr fun t _ => t.isFull_eq]
  rfl

theorem mem_fulls_front {number : Nat} :
    number ∈ s.front.fulls ↔ ∃ t ∈ s.engine.tasks, t.isFull = true ∧ t.number = number := by
  rw [Front.mem_fulls]
  constructor
  · rintro ⟨p, hmem, hkind, hnumber⟩
    obtain ⟨t, ht, rfl⟩ := List.mem_map.1 hmem
    exact ⟨t, ht, t.isFull_eq ▸ decide_eq_true hkind, hnumber⟩
  · rintro ⟨t, ht, hfull, hnumber⟩
    exact ⟨t.place, mem_places ht, of_decide_eq_true (t.isFull_eq ▸ hfull), hnumber⟩

end System

namespace World

open Front (Turn)

variable {w : World} {i : Incident}

/-- The scheduled full backup that ends in an incident, with the delay until the first package of
the schedule is due then. -/
def retirement? (w : World) : Incident → Option (Nat × Option Nat)
  | .event (.task number) =>
    (w.system.engine.tasks.find? (·.number == number)).bind fun t =>
      if t.isFull = true ∧ t.stage = .leaving then some (number, (w.system.stepTask t).nextDelay?)
      else none
  | _ => none

/-- The scheduled full backups that end along a run, the first one first. -/
def retirements (w : World) : List Incident → List (Nat × Option Nat)
  | [] => []
  | i :: rest => (w.retirement? i).toList ++ (w.meet i).retirements rest

theorem retirements_concat (w : World) (incidents : List Incident) (i : Incident) :
    w.retirements (incidents ++ [i]) =
      w.retirements incidents ++ ((w.live incidents).retirement? i).toList := by
  induction incidents generalizing w with
  | nil => exact List.append_nil _
  | cons first incidents ih =>
    rw [List.cons_append, retirements, ih, retirements, List.append_assoc]
    rfl

/-- A scheduled full backup that has given up its place, which ends in its next step. -/
structure Retires (w : World) (t : Task) : Prop where
  mem : t ∈ w.system.engine.tasks
  full : t.isFull = true
  leaving : t.stage = .leaving

/-- A retirement is that of a backup that has given up its place. -/
theorem retires_of_retirement {number : Nat} {delay : Option Nat}
    (h : w.retirement? i = some (number, delay)) :
    ∃ t, i = .event (.task number) ∧ t.number = number ∧ w.Retires t := by
  unfold retirement? at h
  split at h
  · obtain ⟨t, hfind, hretired⟩ := Option.bind_eq_some_iff.1 h
    split at hretired
    · rename_i hretires
      cases hretired
      exact ⟨t, rfl, by simpa using List.find?_some hfind, List.mem_of_find?_eq_some hfind,
        hretires.1, hretires.2⟩
    · cases hretired
  · cases h

theorem find?_number (hs : w.system.Distinct) {t : Task} (ht : t ∈ w.system.engine.tasks) :
    w.system.engine.tasks.find? (·.number == t.number) = some t := by
  cases hfind : w.system.engine.tasks.find? (·.number == t.number) with
  | none => simpa using List.find?_eq_none.1 hfind t ht
  | some other =>
    have hplaces := System.places_numbers hs
    simp only [System.front, List.map_map] at hplaces
    have hnumber : other.number = t.number := by simpa using List.find?_some hfind
    rw [List.inj_on_of_nodup_map hplaces (List.mem_of_find?_eq_some hfind) ht hnumber]

namespace Retires

variable {t : Task}

theorem job (h : w.Retires t) : ∃ p lastBackup, t.job = .full p lastBackup :=
  Task.isFull_iff.1 h.full

theorem step (h : w.Retires t) (hs : w.system.Distinct) :
    (w.meet (.event (.task t.number))).system = w.system.leave t := by
  have hready : w.system.isReady t = true := by
    simp only [System.isReady, h.leaving]
  simp only [meet, happen, find?_number hs h.mem, hready, if_true]
  show w.system.stepTask t = _
  rw [System.stepTask, h.leaving]

theorem retirement (h : w.Retires t) (hs : w.system.Distinct) :
    w.retirement? (.event (.task t.number)) =
      some (t.number, (w.meet (.event (.task t.number))).system.nextDelay?) := by
  have hleave : w.system.stepTask t = w.system.leave t := by rw [System.stepTask, h.leaving]
  simp only [retirement?, find?_number hs h.mem, Option.bind_some, h.full, h.leaving, and_self,
    if_true, h.step hs, hleave]

/-- The backup arms the job for the first package of the schedule, and is over. -/
theorem front (h : w.Retires t) (hs : w.system.Distinct) :
    (w.meet (.event (.task t.number))).system.front =
      (w.system.front.arm
        (w.meet (.event (.task t.number))).system.nextDelay?.toList).drop t.number := by
  obtain ⟨p, lastBackup, hjob⟩ := h.job
  rw [h.step hs]
  exact w.system.leave_task_front hjob

theorem running (h : w.Retires t) : t.number ∈ w.system.front.fulls :=
  System.mem_fulls_front.2 ⟨t, h.mem, h.full, rfl⟩

theorem fulls (h : w.Retires t) (hs : w.system.Distinct) :
    ((w.meet (.event (.task t.number))).system.front.fulls ++ [t.number]).Perm
      w.system.front.fulls := by
  rw [h.front hs, Front.drop_fulls]
  have hnodup := Front.fulls_nodup (System.places_numbers hs)
  refine .trans (List.perm_append_singleton _ _) (.symm ?_)
  refine (List.perm_cons_erase h.running).trans (.cons _ (.of_eq ?_))
  refine (hnodup.erase_eq_filter _).trans (List.filter_congr fun number _ => ?_)
  exact (Bool.eq_iff_iff.2 (by simp))

end Retires

/-- **Apart from calls, only the end of a scheduled full backup arms the job**, and none begins. -/
theorem meet_winds (hw : w.Orderly) (hcall : i.isCall = false) :
    (w.meet i).system.front.delays =
        w.system.front.delays ++ (w.retirement? i).toList.filterMap (·.2) ∧
      ((w.meet i).system.front.fulls ++ (w.retirement? i).toList.map (·.1)).Perm
        w.system.front.fulls := by
  have hs : w.system.Distinct := hw.numbered.books
  cases hretired : w.retirement? i with
  | some entry =>
    obtain ⟨number, delay⟩ := entry
    obtain ⟨t, rfl, rfl, hretires⟩ := retires_of_retirement hretired
    rw [hretires.retirement hs] at hretired
    cases hretired
    refine ⟨(congrArg Front.delays (hretires.front hs)).trans ?_, hretires.fulls hs⟩
    cases (w.meet (.event (.task t.number))).system.nextDelay? <;> rfl
  | none =>
    -- a step of a task that does not end like this leaves the job alone
    have hstep : ∀ t ∈ w.system.engine.tasks, i = .event (.task t.number) →
        w.system.front.Reaches t.place (w.meet i).system →
        (w.meet i).system.front.delays = w.system.front.delays ∧
          (w.meet i).system.front.fulls.Perm w.system.front.fulls := by
      rintro t ht rfl hreaches
      rcases Turn.winds hreaches (System.places_numbers hs) (System.mem_places ht) with
        ⟨hdelays, hfulls⟩ | ⟨hkind, hstage⟩
      · exact ⟨hdelays, .of_eq hfulls⟩
      · have hretires : w.Retires t := ⟨ht, t.isFull_eq ▸ decide_eq_true hkind, hstage⟩
        cases hretired.symm.trans (hretires.retirement hs)
    simp only [Option.toList_none, List.filterMap_nil, List.append_nil, List.map_nil]
    cases w.meet_front hs i with
    | turn ht htask _ _ hreaches => exact hstep _ ht htask hreaches
    | deed delays hnone hdeed =>
      have hdelays : (w.meet i).system.front.delays = w.system.front.delays := by
        rw [hdeed.delays_eq, hnone hcall, List.append_nil]
      have honFulls := (hw.affair i).onFulls
      generalize hagenda : (w.meet i).system.agenda = a at honFulls
      cases honFulls with
      | same _ _ hfulls =>
        refine ⟨hdelays, ?_⟩
        rw [← System.fulls_front, ← System.fulls_front, hagenda]
        exact hfulls.map _
      | begins _ _ _ _ _ _ => cases hcall
      | @turn _ t hfind hready _ =>
        refine hstep t (List.mem_of_find?_eq_some hfind) rfl ?_
        have hmeet : (w.meet (.event (.task t.number))).system = w.system.stepTask t := by
          simp only [meet, happen, hfind, hready, if_true]
          rfl
        rw [hmeet]
        exact System.stepTask_turn_front hs t

/-- **Without calls the job is armed by the ends of scheduled full backups only**, once by each. -/
theorem live_retirements (hw : w.Orderly) {incidents : List Incident}
    (hcalls : ∀ i ∈ incidents, i.isCall = false) :
    (w.live incidents).system.front.delays =
        w.system.front.delays ++ (w.retirements incidents).filterMap (·.2) ∧
      ((w.live incidents).system.front.fulls ++ (w.retirements incidents).map (·.1)).Perm
        w.system.front.fulls := by
  induction incidents using List.reverseRecOn with
  | nil => exact ⟨(List.append_nil _).symm, .of_eq (List.append_nil _)⟩
  | append_singleton incidents i ih =>
    obtain ⟨hdelays, hfulls⟩ := ih fun i hmem => hcalls i (List.mem_append_left _ hmem)
    obtain ⟨hdelays', hfulls'⟩ := meet_winds (hw.live incidents)
      (hcalls i (List.mem_append_right _ (List.mem_singleton_self i)))
    rw [live_concat, retirements_concat, List.filterMap_append, List.map_append]
    constructor
    · rw [hdelays', hdelays, List.append_assoc]
    · refine .trans ?_ ((hfulls'.append_right _).trans hfulls)
      rw [List.append_assoc]
      exact .append_left _ List.perm_append_comm

/-- A retirement along a run is brought by a step of the backup that ends. -/
theorem retirements_split (hw : w.Orderly) {incidents : List Incident} {entry : Nat × Option Nat}
    (h : entry ∈ w.retirements incidents) :
    ∃ earlier rest t, incidents = earlier ++ .event (.task entry.1) :: rest ∧ t.number = entry.1 ∧
      (w.live earlier).Retires t ∧
      entry.2 = ((w.live earlier).meet (.event (.task entry.1))).system.nextDelay? := by
  induction incidents using List.reverseRecOn with
  | nil => cases h
  | append_singleton incidents i ih =>
    rw [retirements_concat, List.mem_append, Option.mem_toList] at h
    rcases h with hold | hnew
    · obtain ⟨earlier, rest, t, rfl, hfound⟩ := ih hold
      exact ⟨earlier, rest ++ [i], t, by simp, hfound⟩
    · obtain ⟨t, rfl, hnumber, hretires⟩ := retires_of_retirement hnew
      refine ⟨incidents, [], t, rfl, hnumber, hretires, ?_⟩
      have hretired := hretires.retirement (hw.live incidents).numbered.books
      rw [hnumber, hnew] at hretired
      exact congrArg Prod.snd (Option.some.inj hretired)

/-! ## The delay -/

/-- The full backup of a number was done with its package along a run, and since then nothing has
changed the entry of the package in the schedule, nor has the clock gone back. -/
def PutBack (w : World) (incidents : List Incident) (number : Nat) (package : String) : Prop :=
  ∃ before i later, incidents = before ++ i :: later ∧
    let back := (w.live before).meet i
    (∃ t ∈ (w.live before).system.engine.tasks, t.number = number ∧ t.stage.isDone = false ∧
      ∃ p lastBackup, t.job = .full p lastBackup ∧ p.name = package) ∧
    (∃ t ∈ back.system.engine.tasks, t.number = number ∧ ∃ status, t.stage = .closing status) ∧
    (w.live incidents).system.engine.schedule.get? package =
      back.system.engine.schedule.get? package ∧
    back.system.now ≤ (w.live incidents).system.now

theorem replies_subset (w : World) (incidents later : List Incident) :
    w.replies incidents ⊆ w.replies (incidents ++ later) := by
  induction later using List.reverseRecOn with
  | nil => simp
  | append_singleton later i ih =>
    rw [← List.append_assoc, replies_concat]
    exact fun reply hmem => List.mem_append_left _ (ih hmem)

/-- The entry of a package that came back because its backup failed. -/
theorem PutBack.entry {incidents : List Incident} {number : Nat} {package : String}
    (hw : w.Orderly) (hnone : w.system.agenda.fulls = [])
    (h : w.PutBack incidents number package) (hno : ¬ w.Committed incidents number package) :
    ∃ before e, before <+: incidents ∧
      (w.live incidents).system.engine.schedule.get? package = some e ∧
      (w.live before).system.now ≤ (w.live incidents).system.now ∧
      (w.live before).system.agenda.retryAt? = some e.dueAt := by
  obtain ⟨before, i, later, rfl, ⟨t, ht, rfl, hopen, p, lastBackup, hjob, rfl⟩,
    ⟨t', ht', hnumber, status, hclosing⟩, hget, hclock⟩ := h
  have hordered := hw.live before
  have hmem := System.mem_errands ht
  rw [System.errand_full hjob] at hmem
  -- the task that came to its end is the one that began to wind down
  obtain ⟨stage, hstill⟩ := ((hordered.affair i).onFulls.next hordered.numbered.distinct
    hmem).resolve_left fun hleaving => by
      rw [hleaving] at hopen
      cases hopen
  have herrand := (hordered.meet i).numbered.distinct.eq (hnumber ▸ System.mem_errands ht') hstill
  obtain ⟨-, -, rfl⟩ := errand_eq_full herrand
  have hcommitted : ¬ w.Committed (before ++ [i]) t.number p.name := by
    rintro ⟨haccepted, hcommit⟩
    have hsubset := w.replies_subset (before ++ [i]) later
    rw [List.append_assoc] at hsubset
    exact hno ⟨hsubset haccepted, hsubset hcommit⟩
  rcases (live_recorded hw hnone before).done hordered hmem hstill hopen
      (by rw [hclosing]; rfl) with ⟨hfallen, -, -⟩ | ⟨-, -, e, hentry, hnow, hdue⟩
  · cases hclosing.symm.trans hfallen
  · rw [if_neg hcommitted] at hdue
    exact ⟨before, e, List.prefix_append _ _, hget.trans hentry, hnow ▸ hclock, hdue.2⟩

/-- **A scheduled full backup whose package is back arms the job for the end of one back-off** at
the latest, unless it was committed. -/
theorem Retires.armed {settings : Settings} {disk : Disk} {device : Device} {s : System}
    (hstart : System.start settings disk device.fresh = .ok s) {incidents : List Incident}
    {t : Task} (h : ((opened s).live incidents).Retires t) {package : String}
    (htimely : settings.Timely) (hclock : (opened s).InTime incidents)
    (hback : (opened s).PutBack incidents t.number package)
    (hno : ¬ (opened s).Committed incidents t.number package) :
    ∃ delay,
      (((opened s).live incidents).meet (.event (.task t.number))).system.nextDelay? = some delay ∧
      delay ≤ settings.busyMin + (settings.busyFuzz - 1) := by
  have hopened := opened_orderly hstart
  have hfirst : (opened s).system.engine.settings = settings := (System.start_idle hstart).1
  have hdated := live_dated hopened (hfirst ▸ htimely)
    (hfirst ▸ Settings.busyMin_pos (System.start_cases hstart).1) (opened_dated hstart) hclock
  obtain ⟨before, e, hbefore, hget, hforward, hretry⟩ :=
    hback.entry hopened (opened_fulls hstart) hno
  -- the last step leaves the schedule and the clock alone
  obtain ⟨p, lastBackup, hjob⟩ := h.job
  have hagenda := ((opened s).live incidents).system.leave_agenda hjob
  rw [← h.step (hopened.live incidents).numbered.books] at hagenda
  have hschedule := congrArg Agenda.schedule hagenda
  have hnow := congrArg Agenda.now hagenda
  generalize ((opened s).live incidents).meet (.event (.task t.number)) = ended at *
  have hschedule : ended.system.engine.schedule =
    ((opened s).live incidents).system.engine.schedule := hschedule
  have hnow : ended.system.now = ((opened s).live incidents).system.now := hnow
  -- the head is due no later than the package that is back
  have hin : e ∈ ended.system.engine.schedule.entries :=
    hschedule ▸ List.mem_of_find?_eq_some hget
  obtain ⟨head, rest, hentries⟩ := List.exists_cons_of_ne_nil (List.ne_nil_of_mem hin)
  have hdated : Schedule.Dated settings.fullInterval ended.system.engine.schedule :=
    hschedule ▸ hfirst ▸ hdated
  have hle : head.dueAt ≤ e.dueAt := by
    have hsorted := hdated.ordered.sorted
    rw [hentries] at hin hsorted
    rcases List.mem_cons.1 hin with rfl | hrest
    · exact Int.le_refl _
    · exact (List.pairwise_cons.1 hsorted).1 e hrest
  -- and that is after one back-off
  have hsettings := (hopened.live_settings before).trans hfirst
  have hfuzz := Device.drawn_le_pred settings.busyFuzz ((opened s).live before).system.device.chance
  have hdue : e.dueAt = ((opened s).live before).system.now + exactDelay (settings.busyMin +
      Device.drawn settings.busyFuzz ((opened s).live before).system.device.chance) := by
    have hexact := htimely.retryAt?_eq (hclock before hbefore) hfuzz
    rw [← hsettings] at hexact ⊢
    exact Option.some.inj (hretry.symm.trans hexact)
  have hself := exactDelay_le_self (settings.busyMin +
    Device.drawn settings.busyFuzz ((opened s).live before).system.device.chance)
  have hhalf : maxI64 / 2 = 4611686018427387903 := by decide
  have hmax : maxI64 = 9223372036854775807 := rfl
  have hbound := htimely.exactDelay_le hfuzz
  obtain ⟨hpast, -⟩ := hclock incidents List.prefix_rfl
  obtain ⟨-, hepoch⟩ := hclock before hbefore
  have hnext : ended.system.engine.schedule.nextDue? = some head.dueAt := by
    unfold Schedule.nextDue? Schedule.head?
    rw [hentries]
    rfl
  have hfits : ended.system.nextDueFits = true := by
    unfold System.nextDueFits
    rw [hnext]
    exact decide_eq_true (by omega)
  refine ⟨(head.dueAt - ended.system.now).toNat, ?_, by omega⟩
  rw [System.nextDelay?, if_pos hfits, hnext]
  rfl

/-- **A job that was pushed back stays so unless a scheduled full backup ends.** Whatever else
happens after a cancel without another call, the last delay that was handed out is twice the least
back-off, as far as words go. But each scheduled full backup that ran at the cancel and has ended
since has handed out another one behind it, the time until the first package of the schedule is due.
That is at most one back-off if the package of the backup is back in the schedule as a failed one
and nothing has touched it there. -/
theorem pushed_back {settings : Settings} {disk : Disk} {device : Device} {s : System}
    (hstart : System.start settings disk device.fresh = .ok s) (incidents : List Incident)
    {later : List Incident} (hcalls : ∀ i ∈ later, i.isCall = false) :
    let w := (opened s).live incidents
    let canceled := w.meet (.event (.call .cancelBackups))
    let pushed := w.system.front.delays ++ [min (settings.busyMin * 2) maxU64]
    let ends := canceled.retirements later
    (canceled.live later).system.front.delays = pushed ++ ends.filterMap (·.2) ∧
    (ends.map (·.1)).Nodup ∧
    (∀ number, number ∈ ends.map (·.1) ↔
      (∃ t ∈ w.system.engine.tasks, t.isFull = true ∧ t.number = number) ∧
        ¬ ∃ t ∈ (canceled.live later).system.engine.tasks, t.isFull = true ∧ t.number = number) ∧
    ∀ entry ∈ ends, ∃ earlier rest, later = earlier ++ .event (.task entry.1) :: rest ∧
      entry.2 = ((canceled.live earlier).meet (.event (.task entry.1))).system.nextDelay? ∧
      let before := incidents ++ .event (.call .cancelBackups) :: earlier
      ∀ package, settings.Timely → (opened s).InTime before →
        (opened s).PutBack before entry.1 package →
        ¬ (opened s).Committed before entry.1 package →
        ∃ delay, entry.2 = some delay ∧ delay ≤ settings.busyMin + (settings.busyFuzz - 1) := by
  have hopened := opened_orderly hstart
  have hw := hopened.live incidents
  have hsettings : ((opened s).live incidents).system.engine.settings = settings :=
    (hopened.live_settings incidents).trans (System.start_idle hstart).1
  have hfront := System.cancelBackups_front hw.numbered.books
  rw [hsettings] at hfront
  intro w canceled pushed ends
  have hpushed : canceled.system.front = w.system.front.arm [min (settings.busyMin * 2) maxU64] :=
    hfront
  have hfulls : canceled.system.front.fulls = w.system.front.fulls := by
    rw [hpushed]
    rfl
  have hcanceled : canceled.Orderly := hw.meet _
  obtain ⟨hdelays, hperm⟩ := live_retirements hcanceled hcalls
  have hnodup := hperm.nodup_iff.2 (Front.fulls_nodup
    (System.places_numbers hcanceled.numbered.books))
  rw [hfulls] at hperm
  refine ⟨hdelays.trans ?_, (List.nodup_append.1 hnodup).2.1, fun number => ?_,
    fun entry hmem => ?_⟩
  · rw [hpushed]
    rfl
  · rw [← System.mem_fulls_front, ← System.mem_fulls_front, ← hperm.mem_iff, List.mem_append]
    constructor
    · intro hended
      refine ⟨.inr hended, fun hruns => ?_⟩
      exact (List.nodup_append.1 hnodup).2.2 number hruns number hended rfl
    · rintro ⟨hruns | hended, hgone⟩
      · exact absurd hruns hgone
      · exact hended
  · obtain ⟨earlier, rest, t, hsplit, hnumber, hretires, hdelay⟩ := retirements_split hcanceled hmem
    have hbefore : canceled.live earlier =
        (opened s).live (incidents ++ .event (.call .cancelBackups) :: earlier) := by
      rw [live_append]
      rfl
    refine ⟨earlier, rest, hsplit, hdelay, fun package htimely hclock hback hno => ?_⟩
    rw [hbefore] at hretires hdelay
    rw [← hnumber] at hback hno hdelay
    rw [hdelay]
    exact hretires.armed hstart htimely hclock hback hno

/-- A requested backup whose agent is at work. -/
def backupInFlight : List Incident := (backupOfOne.take 14).map .event

/-- A requested backup comes to its end. -/
def backupWindsDown : List Incident :=
  (List.replicate 6 (Event.task 0) ++ [Event.command]).map .event

/-- Both jobs stay pushed back when a requested backup is canceled. -/
theorem pushed_back_backupInFlight :
    ∃ s, System.start {} {} deviceOfOne.fresh = .ok s ∧
      (∀ i ∈ backupWindsDown, i.isCall = false) ∧
      let w := ((opened s).live backupInFlight).meet (.event (.call .cancelBackups))
      (w.live backupWindsDown).system.engine.tasks.isEmpty = true ∧
        (w.live backupWindsDown).system.front.delays = [7200000] := by
  obtain ⟨s, hstart, hnone, hplain, hover⟩ := @start_decide {} {} deviceOfOne.fresh (fun s =>
    let w := (opened s).live backupInFlight
    w.system.front.delays = [] ∧ (∀ t ∈ w.system.engine.tasks, t.isFull = false) ∧
      ((w.meet (.event (.call .cancelBackups))).live
        backupWindsDown).system.engine.tasks.isEmpty = true) inferInstance (by decide +kernel)
  have hcalls : ∀ i ∈ backupWindsDown, i.isCall = false := by decide
  refine ⟨s, hstart, hcalls, hover, ?_⟩
  obtain ⟨hdelays, -, hends, -⟩ := pushed_back hstart backupInFlight hcalls
  -- no scheduled full backup ran that could end
  have hquiet : (((opened s).live backupInFlight).meet
      (.event (.call .cancelBackups))).retirements backupWindsDown = [] := by
    refine List.eq_nil_iff_forall_not_mem.2 fun entry hmem => ?_
    obtain ⟨⟨t, ht, hfull, -⟩, -⟩ := (hends entry.1).1 (List.mem_map_of_mem hmem)
    rw [hplain t ht] at hfull
    cases hfull
  rw [hnone, hquiet] at hdelays
  exact hdelays

/-- **A job that was pushed back can be armed at once.** A scheduled full backup is canceled while
another package is due. When it has wound down, the last delay that was handed out is zero. -/
theorem pulled_forward :
    ∃ s, System.start {} {} deviceOfTwoFiles.fresh = .ok s ∧
      let w := (opened s).live (filesInFlight.map .event)
      let canceled := w.meet (.event (.call .cancelBackups))
      let after := canceled.live (List.replicate 7 (.event (.task 1)))
      w.system.engine.policy.allows = true ∧
        w.system.engine.tasks.map (fun t => (t.number, t.isFull)) = [(1, true)] ∧
        canceled.system.front.delays.getLast? = some (2 * s.engine.settings.busyMin) ∧
        after.system.engine.tasks.isEmpty = true ∧
        after.system.front.delays.getLast? = some 0 :=
  start_decide (by decide +kernel)

end World

end Holdfast
