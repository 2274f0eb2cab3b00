import Holdfast.Proofs.Engine.Duties
import Holdfast.Proofs.Engine.Affairs
import Holdfast.Proofs.Engine.Wiping

/-!
# A marked transport will be wiped

- `Roster.Awaits`: the wipe of a transport is queued, a timer will post it, or a task has it still
  to do;
- `Roster.Heeded`: only registered transports are marked, and the wipe of each is on its way;
- `Roster.Deed.heeded`, `Roster.Turn.heeded`: what is heeded before an event is heeded after it;
- `World.marks_heeded`: **at any time of a run, the wipe of every marked transport is on its way.**
-/

namespace Holdfast

namespace Roster

/-- A wipe of a transport is on its way. -/
inductive Awaits (r : Roster) (name : String) : Prop where
  | queued {names : List String} : names ∈ r.mail → name ∈ names → Awaits r name
  | delayed {entry : Nat × List String} : entry ∈ r.delayed → name ∈ entry.2 → Awaits r name
  | underway {t : Task} : t ∈ r.tasks → name ∈ t.wipes → Awaits r name

/-- Every mark is heeded. The first two fields keep the timer of the session apart from the timers
of the wipes, so that it is never one of them that is stopped. -/
structure Heeded (r : Roster) : Prop where
  timed : r.Timed
  ahead : ∀ number, r.alarm = some number → number < r.nextNumber
  known : ∀ name ∈ r.marks, name ∈ r.registered
  awaited : ∀ name ∈ r.marks, r.Awaits name

variable {r r' : Roster} {t t' : Task} {name : String}

namespace Awaits

theorem congr (h : r.Awaits name) (hmail : r'.mail = r.mail) (hdelayed : r'.delayed = r.delayed)
    (htasks : r'.tasks = r.tasks) : r'.Awaits name := by
  cases h with
  | queued hnames hname => exact .queued (hmail ▸ hnames) hname
  | delayed hentry hname => exact .delayed (hdelayed ▸ hentry) hname
  | underway ht hname => exact .underway (htasks ▸ ht) hname

theorem delay (h : r.Awaits name) (names : List String) : (r.delay names).Awaits name := by
  cases h with
  | queued hnames hname => exact .queued hnames hname
  | delayed hentry hname => exact .delayed (List.mem_append_left _ hentry) hname
  | underway ht hname => exact .underway ht hname

theorem of_delay {names : List String} (hname : name ∈ names) : (r.delay names).Awaits name :=
  .delayed (List.mem_append_right _ (List.mem_singleton_self _)) hname

theorem enter (h : r.Awaits name) (t : Task) : (r.enter t).Awaits name := by
  cases h with
  | queued hnames hname => exact .queued hnames hname
  | delayed hentry hname => exact .delayed hentry hname
  | underway ht hname => exact .underway (List.mem_append_left _ ht) hname

theorem of_enter (hname : name ∈ t.wipes) : (r.enter t).Awaits name :=
  .underway (List.mem_append_right _ (List.mem_singleton_self _)) hname

/-- What a task in its new state has to do is on its way. -/
theorem of_seat (hmem : t ∈ r.tasks) (hnumber : t'.number = t.number) (hname : name ∈ t'.wipes) :
    (r.seat t').Awaits name :=
  .underway (List.mem_map.2 ⟨t, hmem, if_pos hnumber.symm⟩) hname

/-- A task has a new state. Only what it had to do itself may be lost. -/
theorem seat (hnumbers : (r.tasks.map (·.number)).Nodup) (hmem : t ∈ r.tasks)
    (hnumber : t'.number = t.number) (h : r.Awaits name) :
    (r.seat t').Awaits name ∨ name ∈ t.wipes := by
  cases h with
  | queued hnames hname => exact .inl (.queued hnames hname)
  | delayed hentry hname => exact .inl (.delayed hentry hname)
  | @underway other hother hname =>
    by_cases heq : other.number = t.number
    · rw [List.inj_on_of_nodup_map hnumbers hother hmem heq] at hname
      exact .inr hname
    · exact .inl (.underway (List.mem_map.2 ⟨other, hother, if_neg (hnumber ▸ heq)⟩) hname)

/-- A task in its new state has still to do what it had to do. -/
theorem seat_of_subset (hnumbers : (r.tasks.map (·.number)).Nodup) (hmem : t ∈ r.tasks)
    (hnumber : t'.number = t.number) (hwipes : t.wipes ⊆ t'.wipes) (h : r.Awaits name) :
    (r.seat t').Awaits name := by
  rcases h.seat hnumbers hmem hnumber with hseated | hname
  · exact hseated
  · exact of_seat hmem hnumber (hwipes hname)

/-- A task that had nothing to wipe is over. -/
theorem drop (hnumbers : (r.tasks.map (·.number)).Nodup) (hmem : t ∈ r.tasks)
    (hnothing : t.wipes = []) (h : r.Awaits name) : (r.drop t.number).Awaits name := by
  cases h with
  | queued hnames hname => exact .queued hnames hname
  | delayed hentry hname => exact .delayed hentry hname
  | @underway other hother hname =>
    refine .underway (List.mem_filter.2 ⟨hother, ?_⟩) hname
    rw [decide_eq_true_iff]
    intro heq
    rw [List.inj_on_of_nodup_map hnumbers hother hmem heq, hnothing] at hname
    exact absurd hname List.not_mem_nil

end Awaits

/-! ## Cancelations -/

/-- A cancelation changes no more than the table and whether a task is canceled. -/
theorem cancel_cases (r : Roster) (token : OpToken) :
    (∃ ops, r.cancel token = { r with ops }) ∨
      ∃ ops, ∃ t ∈ r.tasks,
        r.cancel token = { r with ops }.seat { t with canceled := true, agentToken := none } := by
  unfold cancel
  split
  · split
    · rename_i t hfind
      refine .inr ?_
      cases hagent : t.agentToken with
      | none => exact ⟨_, t, List.mem_of_find?_eq_some hfind, rfl⟩
      | some agentToken => exact ⟨_, t, List.mem_of_find?_eq_some hfind, rfl⟩
    · exact .inl ⟨_, rfl⟩
  · exact .inl ⟨_, rfl⟩
  · exact .inl ⟨_, rfl⟩

theorem seat_numbers (r : Roster) (t : Task) :
    (r.seat t).tasks.map (·.number) = r.tasks.map (·.number) := by
  rw [seat, List.map_map]
  refine List.map_congr_left fun other _ => ?_
  by_cases heq : other.number = t.number
  · simp only [Function.comp_apply, heq, if_true]
  · simp only [Function.comp_apply, heq, if_false]

theorem cancel_numbers (r : Roster) (token : OpToken) :
    (r.cancel token).tasks.map (·.number) = r.tasks.map (·.number) := by
  rcases r.cancel_cases token with ⟨ops, heq⟩ | ⟨ops, t, -, heq⟩
  · rw [heq]
  · rw [heq, seat_numbers]

/-- Whoever is canceled, every task is still there, canceled at most. -/
theorem mem_cancel (hnumbers : (r.tasks.map (·.number)).Nodup) (hmem : t ∈ r.tasks)
    (token : OpToken) : ∃ t' ∈ (r.cancel token).tasks,
      t' = t ∨ t' = { t with canceled := true, agentToken := none } := by
  rcases r.cancel_cases token with ⟨ops, heq⟩ | ⟨ops, told, htold, heq⟩
  · rw [heq]
    exact ⟨t, hmem, .inl rfl⟩
  · rw [heq]
    by_cases hnumber : t.number = told.number
    · obtain rfl := List.inj_on_of_nodup_map hnumbers hmem htold hnumber
      exact ⟨_, List.mem_map.2 ⟨t, hmem, if_pos rfl⟩, .inr rfl⟩
    · exact ⟨t, List.mem_map.2 ⟨t, hmem, if_neg hnumber⟩, .inl rfl⟩

theorem mind_tasks (r : Roster) (t : Task) : (r.mind t).tasks = r.tasks := by
  unfold mind heed
  split
  · split <;> rfl
  · rfl

/-- Forgetting a token changes the table only. -/
theorem forget_eq (r : Roster) (token : Option OpToken) :
    ∃ ops, r.forget token = { r with ops } := by
  cases token with
  | none => exact ⟨_, rfl⟩
  | some token => exact ⟨_, rfl⟩

namespace Heeded

/-- Other transports, timers and commands, with every wipe on its way that is still asked for. -/
theorem change (h : r.Heeded) (htimed : r'.Timed)
    (hahead : ∀ number, r'.alarm = some number → number < r'.nextNumber)
    (hmarks : ∀ name ∈ r'.marks, name ∈ r.marks ∧ (name ∈ r.registered → name ∈ r'.registered))
    (hawaits : ∀ name ∈ r'.marks, r.Awaits name → r'.Awaits name) : r'.Heeded where
  timed := htimed
  ahead := hahead
  known name hname := (hmarks name hname).2 (h.known name (hmarks name hname).1)
  awaited name hname := hawaits name hname (h.awaited name (hmarks name hname).1)

/-- Other tasks, with every wipe on its way. -/
theorem tasks (h : r.Heeded) {tasks : List Task} {ops : OperationTable Watcher}
    (hawaits : ∀ name, r.Awaits name → ({ r with tasks, ops } : Roster).Awaits name) :
    ({ r with tasks, ops } : Roster).Heeded :=
  h.change h.timed h.ahead (fun _ hname => ⟨hname, id⟩) fun name _ => hawaits name

theorem ops (h : r.Heeded) (ops : OperationTable Watcher) : ({ r with ops } : Roster).Heeded :=
  h.tasks fun _ hawaits => hawaits.congr rfl rfl rfl

theorem seat (h : r.Heeded) (hnumbers : (r.tasks.map (·.number)).Nodup) (hmem : t ∈ r.tasks)
    (hnumber : t'.number = t.number) (hwipes : t.wipes ⊆ t'.wipes) : (r.seat t').Heeded :=
  h.tasks fun _ hawaits => hawaits.seat_of_subset hnumbers hmem hnumber hwipes

theorem cancel (h : r.Heeded) (hnumbers : (r.tasks.map (·.number)).Nodup) (token : OpToken) :
    (r.cancel token).Heeded := by
  rcases r.cancel_cases token with ⟨ops, heq⟩ | ⟨ops, t, hmem, heq⟩
  · rw [heq]
    exact h.ops ops
  · rw [heq]
    exact (h.ops ops).seat hnumbers hmem rfl (List.Subset.refl _)

theorem cancels (tokens : List OpToken) (h : r.Heeded)
    (hnumbers : (r.tasks.map (·.number)).Nodup) : (tokens.foldl Roster.cancel r).Heeded := by
  induction tokens generalizing r with
  | nil => exact h
  | cons token rest ih =>
    refine ih (h.cancel hnumbers token) ?_
    rw [cancel_numbers]
    exact hnumbers

/-- A wipe is posted later, and transports that it is for may be marked at once. -/
theorem delay {registered : List String} {marks : NameSet} {names : List String} (h : r.Heeded)
    (hregistered : r.registered ⊆ registered)
    (hmarks : ∀ name ∈ marks, name ∈ r.marks ∨ (name ∈ names ∧ name ∈ registered)) :
    (({ r with registered, marks } : Roster).delay names).Heeded where
  timed entry hentry := by
    rcases List.mem_append.1 hentry with hold | hnew
    · obtain ⟨hlt, hother⟩ := h.timed entry hold
      exact ⟨Nat.lt_succ_of_lt hlt, hother⟩
    · obtain rfl := List.mem_singleton.1 hnew
      exact ⟨Nat.lt_succ_self _, fun halarm => Nat.lt_irrefl _ (h.ahead _ halarm)⟩
  ahead number halarm := Nat.lt_succ_of_lt (h.ahead number halarm)
  known name hname := by
    rcases hmarks name hname with hold | ⟨-, hnew⟩
    · exact hregistered (h.known name hold)
    · exact hnew
  awaited name hname := by
    rcases hmarks name hname with hold | ⟨hnew, -⟩
    · exact ((h.awaited name hold).delay names).congr rfl rfl rfl
    · exact .of_delay hnew

theorem heed (h : r.Heeded) (name : String) : (r.heed name).Heeded := by
  unfold Roster.heed
  split
  · rename_i hknown
    refine h.delay (List.Subset.refl _) fun other hother => ?_
    rcases NameSet.mem_insert.1 hother with rfl | hold
    · exact .inr ⟨List.mem_singleton_self _, hknown⟩
    · exact .inl hold
  · exact h

theorem mind (h : r.Heeded) (t : Task) : (r.mind t).Heeded := by
  unfold Roster.mind
  split
  · exact h.heed _
  · exact h

/-- A task that had nothing to wipe is over. -/
theorem drop (h : r.Heeded) (hnumbers : (r.tasks.map (·.number)).Nodup) (hmem : t ∈ r.tasks)
    (hnothing : t.wipes = []) : (r.drop t.number).Heeded :=
  h.tasks fun _ hawaits => hawaits.drop hnumbers hmem hnothing

end Heeded

/-! ## Events -/

/-- A number is handed out, and the timer of the session may be another one. -/
theorem Timed.rearm {k : Nat} {alarm : Option Nat} (h : r.Timed) (hrearms : r.Rearms k alarm) :
    ∀ entry ∈ r.delayed, entry.1 < r.nextNumber + k ∧ alarm ≠ some entry.1 := by
  intro entry hentry
  obtain ⟨hlt, hother⟩ := h entry hentry
  refine ⟨Nat.lt_add_right k hlt, fun halarm => ?_⟩
  rcases hrearms _ halarm with hsame | ⟨hle, -⟩
  · exact hother hsame
  · exact absurd hlt (Nat.not_lt.2 hle)

theorem Heeded.rearm {k : Nat} {alarm : Option Nat} (h : r.Heeded) (hrearms : r.Rearms k alarm) :
    ∀ number, alarm = some number → number < r.nextNumber + k := by
  intro number halarm
  rcases hrearms number halarm with hsame | ⟨-, hlt⟩
  · exact Nat.lt_add_right k (h.ahead number hsame)
  · exact hlt

theorem Deed.heeded {dealing : Dealing} (hdeed : r.Deed dealing r') (h : r.Heeded)
    (hnumbers : (r.tasks.map (·.number)).Nodup) : r'.Heeded := by
  have hmarks : ∀ name ∈ r.marks, name ∈ r.marks ∧ (name ∈ r.registered → name ∈ r.registered) :=
    fun _ hname => ⟨hname, id⟩
  cases hdeed with
  | idles hrearms hmail =>
    refine h.change (h.timed.rearm hrearms) (h.rearm hrearms) hmarks fun name _ hawaits => ?_
    cases hawaits with
    | queued hnames hname =>
      -- a wipe that left the mail had nothing to wipe
      rcases hmail _ hnames with hkept | rfl
      · exact .queued hkept hname
      · exact absurd hname List.not_mem_nil
    | delayed hentry hname => exact .delayed hentry hname
    | underway ht hname => exact .underway ht hname
  | reorders hperm =>
    refine h.tasks fun name hawaits => ?_
    cases hawaits with
    | queued hnames hname => exact .queued hnames hname
    | delayed hentry hname => exact .delayed hentry hname
    | underway ht hname => exact .underway (hperm.mem_iff.2 ht) hname
  | cancels tokens _ => exact (h.ops _).cancels tokens hnumbers
  | hears token result => exact h.ops _
  | begins =>
    exact h.change (h.timed.rearm (.same r 1)) (h.rearm (.same r 1)) hmarks fun _ _ hawaits =>
      (hawaits.enter _).congr rfl rfl rfl
  | @enters t k alarm mail _ _ _ hrearms hmail =>
    have hrearms' : r.Rearms (k + 1) alarm := fun number halarm =>
      (hrearms number halarm).imp_right fun hnew => ⟨hnew.1, Nat.lt_succ_of_lt hnew.2⟩
    refine h.change (h.timed.rearm hrearms') (h.rearm hrearms') hmarks fun name _ hawaits => ?_
    cases hawaits with
    | queued hnames hname =>
      -- a wipe that left the mail is the task that begins
      rcases hmail _ hnames with hkept | htaken
      · exact .queued hkept hname
      · exact .of_enter (htaken hname)
    | delayed hentry hname => exact .delayed hentry hname
    | underway ht hname => exact .underway (List.mem_append_left _ ht) hname
  | registers hregistered =>
    exact h.change h.timed h.ahead (fun _ hname => ⟨hname, fun hknown => hregistered hknown⟩)
      fun _ _ hawaits => hawaits.congr rfl rfl rfl
  | marks hregistered hmarks => exact h.delay hregistered hmarks
  | unregisters hmarks =>
    exact h.change h.timed h.ahead hmarks fun _ _ hawaits => hawaits.congr rfl rfl rfl
  | posts hmail hdelayed hposted =>
    refine h.change (fun entry hentry => h.timed entry (hdelayed hentry)) h.ahead hmarks
      fun name _ hawaits => ?_
    cases hawaits with
    | queued hnames hname => exact .queued (hmail hnames) hname
    | delayed hentry hname =>
      -- a timer that went off has queued its wipe
      rcases hposted _ hentry with hkept | hqueued
      · exact .delayed hkept hname
      · exact .queued hqueued hname
    | underway ht hname => exact .underway ht hname

/-- A wipe is done with one transport. What else the task had to wipe, it has still to wipe. -/
theorem Settles.heeded (hsettles : r.Settles name r') (h : r.Heeded)
    (hnumbers : (r.tasks.map (·.number)).Nodup) (hmem : t ∈ r.tasks)
    (hnumber : t'.number = t.number) (hwipes : t.wipes ⊆ name :: t'.wipes) :
    (r'.seat t').Heeded := by
  have hkept : ∀ other, other ≠ name → r.Awaits other → (r.seat t').Awaits other := by
    intro other hother hawaits
    rcases hawaits.seat hnumbers hmem hnumber with hseated | howed
    · exact hseated
    · exact .of_seat hmem hnumber ((List.mem_cons.1 (hwipes howed)).resolve_left hother)
  cases hsettles with
  | gone hunknown =>
    refine h.change h.timed h.ahead (fun _ hmark => ⟨hmark, id⟩) fun other hmark => hkept other ?_
    rintro rfl
    exact hunknown (h.known other hmark)
  | wiped =>
    refine h.change h.timed h.ahead (fun _ hmark => ⟨(NameSet.mem_erase.1 hmark).1, id⟩)
      fun other hmark hawaits => ?_
    exact (hkept other (NameSet.mem_erase.1 hmark).2 hawaits).congr rfl rfl rfl
  | later =>
    have hdelayed : (r.delay [name]).Heeded :=
      h.delay (List.Subset.refl _) fun _ hmark => .inl hmark
    refine h.change hdelayed.timed hdelayed.ahead (fun _ hmark => ⟨hmark, id⟩)
      fun other _ hawaits => ?_
    by_cases heq : other = name
    · exact .delayed (List.mem_append_right _ (List.mem_singleton_self _))
        (List.mem_singleton.2 heq)
    · exact ((hkept other heq hawaits).delay [name]).congr rfl rfl rfl

theorem Turn.heeded {issued : Option OpToken} (hturn : r.Turn t issued r') (h : r.Heeded)
    (hnumbers : (r.tasks.map (·.number)).Nodup) (hmem : t ∈ r.tasks) : r'.Heeded := by
  have hmarks : ∀ name ∈ r.marks, name ∈ r.marks ∧ (name ∈ r.registered → name ∈ r.registered) :=
    fun _ hname => ⟨hname, id⟩
  have hcounts : ∀ ops k, ({ r with ops, nextNumber := r.nextNumber + k } : Roster).Heeded :=
    fun ops k => h.change (h.timed.rearm (.same r k)) (h.rearm (.same r k)) hmarks
      fun _ _ hawaits => hawaits.congr rfl rfl rfl
  cases hturn with
  | stays => exact h
  | goes hcontinues _ hwipes _ => exact (hcounts _ _).seat hnumbers hmem hcontinues.number hwipes
  | prepares hcontinues _ hwipes _ | starts _ hcontinues _ hwipes _ _ _ =>
    exact h.change h.timed h.ahead hmarks fun _ _ hawaits =>
      (hawaits.seat_of_subset hnumbers hmem hcontinues.number hwipes).congr rfl rfl rfl
  | @heeds t' token _ hcontinues _ hwipes _ =>
    obtain ⟨told, htold, hsame⟩ := mem_cancel hnumbers hmem token
    have hnumber : told.number = t.number := by rcases hsame with rfl | rfl <;> rfl
    have hwipes' : told.wipes = t.wipes := by rcases hsame with rfl | rfl <;> rfl
    refine (h.cancel hnumbers token).seat ?_ htold (hcontinues.number.trans hnumber.symm) ?_
    · rw [cancel_numbers]
      exact hnumbers
    · rw [hwipes']
      exact hwipes
  | settles hcontinues _ hwipes hsettles =>
    exact hsettles.heeded h hnumbers hmem hcontinues.number hwipes
  | @closes asked t' ops k hpass hcontinues _ _ =>
    have htasks := mind_tasks { r with ops, nextNumber := r.nextNumber + k } asked
    refine ((hcounts ops k).mind asked).seat ?_ ?_ hcontinues.number ?_
    · rw [htasks]
      exact hnumbers
    · rw [htasks]
      exact hmem
    · rw [Task.wipes_of_pass hpass]
      exact List.nil_subset _
  | departs hpass =>
    obtain ⟨ops, hforget⟩ := r.forget_eq t.token
    rw [hforget]
    exact (h.ops ops).drop hnumbers hmem (Task.wipes_of_pass hpass)
  | quits _ hnothing => exact h.drop hnumbers hmem hnothing

end Roster

namespace System

theorem wakeUp_roster (s : System) (scheduleChanged : Bool) :
    (s.wakeUp scheduleChanged).roster = s.roster := by
  refine wakeUp_elim rfl ?writes ?armsKeyValue ?armsFull
  case writes => exact fun s' h => (s'.requestScheduleWrite_roster).trans h
  case armsKeyValue => exact fun s' h => (s'.scheduleKeyValueJob_roster).trans h
  case armsFull => exact fun s' h => (s'.scheduleNextFullJob_roster 0).trans h

/-- The roster of an engine to which nothing has happened. -/
theorem start_roster {settings : Settings} {disk : Disk} {device : Device} {s : System}
    (h : System.start settings disk device.fresh = .ok s) :
    s.roster =
      { ops := {}, tokens := {}, handed := [], tasks := [], registered := [], marks := .empty
        mail := [], delayed := [], alarm := none, looping := true
        nextNumber := 0, worked := [] } := by
  obtain ⟨-, _, disk', -, -, hs⟩ := start_cases h
  obtain ⟨_, _, _, _, _, _, hload⟩ := System.load_eq settings disk' device.fresh
  rw [hs, wakeUp_roster, hload]
  rfl

end System

namespace World

variable {w : World}

theorem Sound.task_numbers (hs : w.Sound) : (w.system.roster.tasks.map (·.number)).Nodup := by
  have hnumbers : ((w.system.engine.tasks.map Task.seat).map (·.number)).Nodup := hs.numbers
  rwa [List.map_map] at hnumbers

theorem run_heeded (events : List Event) (hs : w.Sound) (h : w.system.roster.Heeded) :
    (w.run events).system.roster.Heeded := by
  induction events generalizing w with
  | nil => exact h
  | cons event events ih =>
    have hs' : (w.happen event).Sound := run_sound [event] hs
    refine ih hs' ?_
    cases happen_duty hs h.timed event with
    | deed _ _ hdeed => exact hdeed.heeded h hs.task_numbers
    | turn hmem _ _ hturn => exact hturn.heeded h hs.task_numbers hmem

theorem opened_heeded {settings : Settings} {disk : Disk} {device : Device} {s : System}
    (h : System.start settings disk device.fresh = .ok s) : (opened s).system.roster.Heeded := by
  rw [opened, System.start_roster h]
  exact ⟨fun _ hentry => absurd hentry List.not_mem_nil,
    fun _ halarm => absurd halarm.symm (Option.some_ne_none _),
    fun _ hname => absurd hname NameSet.not_mem_empty,
    fun _ hname => absurd hname NameSet.not_mem_empty⟩

end World

end Holdfast
