import Holdfast.Proofs.Engine.Affairs
import Holdfast.Proofs.Engine.Drained

/-!
# The slot of the scheduled full backup

One package at a time is backed up in full by the schedule. It is taken out of the schedule when
its backup starts and is back there when the backup is done with it. After that the backup gives up
the slot, and after that it ends; anything can happen between these steps.

- `Agenda.Slot`: the slot is free and nobody holds it, or it names the full backup that does;
- `World.live_slot`: this holds after every run;
- `World.replies`: what transports answered to the tasks along a run;
- `World.slot_lifecycle`: **one scheduled full backup at most holds the slot, and its package
  returns to the schedule whatever becomes of it**, with a new last backup exactly if its data was
  accepted and committed;
- `World.slot_outlived`: a backup that has given up the slot still runs. Until it ends another one
  can start, and its package can be taken out of the schedule again.
-/

namespace Holdfast

/-- Whether an errand is a scheduled full backup that has not given up its place. -/
def Errand.holds : Errand → Bool
  | .full _ _ _ stage => !stage.isLeaving
  | .pass _ _ | .passed _ | .other => false

theorem Stage.not_leaving_of_not_done {stage : Stage} (h : stage.isDone = false) :
    stage.isLeaving = false := by
  cases stage <;> first | rfl | cases h

namespace Agenda

variable {a a' : Agenda} {number : Nat} {errand errand' : Errand}

/-! ## The scheduled full backups on an agenda -/

/-- The scheduled full backups that run. -/
def fulls (a : Agenda) : List (Nat × Errand) := a.errands.filter (·.2.isFull)

/-- The scheduled full backups that have not given up their place. -/
def holders (a : Agenda) : List (Nat × Errand) := a.fulls.filter (·.2.holds)

/-- One full backup at most has a place, and the slot names it. -/
inductive Slot (a : Agenda) : Prop where
  | free : a.running = none → a.holders = [] → Slot a
  | taken {number : Nat} {p : Package} {lastBackup : Int} {token : OpToken} {stage : Stage} :
    a.running = some (token, p.name) →
    a.holders = [(number, .full p lastBackup (some token) stage)] → Slot a

theorem mem_fulls {entry : Nat × Errand} :
    entry ∈ a.fulls ↔ entry ∈ a.errands ∧ entry.2.isFull = true := List.mem_filter

theorem mem_holders {entry : Nat × Errand} :
    entry ∈ a.holders ↔ entry ∈ a.errands ∧ entry.2.holds = true := by
  have hfull : entry.2.holds = true → entry.2.isFull = true := by
    cases entry.2 <;> first | exact fun _ => rfl | exact nofun
  rw [holders, List.mem_filter, mem_fulls, and_assoc, and_iff_right_of_imp hfull]

theorem enter_fulls (a : Agenda) (number : Nat) (h : errand.isFull = false) :
    (a.enter number errand).fulls = a.fulls := by
  simp [fulls, enter, h]

theorem drop_fulls (a : Agenda) (number : Nat) :
    (a.drop number).fulls = a.fulls.filter (fun entry => entry.1 ≠ number) := by
  simp only [fulls, drop, List.filter_filter, Bool.and_comm]

/-- The end of another task. -/
theorem drop_fulls_plain (ha : a.Distinct) (hmem : (number, errand) ∈ a.errands)
    (h : errand.isFull = false) : (a.drop number).fulls = a.fulls := by
  rw [drop_fulls]
  refine List.filter_eq_self.2 fun entry hentry => decide_eq_true ?_
  rintro rfl
  obtain ⟨hentry, hfull⟩ := mem_fulls.1 hentry
  rw [ha.eq hentry hmem, h] at hfull
  cases hfull

/-- A change of errands that leaves full backups what they are. -/
theorem map_fulls {f : Nat × Errand → Nat × Errand}
    (hkind : ∀ entry ∈ a.errands, (f entry).2.isFull = entry.2.isFull) :
    (a.errands.map f).filter (·.2.isFull) = a.fulls.map f := by
  rw [fulls, List.filter_map]
  congr 1
  exact List.filter_congr hkind

theorem cancel_fulls (a : Agenda) (number : Nat) : (a.cancel number).fulls = a.fulls := by
  have hkind : ∀ errand : Errand, errand.cancel.isFull = errand.isFull := by
    intro errand
    cases errand <;> rfl
  have hsame : ∀ errand : Errand, errand.isFull = true → errand.cancel = errand := by
    rintro (_ | _ | _ | _) hfull
    · cases hfull
    · cases hfull
    · rfl
    · cases hfull
  have hmap := @map_fulls a (fun entry =>
    if entry.1 = number then (entry.1, entry.2.cancel) else entry) fun entry _ => by
      split
      · exact hkind entry.2
      · rfl
  refine Eq.trans hmap (Eq.trans (List.map_congr_left fun entry hentry => ?_) (List.map_id _))
  split
  · rw [hsame entry.2 (mem_fulls.1 hentry).2]
    rfl
  · rfl

theorem cancelAll_fulls (a : Agenda) (numbers : List Nat) :
    (numbers.foldl Agenda.cancel a).fulls = a.fulls :=
  List.foldlRecOn (motive := fun a' : Agenda => a'.fulls = a.fulls) numbers Agenda.cancel rfl
    fun a h number _ => (cancel_fulls a number).trans h

theorem seat_fulls (ha : a.Distinct) (hmem : (number, errand) ∈ a.errands)
    (h : errand'.isFull = errand.isFull) : (a.seat number errand').fulls =
      a.fulls.map fun entry => if entry.1 = number then (number, errand') else entry := by
  refine map_fulls fun entry hentry => ?_
  split
  · rename_i hnumber
    obtain ⟨_, old⟩ := entry
    cases hnumber
    rw [ha.eq hentry hmem]
    exact h
  · rfl

@[simp] theorem request_fulls (a : Agenda) : a.request.fulls = a.fulls := by
  rw [fulls, request_errands, fulls]

@[simp] theorem reschedule_fulls (a : Agenda) (q : Schedule) :
    (a.reschedule q).fulls = a.fulls := request_fulls _

@[simp] theorem reschedule_running (a : Agenda) (q : Schedule) :
    (a.reschedule q).running = a.running := request_running _

/-- Another errand for a task that is no full backup. -/
theorem seat_fulls_plain (ha : a.Distinct) (hmem : (number, errand) ∈ a.errands)
    (h : errand.isFull = false) (h' : errand'.isFull = false) :
    (a.seat number errand').fulls = a.fulls := by
  rw [seat_fulls ha hmem (h'.trans h.symm)]
  refine Eq.trans (List.map_congr_left fun entry hentry => if_neg ?_) (List.map_id _)
  rintro rfl
  obtain ⟨hentry, hfull⟩ := mem_fulls.1 hentry
  rw [ha.eq hentry hmem, h] at hfull
  cases hfull

/-- Another errand for a full backup, which keeps its place. -/
theorem seat_holders (ha : a.Distinct) (hmem : (number, errand) ∈ a.errands)
    (hfull : errand'.isFull = errand.isFull) (hholds : errand'.holds = errand.holds) :
    (a.seat number errand').holders =
      a.holders.map fun entry => if entry.1 = number then (number, errand') else entry := by
  rw [holders, seat_fulls ha hmem hfull, List.filter_map, holders]
  congr 1
  refine List.filter_congr fun entry hentry => ?_
  simp only [Function.comp_apply]
  split
  · rename_i hnumber
    obtain ⟨_, old⟩ := entry
    cases hnumber
    rw [ha.eq (mem_fulls.1 hentry).1 hmem]
    exact hholds
  · rfl

/-! ## Cancels on the way -/

theorem Heeds.running (h : a.Heeds a') : a'.running = a.running := by
  rcases h with rfl | ⟨_, rfl⟩ <;> rfl

theorem Heeds.fulls (h : a.Heeds a') : a'.fulls = a.fulls := by
  rcases h with rfl | ⟨number, rfl⟩
  · rfl
  · exact cancel_fulls a number

/-- Full backups are told apart by what the agenda knows of them. -/
theorem mem_of_fulls {entry : Nat × Errand} (h : a'.fulls.Perm a.fulls)
    (hfull : entry.2.isFull = true) (hmem : entry ∈ a'.errands) : entry ∈ a.errands :=
  (mem_fulls.1 (h.mem_iff.1 (mem_fulls.2 ⟨hmem, hfull⟩))).1

/-! ## What keeps the slot -/

/-- The same full backups in another order. -/
theorem Slot.perm (h : a.Slot) (hrunning : a'.running = a.running)
    (hfulls : a'.fulls.Perm a.fulls) : a'.Slot := by
  have hholders : a'.holders.Perm a.holders := hfulls.filter _
  cases h with
  | free hfree hnone =>
    rw [hnone] at hholders
    exact .free (hrunning.trans hfree) hholders.eq_nil
  | taken htaken hone =>
    rw [hone] at hholders
    exact .taken (hrunning.trans htaken) (List.perm_singleton.1 hholders)

theorem Slot.congr (h : a.Slot) (hrunning : a'.running = a.running) (hfulls : a'.fulls = a.fulls) :
    a'.Slot :=
  h.perm hrunning (.of_eq hfulls)

/-- The one full backup that has a place. -/
theorem Slot.of_mem (h : a.Slot) {p : Package} {lastBackup : Int} {token : Option OpToken}
    {stage : Stage} (hmem : (number, .full p lastBackup token stage) ∈ a.errands)
    (hstage : stage.isLeaving = false) :
    ∃ running, token = some running ∧ a.running = some (running, p.name) ∧
      a.holders = [(number, .full p lastBackup token stage)] := by
  have hholder := mem_holders.2 ⟨hmem, show (!stage.isLeaving) = true by rw [hstage]; rfl⟩
  cases h with
  | free _ hnone =>
    rw [hnone] at hholder
    cases hholder
  | taken htaken hone =>
    rw [hone] at hholder
    cases List.mem_singleton.1 hholder
    exact ⟨_, rfl, htaken, hone⟩

theorem Slot.length_le_one (h : a.Slot) : a.holders.length ≤ 1 := by
  cases h with
  | free _ hnone => simp [hnone]
  | taken _ hone => simp [hone]

/-- The full backup that has a place stands at another stage. -/
theorem Slot.seat (h : a.Slot) (ha : a.Distinct) {p : Package} {lastBackup : Int}
    {token : Option OpToken} {old stage : Stage}
    (hmem : (number, .full p lastBackup token old) ∈ a.errands) (hold : old.isLeaving = false)
    (hstage : stage.isLeaving = false) :
    (a.seat number (.full p lastBackup token stage)).Slot := by
  obtain ⟨running, rfl, hrunning, hone⟩ := h.of_mem hmem hold
  have hseated : (a.seat number (.full p lastBackup (some running) stage)).holders = _ :=
    seat_holders ha hmem rfl (by simp only [Errand.holds, hold, hstage])
  rw [hone, List.map_singleton, if_pos rfl] at hseated
  exact .taken hrunning hseated

@[simp] theorem vacate_errands (a : Agenda) (token : Option OpToken) :
    (a.vacate token).errands = a.errands := by
  obtain ⟨_, heq⟩ := a.vacate_eq token
  rw [heq]

/-- The full backup that has a place gives it up. -/
theorem Slot.vacate (h : a.Slot) {p : Package} {lastBackup : Int} {token : Option OpToken}
    {status : Status} (hmem : (number, .full p lastBackup token (.closing status)) ∈ a.errands) :
    ((a.vacate token).seat number (.full p lastBackup token .leaving)).Slot := by
  obtain ⟨running, rfl, hrunning, hone⟩ := h.of_mem hmem rfl
  refine .free ?_ (List.eq_nil_iff_forall_not_mem.2 fun entry hentry => ?_)
  · show (a.vacate (some running)).running = none
    rw [Agenda.vacate, hrunning]
    simp only [if_true]
  · obtain ⟨hentry, hholds⟩ := mem_holders.1 hentry
    rcases mem_seat hentry with rfl | ⟨hold, hne⟩
    · cases hholds
    · rw [vacate_errands] at hold
      have hholder := mem_holders.2 ⟨hold, hholds⟩
      rw [hone] at hholder
      exact hne (congrArg Prod.fst (List.mem_singleton.1 hholder))

/-- What a full backup that is done with its package stands at then. -/
theorem endFull_eq (a : Agenda) (number : Nat) (p : Package) (lastBackup : Int)
    (token : Option OpToken) (status : Status) : ∃ (a₁ : Agenda) (stage : Stage),
      a.endFull number p lastBackup token status =
        a₁.seat number (.full p lastBackup token stage) ∧
      a₁.running = a.running ∧ a₁.errands = a.errands ∧
      ((status = .success ∨ a.retryAt?.isSome = true) ∧ stage = .closing status ∨
        status ≠ .success ∧ a.retryAt? = none ∧ stage = .fallen) := by
  unfold endFull
  split
  · rename_i hsuccess
    exact ⟨_, _, rfl, reschedule_running _ _, request_errands _, .inl ⟨.inl hsuccess, rfl⟩⟩
  · rename_i hfailed
    split
    · rename_i dueAt hretry
      exact ⟨_, _, rfl, reschedule_running _ _, request_errands _,
        .inl ⟨.inr (by rw [hretry]; rfl), rfl⟩⟩
    · rename_i hretry
      exact ⟨_, _, rfl, rfl, rfl, .inr ⟨hfailed, hretry, rfl⟩⟩

/-- The step of a task that is no full backup leaves the full backups alone. -/
theorem Turn.fulls_plain {assents : Prop} (hturn : Turn a assents number errand a')
    (ha : a.Distinct) (hmem : (number, errand) ∈ a.errands) (h : errand.isFull = false) :
    a'.fulls = a.fulls ∧ a'.running = a.running := by
  cases hturn with
  | stays _ hheeds => exact ⟨hheeds.fulls, hheeds.running⟩
  | files package => exact ⟨reschedule_fulls _ _, reschedule_running _ _⟩
  | wipes packages disk => exact ⟨rfl, rfl⟩
  | quits => exact ⟨drop_fulls_plain ha hmem rfl, rfl⟩
  | @ends drained _ status disk _ =>
    obtain ⟨pending, heq, -⟩ := a.endPass_eq number drained status disk
    have hseated := @seat_fulls_plain { a with pending } number _ (.passed status) ha hmem rfl rfl
    rw [heq]
    exact ⟨hseated, rfl⟩
  | departs =>
    unfold closePass
    split
    · exact ⟨drop_fulls_plain ha hmem rfl, rfl⟩
    · exact ⟨drop_fulls_plain (a := a.arm) ha hmem rfl, rfl⟩
  | moves | closes | vacates | leaves => cases h

/-- A step of a task leaves the other full backups alone. -/
theorem Turn.mem_iff {assents : Prop} (hturn : Turn a assents number errand a') (ha : a.Distinct)
    (hmem : (number, errand) ∈ a.errands) {entry : Nat × Errand} (hfull : entry.2.isFull = true)
    (hne : entry.1 ≠ number) : entry ∈ a'.errands ↔ entry ∈ a.errands := by
  have hseat : ∀ (a₁ : Agenda) (errand' : Errand), (entry ∈ a₁.errands ↔ entry ∈ a.errands) →
      (entry ∈ (a₁.seat number errand').errands ↔ entry ∈ a.errands) := by
    intro a₁ errand' hsame
    rw [← hsame]
    constructor
    · intro hmem
      rcases mem_seat hmem with rfl | ⟨hold, -⟩
      · exact absurd rfl hne
      · exact hold
    · exact fun hmem => List.mem_map.2 ⟨entry, hmem, if_neg hne⟩
  have hfulls : ∀ {a₁ : Agenda}, a₁.fulls = a.fulls → (entry ∈ a₁.errands ↔ entry ∈ a.errands) :=
    fun hsame => ⟨mem_of_fulls (.of_eq hsame) hfull, mem_of_fulls (.of_eq hsame.symm) hfull⟩
  by_cases hplain : errand.isFull = false
  · exact hfulls (hturn.fulls_plain ha hmem hplain).1
  cases hturn with
  | moves _ hheeds => exact hseat _ _ (hfulls hheeds.fulls)
  | @closes p lastBackup token _ status _ _ =>
    obtain ⟨a₁, stage, heq, -, herrands, -⟩ := a.endFull_eq number p lastBackup token status
    rw [heq]
    exact hseat _ _ (by rw [herrands])
  | @vacates p lastBackup token status => exact hseat _ _ (by rw [vacate_errands])
  | leaves =>
    rw [mem_drop]
    exact and_iff_left hne
  | stays hnot =>
    cases errand <;> first | exact absurd rfl hplain | cases hnot
  | files | wipes | quits | ends | departs => exact absurd rfl hplain

theorem Turn.slot {assents : Prop} (hturn : Turn a assents number errand a') (ha : a.Distinct)
    (hmem : (number, errand) ∈ a.errands) (h : a.Slot) : a'.Slot := by
  by_cases hplain : errand.isFull = false
  · obtain ⟨hfulls, hrunning⟩ := hturn.fulls_plain ha hmem hplain
    exact h.congr hrunning hfulls
  cases hturn with
  | moves hadvances hheeds =>
    exact (h.congr hheeds.running hheeds.fulls).seat (hheeds.distinct ha)
      (mem_of_fulls (.of_eq hheeds.fulls.symm) rfl hmem)
      (Stage.not_leaving_of_not_done hadvances.before)
      (Stage.not_leaving_of_not_done hadvances.after)
  | @closes p lastBackup token old status hold _ =>
    obtain ⟨a₁, stage, heq, hrunning, herrands, hstage⟩ :=
      a.endFull_eq number p lastBackup token status
    have hkept : stage.isLeaving = false := by
      rcases hstage with ⟨-, rfl⟩ | ⟨-, -, rfl⟩ <;> rfl
    have hslot : a₁.Slot := h.congr hrunning (by rw [fulls, herrands, fulls])
    have hdistinct : a₁.Distinct := by
      unfold Distinct
      rw [herrands]
      exact ha
    rw [heq]
    exact hslot.seat hdistinct (herrands ▸ hmem) (Stage.not_leaving_of_not_done hold) hkept
  | vacates => exact h.vacate hmem
  | @leaves p lastBackup token =>
    -- it holds no place any more
    have hkept : (a.drop number).holders = a.holders := by
      rw [holders, drop_fulls, List.filter_filter, holders]
      refine List.filter_congr fun entry hentry => ?_
      by_cases hnumber : entry.1 = number
      · obtain ⟨_, old⟩ := entry
        cases hnumber
        rw [ha.eq (mem_fulls.1 hentry).1 hmem]
        simp [Errand.holds, Stage.isLeaving]
      · simp [hnumber]
    cases h with
    | free hfree hnone => exact .free hfree (hkept.trans hnone)
    | taken htaken hone => exact .taken htaken (hkept.trans hone)
  | stays hnot =>
    cases errand <;> first | exact absurd rfl hplain | cases hnot
  | files | wipes | quits | ends | departs => exact absurd rfl hplain

end Agenda

open Agenda

namespace World

variable {w : World}

/-! ## Answers of transports -/

/-- The answer that an incident brings to a task, by the number of the task. The question for the
dataset is none that a backup stands or falls with. -/
def reply? (w : World) : Incident → Option (Nat × TransportCall × Device.Reply)
  | .event (.task number) =>
    (w.system.engine.tasks.find? (·.number == number)).bind fun t =>
      match t.stage with
      | .calling .currentRestoreSet => none
      | .calling call =>
        if w.system.isReady t then
          some (number, call, (w.system.device.answer t.transport call).1)
        else none
      | _ => none
  | _ => none

/-- What transports answered to the tasks along a run, oldest first. -/
def replies (w : World) : List Incident → List (Nat × TransportCall × Device.Reply)
  | [] => []
  | i :: rest => (w.reply? i).toList ++ (w.meet i).replies rest

theorem replies_concat (w : World) (incidents : List Incident) (i : Incident) :
    w.replies (incidents ++ [i]) = w.replies incidents ++ ((w.live incidents).reply? i).toList := by
  induction incidents generalizing w with
  | nil => simp [replies, live]
  | cons j incidents ih =>
    rw [List.cons_append, replies, ih, replies, List.append_assoc]
    rfl

/-- Only the step of a task brings an answer. -/
theorem reply_calm {i : Incident} (h : ¬ w.Stirs i) : w.reply? i = none := by
  cases i with
  | shutdown => rfl
  | event event =>
    cases event with
    | task number =>
      simp only [reply?]
      cases hfind : w.system.engine.tasks.find? (·.number == number) with
      | none => rfl
      | some t =>
        have hready : w.system.isReady t = false :=
          Bool.eq_false_iff.2 fun hready => h ⟨t, hfind, hready⟩
        simp only [Option.bind_some, hready]
        split <;> rfl
    | command | operation | timers | clock | sendBack | wake | call | select | sets | land | drop
    | outside => rfl

theorem reply_task {t : Task} (hfind : w.system.engine.tasks.find? (·.number == t.number) = some t)
    (hready : w.system.isReady t = true) {number : Nat} {call : TransportCall}
    {reply : Device.Reply} : w.reply? (.event (.task t.number)) = some (number, call, reply) ↔
      number = t.number ∧ t.stage = .calling call ∧ call ≠ .currentRestoreSet ∧
        (w.system.device.answer t.transport call).1 = reply := by
  unfold reply?
  simp only [hfind, Option.bind_some]
  split
  · rename_i hstage
    refine ⟨nofun, fun ⟨_, hcall, hne, _⟩ => ?_⟩
    cases hstage.symm.trans hcall
    exact absurd rfl hne
  · rename_i stage other hne hstage
    rw [if_pos hready, hstage]
    simp only [Option.some.injEq, Prod.mk.injEq, Stage.calling.injEq]
    constructor
    · rintro ⟨rfl, rfl, hreply⟩
      exact ⟨rfl, rfl, hne, hreply⟩
    · rintro ⟨rfl, rfl, -, hreply⟩
      exact ⟨rfl, rfl, hreply⟩
  · rename_i hother
    refine ⟨nofun, fun h => ?_⟩
    exact absurd h.2.1 (hother call)

/-- An answer comes to a task that waits for it. -/
theorem reply_mem {i : Incident} {number : Nat} {call : TransportCall} {reply : Device.Reply}
    (h : w.reply? i = some (number, call, reply)) :
    ∃ t ∈ w.system.engine.tasks, t.number = number ∧ t.stage = .calling call := by
  unfold reply? at h
  split at h
  · obtain ⟨t, hfind, hreply⟩ := Option.bind_eq_some_iff.1 h
    refine ⟨t, List.mem_of_find?_eq_some hfind, ?_⟩
    have hnumber := List.find?_some hfind
    split at hreply
    · cases hreply
    · rename_i hstage
      split at hreply
      · cases hreply
        exact ⟨by simpa using hnumber, hstage⟩
      · cases hreply
    · cases hreply
  · cases h

/-! ## What incidents do to full backups -/

/-- What an incident does to the full backups that run. -/
inductive OnFulls (w : World) : Incident → Agenda → Prop where
  | same {i : Incident} {a : Agenda} : w.reply? i = none →
    a.running = w.system.agenda.running → a.fulls.Perm w.system.agenda.fulls → OnFulls w i a
  | begins {a : Agenda} {entry : ScheduleEntry} {p : Package} {token : OpToken} :
    w.system.beginFull.1 = .dispatched p.name → entry ∈ w.system.engine.schedule.entries →
    entry.package = p.name → w.system.agenda.running = none →
    a.running = some (token, p.name) →
    a.fulls = w.system.agenda.fulls ++
      [(w.system.engine.nextNumber, .full p entry.lastBackup (some token) .opening)] →
    OnFulls w (.event (.call .beginFull)) a
  | turn {a : Agenda} {t : Task} :
    w.system.engine.tasks.find? (·.number == t.number) = some t → w.system.isReady t = true →
    Turn w.system.agenda (w.system.Assents t) t.number t.errand a →
    OnFulls w (.event (.task t.number)) a

variable {i : Incident} {a : Agenda} {number : Nat} {p : Package} {lastBackup : Int}
  {token : Option OpToken} {stage : Stage}

theorem Affair.onFulls (h : w.Affair i a) : w.OnFulls i a := by
  cases h with
  | idle hcalm => exact .same (reply_calm hcalm) rfl (.refl _)
  | reorders hcalm hperm => exact .same (reply_calm hcalm) rfl (hperm.filter _)
  | begins number hcalm => exact .same (reply_calm hcalm) rfl (.of_eq (enter_fulls _ number rfl))
  | starts number _ _ | serves _ number _ =>
    exact .same rfl rfl (.of_eq (enter_fulls _ number rfl))
  | cancels number hcalm => exact .same (reply_calm hcalm) rfl (.of_eq (cancel_fulls _ number))
  | cancelsAll numbers =>
    have hfulls := cancelAll_fulls w.system.agenda numbers
    obtain ⟨_, heq⟩ := w.system.agenda.cancelAll_eq numbers
    rw [heq] at hfulls ⊢
    exact .same rfl rfl (.of_eq hfulls)
  | ticks _ =>
    unfold Agenda.post
    split <;> exact .same rfl rfl (.refl _)
  | full hbegins =>
    generalize houtcome : w.system.beginFull.1 = outcome at hbegins
    cases hbegins with
    | nothing _ => exact .same rfl rfl (.refl _)
    | sifts _ _ => exact .same rfl (reschedule_running _ _) (.of_eq (reschedule_fulls _ _))
    | @starts entry p q chance token hidle hsifted hentry hcandidate =>
      obtain ⟨old, hold, hpackage, hlast⟩ := hsifted.old entry hentry
      have hname : p.name = entry.package := by simpa using List.find?_some hcandidate.1
      rw [← hname] at houtcome hpackage ⊢
      refine .begins houtcome hold hpackage hidle (request_running _) ?_
      rw [hlast]
      exact (request_fulls _).trans (List.filter_append _ _)
  | rules hcalm hrules => cases hrules <;> exact .same (reply_calm hcalm) rfl (.refl _)
  | adds _ _ => exact .same rfl (reschedule_running _ _) (.of_eq (reschedule_fulls _ _))
  | removes _ replacing _ => cases replacing <;> exact .same rfl rfl (.refl _)
  | turn hfind hready hturn => exact .turn hfind hready hturn
  | stages | sleeps | postpones | recounts | writes | stops | saves | resets | registers
  | unregisters | outside => exact .same rfl rfl (.refl _)

theorem OnFulls.slot (h : w.OnFulls i a) (hs : w.system.agenda.Distinct)
    (hslot : w.system.agenda.Slot) : a.Slot := by
  cases h with
  | same _ hrunning hfulls => exact hslot.perm hrunning hfulls
  | @begins _ entry p token _ _ _ hidle hrunning hfulls =>
    cases hslot with
    | free _ hnone =>
      have hheld : a.holders = [(w.system.engine.nextNumber,
          .full p entry.lastBackup (some token) .opening)] := by
        rw [holders, hfulls, List.filter_append, ← holders, hnone]
        rfl
      exact .taken hrunning hheld
    | taken htaken _ =>
      rw [htaken] at hidle
      cases hidle
  | turn hfind _ hturn =>
    exact hturn.slot hs (System.mem_errands (List.mem_of_find?_eq_some hfind)) hslot

/-- The slot is in order after every run. -/
theorem live_slot (hw : w.Orderly) (h : w.system.agenda.Slot) (incidents : List Incident) :
    (w.live incidents).system.agenda.Slot :=
  hw.live_invariant h (fun _ hw i h => (hw.affair i).onFulls.slot hw.numbered.distinct h) incidents

theorem opened_fulls {settings : Settings} {disk : Disk} {device : Device} {s : System}
    (h : System.start settings disk device.fresh = .ok s) : s.agenda.fulls = [] := by
  obtain ⟨-, -, herrands, -⟩ := System.start_idle h
  rw [fulls, herrands]
  rfl

theorem opened_slot {settings : Settings} {disk : Disk} {device : Device} {s : System}
    (h : System.start settings disk device.fresh = .ok s) : s.agenda.Slot :=
  .free (System.start_idle h).2.1 (by rw [holders, opened_fulls h]; rfl)

/-! ## One full backup -/

/-- How a full backup came to stand where it does after an incident that left the given agenda. -/
inductive FullStep (w : World) : Incident → Agenda → Nat → Package → Int → Stage → Prop where
  /-- It stands where it stood, and nothing was answered to it. -/
  | stays {i : Incident} {a : Agenda} {number : Nat} {p : Package} {lastBackup : Int}
      (token : Option OpToken) {stage : Stage} :
    (number, .full p lastBackup token stage) ∈ w.system.agenda.errands →
    (∀ call reply, w.reply? i ≠ some (number, call, reply)) →
    FullStep w i a number p lastBackup stage
  /-- It goes on. It comes to its commit only when its data is accepted, and beyond that only when
  that is committed. -/
  | goes {i : Incident} {a : Agenda} {number : Nat} {p : Package} {lastBackup : Int}
      (token : Option OpToken) {old stage : Stage} :
    (number, .full p lastBackup token old) ∈ w.system.agenda.errands →
    old.isDone = false → old ≠ .calling .currentRestoreSet → stage.isDone = false →
    (stage = .calling .finishBackup ↔
      w.reply? i = some (number, .performFullBackup p.name, .ok .ok)) →
    (stage = .calling .currentRestoreSet ↔ w.reply? i = some (number, .finishBackup, .ok .ok)) →
    FullStep w i a number p lastBackup stage
  /-- It is done with its package, which is back in the schedule. -/
  | closes {i : Incident} {a : Agenda} {number : Nat} {p : Package} {lastBackup : Int}
      (token : Option OpToken) {old : Stage} {status : Status} :
    (number, .full p lastBackup token old) ∈ w.system.agenda.errands → old.isDone = false →
    (status = .success ↔ old = .calling .currentRestoreSet ∨
      w.reply? i = some (number, .finishBackup, .ok .ok)) →
    status = .success ∨ w.system.agenda.retryAt?.isSome = true →
    a = w.system.agenda.endFull number p lastBackup token status →
    FullStep w i a number p lastBackup (.closing status)
  /-- It failed, and no clock can show when it would be tried again. -/
  | falls {i : Incident} {a : Agenda} {number : Nat} {p : Package} {lastBackup : Int}
      (token : Option OpToken) {old : Stage} :
    (number, .full p lastBackup token old) ∈ w.system.agenda.errands → old.isDone = false →
    old ≠ .calling .currentRestoreSet → w.reply? i ≠ some (number, .finishBackup, .ok .ok) →
    w.system.agenda.retryAt? = none → FullStep w i a number p lastBackup .fallen
  /-- It gives up its place. -/
  | vacates {i : Incident} {a : Agenda} {number : Nat} {p : Package} {lastBackup : Int}
      (token : Option OpToken) {status : Status} :
    (number, .full p lastBackup token (.closing status)) ∈ w.system.agenda.errands →
    FullStep w i a number p lastBackup .leaving
  | begins {a : Agenda} {p : Package} {entry : ScheduleEntry} :
    w.system.beginFull.1 = .dispatched p.name → entry ∈ w.system.engine.schedule.entries →
    entry.package = p.name →
    FullStep w (.event (.call .beginFull)) a w.system.engine.nextNumber p entry.lastBackup .opening

theorem errand_eq_full {t : Task} (h : t.errand = .full p lastBackup token stage) :
    t.job = .full p lastBackup ∧ t.token = token ∧ t.stage = stage := by
  unfold Task.errand at h
  cases hjob : t.job with
  | full p' lastBackup' =>
    rw [hjob] at h
    cases h
    exact ⟨rfl, rfl, rfl⟩
  | keyValue =>
    simp only [hjob] at h
    split at h <;> cases h
  | wipe | clearData | restore =>
    rw [hjob] at h
    cases h

/-- A full backup that gets an answer stands at the call. -/
theorem reply_stage {call : TransportCall} {reply : Device.Reply} (hs : w.system.agenda.Distinct)
    (hmem : (number, .full p lastBackup token stage) ∈ w.system.agenda.errands)
    (hreply : w.reply? i = some (number, call, reply)) : stage = .calling call := by
  obtain ⟨t, ht, rfl, hstage⟩ := reply_mem hreply
  obtain ⟨-, -, hsame⟩ := errand_eq_full (hs.eq (System.mem_errands ht) hmem)
  exact hsame.symm.trans hstage

/-- The transport assents to a call of a backup when that is what an incident brings. -/
theorem assents_iff {t : Task}
    (hfind : w.system.engine.tasks.find? (·.number == t.number) = some t)
    (hready : w.system.isReady t = true) (call : TransportCall)
    (hcall : call ≠ .currentRestoreSet) :
    t.stage = .calling call ∧ w.system.Assents t ↔
      w.reply? (.event (.task t.number)) = some (t.number, call, .ok .ok) := by
  rw [reply_task hfind hready]
  constructor
  · rintro ⟨hstage, other, hother, hreply⟩
    cases hother.symm.trans hstage
    exact ⟨rfl, hstage, hcall, hreply⟩
  · rintro ⟨-, hstage, -, hreply⟩
    exact ⟨hstage, call, hstage, hreply⟩

/-- The step of a task and the full backups after it. -/
theorem turn_full {t : Task}
    (hfind : w.system.engine.tasks.find? (·.number == t.number) = some t)
    (hready : w.system.isReady t = true) (hs : w.system.agenda.Distinct)
    (hturn : Turn w.system.agenda (w.system.Assents t) t.number t.errand a)
    (hmem : (number, .full p lastBackup token stage) ∈ a.errands) :
    w.FullStep (.event (.task t.number)) a number p lastBackup stage := by
  have herrand := System.mem_errands (List.mem_of_find?_eq_some hfind)
  by_cases hnumber : number = t.number
  · subst hnumber
    by_cases hplain : t.errand.isFull = false
    · -- a task that is no full backup before is none after
      have hold := mem_of_fulls (.of_eq (hturn.fulls_plain hs herrand hplain).1) rfl hmem
      rw [hs.eq herrand hold] at hplain
      cases hplain
    have hoffer := assents_iff hfind hready (.performFullBackup p.name) nofun
    have hcommit := assents_iff hfind hready .finishBackup nofun
    generalize herr : t.errand = errand at hturn hplain herrand
    cases hturn with
    | @moves _ _ token' old stage' a' hadvances hheeds =>
      rcases mem_seat hmem with heq | ⟨-, hne⟩
      · cases heq
        obtain ⟨-, -, rfl⟩ := errand_eq_full herr
        refine .goes token herrand hadvances.before hadvances.last hadvances.after
          (hadvances.commits.trans hoffer) (hadvances.asks.trans ?_)
        rw [← hcommit]
        exact ⟨fun hstage => ⟨hstage, hadvances.committed hstage⟩, And.left⟩
      · exact absurd rfl hne
    | @closes p' lastBackup' token' old status hold hsuccess =>
      obtain ⟨-, -, rfl⟩ := errand_eq_full herr
      obtain ⟨a₁, stage', heq, -, -, hstage⟩ :=
        w.system.agenda.endFull_eq t.number p' lastBackup' token' status
      rw [heq] at hmem
      rcases mem_seat hmem with hseated | ⟨-, hne⟩
      · cases hseated
        rw [hcommit] at hsuccess
        rcases hstage with ⟨hretry, rfl⟩ | ⟨hfailed, hretry, rfl⟩
        · exact .closes token herrand hold hsuccess hretry rfl
        · exact .falls token herrand hold (fun h => hfailed (hsuccess.2 (.inl h)))
            (fun h => hfailed (hsuccess.2 (.inr h))) hretry
      · exact absurd rfl hne
    | @vacates p' lastBackup' token' status =>
      rcases mem_seat hmem with heq | ⟨-, hne⟩
      · cases heq
        exact .vacates token herrand
      · exact absurd rfl hne
    | leaves => exact absurd rfl (mem_drop.1 hmem).2
    | stays hnot =>
      cases errand <;> first | exact absurd rfl hplain | cases hnot
    | files | wipes | quits | ends | departs => exact absurd rfl hplain
  · refine .stays token ((hturn.mem_iff hs herrand rfl hnumber).1 hmem) fun call reply hreply => ?_
    exact hnumber ((reply_task hfind hready).1 hreply).1

/-- **How a full backup came to stand where it does.** -/
theorem OnFulls.step (h : w.OnFulls i a) (hs : w.system.agenda.Distinct)
    (hmem : (number, .full p lastBackup token stage) ∈ a.errands) :
    w.FullStep i a number p lastBackup stage := by
  -- nothing was answered
  have hstill : ∀ {i : Incident}, w.reply? i = none →
      (number, .full p lastBackup token stage) ∈ w.system.agenda.errands →
      w.FullStep i a number p lastBackup stage :=
    fun hreply hmem => .stays token hmem (by rw [hreply]; nofun)
  cases h with
  | same hreply _ hfulls => exact hstill hreply (mem_of_fulls hfulls rfl hmem)
  | begins houtcome hentry hpackage _ _ hfulls =>
    have hfull := mem_fulls.2 ⟨hmem, rfl⟩
    rw [hfulls] at hfull
    rcases List.mem_append.1 hfull with hold | hnew
    · exact hstill rfl (mem_fulls.1 hold).1
    · cases List.mem_singleton.1 hnew
      exact .begins houtcome hentry hpackage
  | turn hfind hready hturn => exact turn_full hfind hready hs hturn hmem

/-- A full backup is still there after an incident, unless it had given up its place. -/
theorem OnFulls.next (h : w.OnFulls i a) (hs : w.system.agenda.Distinct)
    (hmem : (number, .full p lastBackup token stage) ∈ w.system.agenda.errands) :
    stage = .leaving ∨ ∃ stage, (number, .full p lastBackup token stage) ∈ a.errands := by
  have hfull := mem_fulls.2 ⟨hmem, rfl⟩
  cases h with
  | same _ _ hfulls => exact .inr ⟨_, mem_of_fulls hfulls.symm rfl hmem⟩
  | begins _ _ _ _ _ hfulls =>
    exact .inr ⟨_, (mem_fulls.1 (hfulls ▸ List.mem_append_left _ hfull)).1⟩
  | @turn _ t hfind hready hturn =>
    have herrand := System.mem_errands (List.mem_of_find?_eq_some hfind)
    by_cases hnumber : number = t.number
    · subst hnumber
      have hseated : ∀ (a₁ : Agenda) (stage : Stage) {old : Errand}, (t.number, old) ∈ a₁.errands →
          (t.number, .full p lastBackup token stage) ∈
            (a₁.seat t.number (.full p lastBackup token stage)).errands :=
        fun _ _ _ hold => List.mem_map.2 ⟨_, hold, if_pos rfl⟩
      rw [hs.eq herrand hmem] at hturn
      cases hturn with
      | leaves => exact .inl rfl
      | moves _ hheeds =>
        exact .inr ⟨_, hseated _ _ (mem_of_fulls (.of_eq hheeds.fulls.symm) rfl hmem)⟩
      | @closes _ _ _ _ status _ _ =>
        obtain ⟨a₁, stage', heq, -, herrands, -⟩ :=
          w.system.agenda.endFull_eq t.number p lastBackup token status
        rw [heq]
        exact .inr ⟨_, hseated _ _ (herrands ▸ hmem)⟩
      | vacates => exact .inr ⟨_, hseated _ _ ((vacate_errands _ _).symm ▸ hmem)⟩
      | stays hnot => cases hnot
    · exact .inr ⟨_, (hturn.mem_iff hs herrand rfl hnumber).2 hmem⟩

/-! ## The history of a full backup -/

/-- The call that started a full backup chose an entry with this last backup. -/
def Chose (w : World) (incidents : List Incident) (number : Nat) (package : String)
    (lastBackup : Int) : Prop :=
  ∃ before later entry, incidents = before ++ .event (.call .beginFull) :: later ∧
    (w.live before).system.beginFull.1 = .dispatched package ∧
    (w.live before).system.engine.nextNumber = number ∧
    entry ∈ (w.live before).system.engine.schedule.entries ∧ entry.package = package ∧
    entry.lastBackup = lastBackup

theorem Chose.concat {incidents : List Incident} {package : String}
    (h : w.Chose incidents number package lastBackup) (i : Incident) :
    w.Chose (incidents ++ [i]) number package lastBackup := by
  obtain ⟨before, later, entry, rfl, hchosen⟩ := h
  exact ⟨before, later ++ [i], entry, by simp, hchosen⟩

/-- The transport accepted the data of a full backup, and it committed it. -/
def Committed (w : World) (incidents : List Incident) (number : Nat) (package : String) : Prop :=
  (number, .performFullBackup package, .ok .ok) ∈ w.replies incidents ∧
    (number, .finishBackup, .ok .ok) ∈ w.replies incidents

instance (w : World) (incidents : List Incident) (number : Nat) (package : String) :
    Decidable (w.Committed incidents number package) :=
  inferInstanceAs (Decidable (_ ∧ _))

/-- In an incident of a run the full backup of a number was done with its package. -/
def Returned (w : World) (incidents : List Incident) (number : Nat) : Prop :=
  ∃ before i later, incidents = before ++ i :: later ∧
    (∃ t ∈ (w.live before).system.engine.tasks, t.number = number ∧ t.stage.isDone = false) ∧
    ∃ t ∈ ((w.live before).meet i).system.engine.tasks,
      t.number = number ∧ ∃ status, t.stage = .closing status

theorem Returned.concat {incidents : List Incident} (h : w.Returned incidents number)
    (i : Incident) : w.Returned (incidents ++ [i]) number := by
  obtain ⟨before, j, later, rfl, hreturned⟩ := h
  exact ⟨before, j, later ++ [i], by simp, hreturned⟩

/-- The task of a full backup on the agenda. -/
theorem exists_task (hmem : (number, .full p lastBackup token stage) ∈ w.system.agenda.errands) :
    ∃ t ∈ w.system.engine.tasks, t.number = number ∧ t.job = .full p lastBackup ∧
      t.token = token ∧ t.stage = stage := by
  obtain ⟨t, ht, heq⟩ := List.mem_map.1 hmem
  exact ⟨t, ht, congrArg Prod.fst heq, errand_eq_full (congrArg Prod.snd heq)⟩

/-- What a run tells of the full backups that run. -/
structure Recorded (w : World) (incidents : List Incident) : Prop where
  issued : ∀ reply ∈ w.replies incidents, reply.1 < (w.live incidents).system.engine.nextNumber
  accepted : ∀ {number p lastBackup token stage},
    (number, .full p lastBackup token stage) ∈ (w.live incidents).system.agenda.errands →
    stage = .calling .finishBackup ∨ stage = .calling .currentRestoreSet →
    (number, .performFullBackup p.name, .ok .ok) ∈ w.replies incidents
  committed : ∀ {number p lastBackup token},
    (number, .full p lastBackup token (.calling .currentRestoreSet)) ∈
      (w.live incidents).system.agenda.errands →
    (number, .finishBackup, .ok .ok) ∈ w.replies incidents
  uncommitted : ∀ {number p lastBackup token stage},
    (number, .full p lastBackup token stage) ∈ (w.live incidents).system.agenda.errands →
    stage.isDone = false → stage ≠ .calling .currentRestoreSet →
    (number, .finishBackup, .ok .ok) ∉ w.replies incidents
  returned : ∀ {number p lastBackup token stage},
    (number, .full p lastBackup token stage) ∈ (w.live incidents).system.agenda.errands →
    stage.isDone = true → stage ≠ .fallen → w.Returned incidents number
  chosen : ∀ {number p lastBackup token stage},
    (number, .full p lastBackup token stage) ∈ (w.live incidents).system.agenda.errands →
    w.Chose incidents number p.name lastBackup

theorem Orderly.next_le (hw : w.Orderly) (i : Incident) :
    w.system.engine.nextNumber ≤ (w.meet i).system.engine.nextNumber := by
  obtain ⟨d, hmatter, hshows⟩ := meet_matter hw.numbered i
  exact Nat.le_trans hmatter.next_le hshows.next

/-- An answer goes to a task whose number is issued. -/
theorem Orderly.reply_issued (hw : w.Orderly) {call : TransportCall} {reply : Device.Reply}
    (h : w.reply? i = some (number, call, reply)) : number < w.system.engine.nextNumber := by
  obtain ⟨t, hmem, rfl, -⟩ := reply_mem h
  exact hw.numbered.below t.entry (List.mem_map_of_mem hmem)

/-- One more incident on the record. -/
theorem Recorded.concat {incidents : List Incident} (hw : (w.live incidents).Orderly)
    (h : w.Recorded incidents) (i : Incident) : w.Recorded (incidents ++ [i]) := by
  have hstep : ∀ {number p lastBackup token stage},
      (number, .full p lastBackup token stage) ∈
        (w.live (incidents ++ [i])).system.agenda.errands →
      (w.live incidents).FullStep i ((w.live incidents).meet i).system.agenda number p lastBackup
        stage := by
    intro number p lastBackup token stage hmem
    rw [live_concat] at hmem
    exact (hw.affair i).onFulls.step hw.numbered.distinct hmem
  refine ⟨fun reply hreply => ?_, fun hmem hstage => ?_, fun hmem => ?_, fun hmem hopen hask => ?_,
    fun hmem hdone hstands => ?_, fun hmem => ?_⟩
  · rw [live_concat]
    refine Nat.lt_of_lt_of_le ?_ (hw.next_le i)
    rw [replies_concat, List.mem_append, Option.mem_toList] at hreply
    exact hreply.elim (h.issued reply) hw.reply_issued
  · rw [replies_concat, List.mem_append, Option.mem_toList]
    cases hstep hmem with
    | stays _ hold _ => exact .inl (h.accepted hold hstage)
    | goes _ hold _ _ _ hcommits hasks =>
      rcases hstage with hcommit | hask
      · exact .inr (hcommits.1 hcommit)
      · -- it is asked where its commit was answered, to which it came with its data accepted
        have hlate := reply_stage hw.numbered.distinct hold (hasks.1 hask)
        exact .inl (h.accepted hold (.inl hlate))
    | closes | falls | vacates | begins => rcases hstage with h | h <;> cases h
  · rw [replies_concat, List.mem_append, Option.mem_toList]
    cases hstep hmem with
    | stays _ hold _ => exact .inl (h.committed hold)
    | goes _ hold _ _ _ _ hasks => exact .inr (hasks.1 rfl)
  · rw [replies_concat, List.mem_append, Option.mem_toList]
    rintro (hcommit | hcommit)
    · cases hstep hmem with
      | stays _ hold _ => exact h.uncommitted hold hopen hask hcommit
      | goes _ hold holdOpen holdAsk _ _ _ => exact h.uncommitted hold holdOpen holdAsk hcommit
      | closes | falls | vacates => cases hopen
      | begins _ _ _ =>
        -- nobody had the number before
        exact absurd (h.issued _ hcommit) (Nat.lt_irrefl _)
    · cases hstep hmem with
      | stays _ _ hnone => exact hnone _ _ hcommit
      | goes _ _ _ _ _ _ hasks => exact hask (hasks.2 hcommit)
      | closes | falls | vacates => cases hopen
      | begins _ _ _ => cases hcommit
  · cases hstep hmem with
    | stays _ hold _ => exact (h.returned hold hdone hstands).concat i
    | goes _ _ _ _ hnot _ _ => cases hnot.symm.trans hdone
    | closes _ hold holdOpen _ _ _ =>
      obtain ⟨t, ht, hnumber, -, -, hstage⟩ := exists_task hold
      rw [live_concat] at hmem
      obtain ⟨t', ht', hnumber', -, -, hstage'⟩ := exists_task hmem
      exact ⟨incidents, i, [], rfl, ⟨t, ht, hnumber, hstage ▸ holdOpen⟩, t', ht', hnumber', _,
        hstage'⟩
    | falls => exact absurd rfl hstands
    | vacates _ hold => exact (h.returned hold rfl nofun).concat i
    | begins => cases hdone
  · cases hstep hmem with
    | stays _ hold _ | goes _ hold _ _ _ _ _ | closes _ hold _ _ _ _ | falls _ hold _ _ _ _
    | vacates _ hold => exact (h.chosen hold).concat i
    | begins houtcome hentry hpackage =>
      exact ⟨incidents, [], _, rfl, houtcome, rfl, hentry, hpackage, rfl⟩

/-- What tells whether data was committed when a backup is done with its package: it had been asked
for its dataset, or the incident brings the answer to the commit. -/
theorem Recorded.committed_iff {incidents : List Incident} (h : w.Recorded incidents)
    (hs : (w.live incidents).system.agenda.Distinct)
    (hmem : (number, .full p lastBackup token stage) ∈ (w.live incidents).system.agenda.errands)
    (hopen : stage.isDone = false) :
    w.Committed (incidents ++ [i]) number p.name ↔ stage = .calling .currentRestoreSet ∨
      (w.live incidents).reply? i = some (number, .finishBackup, .ok .ok) := by
  rw [Committed, replies_concat, List.mem_append, List.mem_append, Option.mem_toList,
    Option.mem_toList]
  constructor
  · rintro ⟨-, hold | hreply⟩
    · refine .inl (Classical.byContradiction fun hask => ?_)
      exact h.uncommitted hmem hopen hask hold
    · exact .inr hreply
  · rintro (rfl | hreply)
    · exact ⟨.inl (h.accepted hmem (.inr rfl)), .inl (h.committed hmem)⟩
    · -- a task that gets this answer stands at its commit, so its data was accepted
      have hlate := reply_stage hs hmem hreply
      exact ⟨.inl (h.accepted hmem (.inl hlate)), .inr hreply⟩

theorem live_recorded (hw : w.Orderly) (hnone : w.system.agenda.fulls = [])
    (incidents : List Incident) : w.Recorded incidents := by
  induction incidents using List.reverseRecOn with
  | nil =>
    have hempty : ∀ {number p lastBackup token stage} {P : Prop},
        (number, .full p lastBackup token stage) ∈ w.system.agenda.errands → P := by
      intro number p lastBackup token stage P hmem
      have hfull := mem_fulls.2 ⟨hmem, rfl⟩
      rw [hnone] at hfull
      cases hfull
    exact ⟨nofun, hempty, hempty, hempty, hempty, hempty⟩
  | append_singleton incidents i ih => exact ih.concat (hw.live incidents) i

end World

/-! ## Back in the schedule -/

/-- A full backup that failed is tried again after the back-off and some spread. What is too long
for the clock stands for half its range. -/
theorem System.retryAt?_cases {now : Int} {least fuzz : Nat} {dueAt : Int}
    (h : System.retryAt? now least fuzz = some dueAt) :
    dueAt = now + least + fuzz ∨ maxI64 < least + fuzz ∧ dueAt = now + maxI64 / 2 := by
  obtain ⟨delay, hdelay, hdue⟩ := Option.bind_eq_some_iff.1 h
  split at hdue
  · cases hdue
    unfold retryDelay? at hdelay
    split at hdelay
    · cases hdelay
    · split at hdelay <;> cases hdelay
      · left
        omega
      · right
        omega
  · cases hdue

/-- The due time of a full backup that fails now. -/
theorem Agenda.retryAt?_due {a : Agenda} {dueAt : Int} (h : a.retryAt? = some dueAt) :
    (a.now + a.settings.busyMin ≤ dueAt ∧
      dueAt ≤ a.now + a.settings.busyMin + a.settings.busyFuzz) ∨
      maxI64 < a.settings.busyMin + a.settings.busyFuzz ∧ dueAt = a.now + maxI64 / 2 := by
  have hbound := Device.drawn_le a.settings.busyFuzz a.chance
  rcases System.retryAt?_cases h with rfl | ⟨hlong, rfl⟩
  · left
    constructor <;> omega
  · exact .inr ⟨by omega, rfl⟩

/-- The entry of a full backup that is done with its package. -/
theorem Agenda.endFull_entry {a : Agenda} (hq : a.schedule.Single) (number : Nat) (p : Package)
    (lastBackup : Int) (token : Option OpToken) {status : Status}
    (h : status = .success ∨ a.retryAt?.isSome = true) :
    ∃ e ∈ (a.endFull number p lastBackup token status).schedule.entries, e.package = p.name ∧
      if status = .success then e.lastBackup = a.now
      else e.lastBackup = lastBackup ∧ a.retryAt? = some e.dueAt := by
  have hseat : ∀ (a : Agenda) (q : Schedule) (errand : Errand),
      ((a.reschedule q).seat number errand).schedule = q :=
    fun _ _ _ => request_schedule _
  unfold endFull
  split
  · rw [hseat]
    exact ⟨_, hq.mem_enqueue.2 (.inl rfl), rfl, rfl⟩
  · rename_i hfailed
    obtain ⟨dueAt, hretry⟩ := Option.isSome_iff_exists.1 (h.resolve_left hfailed)
    rw [hretry]
    simp only [putBack]
    rw [hseat]
    exact ⟨_, hq.mem_defer.2 (.inl rfl), rfl, rfl, rfl⟩

theorem Agenda.endFull_now (a : Agenda) (number : Nat) (p : Package) (lastBackup : Int)
    (token : Option OpToken) (status : Status) :
    (a.endFull number p lastBackup token status).now = a.now := by
  obtain ⟨_, _, _, _, _, heq⟩ := a.endFull_frame number p lastBackup token status
  rw [heq]

/-- Whether a task is a scheduled full backup. -/
def Task.isFull (t : Task) : Bool :=
  match t.job with
  | .full _ _ => true
  | _ => false

theorem Task.isFull_iff {t : Task} :
    t.isFull = true ↔ ∃ p lastBackup, t.job = .full p lastBackup := by
  unfold Task.isFull
  cases t.job <;> simp

/-- Whether a task is a scheduled full backup that has not given up the slot. -/
def Task.holdsSlot (t : Task) : Bool := t.isFull && !t.stage.isLeaving

theorem Task.errand_isFull (t : Task) : t.errand.isFull = t.isFull := by
  unfold Task.errand Task.isFull
  cases t.job with
  | keyValue =>
    simp only
    split <;> rfl
  | full | wipe | clearData | restore => rfl

theorem Task.errand_holds (t : Task) : t.errand.holds = t.holdsSlot := by
  unfold Task.errand Task.holdsSlot Task.isFull
  cases t.job with
  | keyValue =>
    simp only
    split <;> rfl
  | full | wipe | clearData | restore => rfl

theorem System.beginFull_running {s : System} (hrunning : s.engine.runningFull.isSome = true)
    (hallows : s.engine.policy.allows = true) (hsaver : s.engine.policy.batterySaver = false) :
    s.beginFull = (.alreadyRunning, s) := by
  simp [beginFull, hallows, hsaver, hrunning]

theorem System.fulls_eq (s : System) :
    s.agenda.fulls = (s.engine.tasks.filter Task.isFull).map fun t => (t.number, t.errand) := by
  show (s.engine.tasks.map _).filter _ = _
  rw [List.filter_map]
  congr 1
  exact List.filter_congr fun t _ => t.errand_isFull

theorem System.holders_eq (s : System) : s.agenda.holders =
    (s.engine.tasks.filter Task.holdsSlot).map fun t => (t.number, t.errand) := by
  rw [holders, fulls_eq, List.filter_map, List.filter_filter]
  congr 1
  refine List.filter_congr fun t _ => ?_
  simp only [Function.comp_apply, Task.errand_holds, Task.holdsSlot]
  cases t.isFull <;> simp

namespace World

/-- The slot names the full backup that holds it. -/
theorem running_iff {w : World} (h : w.system.agenda.Slot) (token : OpToken) (package : String) :
    w.system.engine.runningFull = some (token, package) ↔
      ∃ t ∈ w.system.engine.tasks, t.holdsSlot = true ∧ ∃ p lastBackup,
        t.job = .full p lastBackup ∧ t.token = some token ∧ p.name = package := by
  constructor
  · intro hrunning
    cases h with
    | free hfree _ => cases hfree.symm.trans hrunning
    | taken htaken hone =>
      cases htaken.symm.trans hrunning
      obtain ⟨hmem, hholds⟩ := mem_holders.1 (hone ▸ List.mem_singleton_self _)
      obtain ⟨t, ht, heq⟩ := List.mem_map.1 hmem
      obtain ⟨-, herrand⟩ := Prod.mk.inj heq
      obtain ⟨hjob, htoken, -⟩ := errand_eq_full herrand
      refine ⟨t, ht, ?_, _, _, hjob, htoken, rfl⟩
      rw [← Task.errand_holds, herrand]
      exact hholds
  · rintro ⟨t, ht, hholds, p, lastBackup, hjob, htoken, rfl⟩
    have hmem := System.mem_errands ht
    rw [System.errand_full hjob, htoken] at hmem
    obtain ⟨-, hstays⟩ := Bool.and_eq_true_iff.1 hholds
    obtain ⟨running, hsame, hrunning, -⟩ := h.of_mem hmem (by simpa using hstays)
    cases hsame
    exact hrunning

theorem running_of_holdsSlot {w : World} (h : w.system.agenda.Slot) {t : Task}
    (ht : t ∈ w.system.engine.tasks) (hholds : t.holdsSlot = true) :
    w.system.engine.runningFull.isSome = true := by
  obtain ⟨hfull, hstays⟩ := Bool.and_eq_true_iff.1 hholds
  obtain ⟨p, lastBackup, hjob⟩ := Task.isFull_iff.1 hfull
  have hmem := System.mem_errands ht
  rw [System.errand_full hjob] at hmem
  obtain ⟨running, -, hrunning, -⟩ := h.of_mem hmem (by simpa using hstays)
  exact Option.isSome_iff_exists.2 ⟨_, hrunning⟩

/-- **When a full backup is done with its package, that is in the schedule once**, unless no clock
can show when it would be tried again. -/
theorem Recorded.done {w : World} {incidents : List Incident} {i : Incident} {number : Nat}
    {p p' : Package} {lastBackup lastBackup' : Int} {token token' : Option OpToken}
    {stage stage' : Stage} (h : w.Recorded incidents) (hw : (w.live incidents).Orderly)
    (hmem : (number, .full p lastBackup token stage) ∈ (w.live incidents).system.agenda.errands)
    (hmem' : (number, .full p' lastBackup' token' stage') ∈
      ((w.live incidents).meet i).system.agenda.errands)
    (hopen : stage.isDone = false) (hdone : stage'.isDone = true) :
    let s := (w.live incidents).system
    let s' := ((w.live incidents).meet i).system
    (stage' = .fallen ∧ s.agenda.retryAt? = none ∧
      ¬ w.Committed (incidents ++ [i]) number p.name) ∨
    ((∃ status, stage' = .closing status) ∧ s'.engine.schedule.packages.count p.name = 1 ∧
      ∃ e, s'.engine.schedule.get? p.name = some e ∧ s'.now = s.now ∧
        if w.Committed (incidents ++ [i]) number p.name then e.lastBackup = s.now
        else e.lastBackup = lastBackup ∧ s.agenda.retryAt? = some e.dueAt) := by
  have hs := hw.numbered.distinct
  have hcommitted := h.committed_iff (i := i) hs hmem hopen
  -- a number stands for one errand, so the one before the step is this one
  have hcases : ∀ {p' : Package} {lastBackup' : Int} {token' : Option OpToken} {old : Stage},
      (number, .full p' lastBackup' token' old) ∈ (w.live incidents).system.agenda.errands →
      p' = p ∧ lastBackup' = lastBackup ∧ token' = token ∧ old = stage := by
    intro p' lastBackup' token' old hold
    cases hs.eq hold hmem
    exact ⟨rfl, rfl, rfl, rfl⟩
  cases (hw.affair i).onFulls.step hs hmem' with
  | stays _ hold _ =>
    obtain ⟨-, -, -, rfl⟩ := hcases hold
    cases hopen.symm.trans hdone
  | goes _ _ _ _ hnot _ _ => cases hnot.symm.trans hdone
  | vacates _ hold =>
    obtain ⟨-, -, -, rfl⟩ := hcases hold
    cases hopen
  | begins => cases hdone
  | falls _ hold _ hask hrefused hretry =>
    obtain ⟨rfl, -, -, rfl⟩ := hcases hold
    exact .inl ⟨rfl, hretry, fun hcommit => (hcommitted.1 hcommit).elim hask hrefused⟩
  | @closes _ _ _ _ _ _ old status hold _ hsuccess hretry hend =>
    obtain ⟨rfl, rfl, rfl, rfl⟩ := hcases hold
    obtain ⟨e, he, hpackage, hentry⟩ :=
      Agenda.endFull_entry hw.regular.single number p' lastBackup' _ hretry
    have hnow : ((w.live incidents).meet i).system.now = (w.live incidents).system.now :=
      (congrArg Agenda.now hend).trans (Agenda.endFull_now _ _ _ _ _ _)
    have hsingle : ((w.live incidents).meet i).system.agenda.schedule.Single :=
      (hw.meet i).regular.single
    rw [← hend] at he
    refine .inr ⟨⟨status, rfl⟩, List.count_eq_one_of_mem hsingle (List.mem_map.2 ⟨e, he, hpackage⟩),
      e, hsingle.get?_eq_some_iff.2 ⟨he, hpackage⟩, hnow, ?_⟩
    by_cases hyes : status = .success
    · rw [if_pos hyes] at hentry
      rw [if_pos (hcommitted.2 (hsuccess.1 hyes))]
      exact hentry
    · rw [if_neg hyes] at hentry
      rw [if_neg fun hcommit => hyes (hsuccess.2 (hcommitted.1 hcommit))]
      exact hentry

/-- **The life of a scheduled full backup.** After every run one such backup at most holds the slot,
and the slot names it. The full-backup job changes nothing meanwhile. Whatever a backup comes to, it
ends only after it was done with its package. In the incident in which it is done with its package
that is in the schedule once: as backed up now if its data was accepted and committed, else with the
last backup that it had when it was chosen, to be tried again after the back-off, or after half the
range of the clock where the back-off is too long for it. The one exception is a due time that no
clock can show, over which the backup breaks down. -/
theorem slot_lifecycle {settings : Settings} {disk : Disk} {device : Device} {s : System}
    (h : System.start settings disk device.fresh = .ok s) (incidents : List Incident) :
    let w := (opened s).live incidents
    (w.system.engine.tasks.filter Task.holdsSlot).length ≤ 1 ∧
    (∀ token package, w.system.engine.runningFull = some (token, package) ↔
      ∃ t ∈ w.system.engine.tasks, t.holdsSlot = true ∧ ∃ p lastBackup,
        t.job = .full p lastBackup ∧ t.token = some token ∧ p.name = package) ∧
    ((∃ t ∈ w.system.engine.tasks, t.holdsSlot = true) → w.system.engine.policy.allows = true →
      w.system.engine.policy.batterySaver = false →
      w.system.beginFull = (.alreadyRunning, w.system)) ∧
    ∀ i, ∀ t ∈ w.system.engine.tasks, ∀ p lastBackup, t.job = .full p lastBackup →
      ((∀ other ∈ (w.meet i).system.engine.tasks, other.number ≠ t.number) →
        t.stage = .leaving ∧ (opened s).Returned incidents t.number) ∧
      ∀ t' ∈ (w.meet i).system.engine.tasks, t'.number = t.number → t.stage.isDone = false →
        t'.stage.isDone = true →
        (t'.stage = .fallen ∧ w.system.agenda.retryAt? = none ∧
          ¬ (opened s).Committed (incidents ++ [i]) t.number p.name) ∨
        let s' := (w.meet i).system
        (∃ status, t'.stage = .closing status) ∧ s'.engine.schedule.packages.count p.name = 1 ∧
        ∃ e, s'.engine.schedule.get? p.name = some e ∧
          ((opened s).Committed (incidents ++ [i]) t.number p.name → e.lastBackup = s'.now) ∧
          (¬ (opened s).Committed (incidents ++ [i]) t.number p.name →
            (opened s).Chose incidents t.number p.name e.lastBackup ∧
            ((s'.now + settings.busyMin ≤ e.dueAt ∧
                e.dueAt ≤ s'.now + settings.busyMin + settings.busyFuzz) ∨
              maxI64 < settings.busyMin + settings.busyFuzz ∧
                e.dueAt = s'.now + maxI64 / 2)) := by
  have hopened := opened_orderly h
  have hw := hopened.live incidents
  have hslot := live_slot hopened (opened_slot h) incidents
  have hrecorded := live_recorded hopened (opened_fulls h) incidents
  have hsettings : ((opened s).live incidents).system.engine.settings = settings :=
    (hopened.live_settings incidents).trans (System.start_idle h).1
  intro w
  refine ⟨?_, running_iff hslot, fun ⟨t, ht, hholds⟩ => ?_, fun i t ht p lastBackup hjob => ?_⟩
  · have hcount := hslot.length_le_one
    rwa [System.holders_eq, List.length_map] at hcount
  · exact System.beginFull_running (running_of_holdsSlot hslot ht hholds)
  · have hmem := System.mem_errands ht
    rw [System.errand_full hjob] at hmem
    have hnext := (hw.affair i).onFulls.next hw.numbered.distinct hmem
    refine ⟨fun hgone => ?_, fun t' ht' hnumber hopen hdone => ?_⟩
    · rcases hnext with hleaving | ⟨_, hstill⟩
      · exact ⟨hleaving, hrecorded.returned hmem (by rw [hleaving]; rfl) (by rw [hleaving]; nofun)⟩
      · obtain ⟨other, hother, hsame, -⟩ := exists_task hstill
        exact absurd hsame (hgone other hother)
    · obtain ⟨stage, hstill⟩ := hnext.resolve_left fun hleaving => by
        rw [hleaving] at hopen
        cases hopen
      have herrand := (hw.meet i).numbered.distinct.eq (hnumber ▸ System.mem_errands ht') hstill
      obtain ⟨-, -, rfl⟩ := errand_eq_full herrand
      refine (hrecorded.done hw hmem hstill hopen hdone).imp_right ?_
      rintro ⟨hclosing, honce, e, hget, hnow, hentry⟩
      refine ⟨hclosing, honce, e, hget, fun hyes => ?_, fun hno => ?_⟩
      · rw [if_pos hyes] at hentry
        exact hentry.trans hnow.symm
      · rw [if_neg hno] at hentry
        obtain ⟨hlast, hretry⟩ := hentry
        refine ⟨hlast ▸ hrecorded.chosen hmem, ?_⟩
        rw [hnow, ← hsettings]
        exact Agenda.retryAt?_due hretry

/-- The backup comes to its commit. -/
def filesCommitting : List Incident :=
  (filesInFlight ++ List.replicate 7 (Event.task 1)).map .event

/-- The backup is canceled on request and comes to its end. -/
def filesCanceled : List Incident :=
  (filesInFlight ++ Event.call .endFull :: List.replicate 4 (Event.task 1)).map .event

/-- A full backup that succeeds, and one that is canceled. The second ends two steps after it was
done with its package. -/
theorem slot_lifecycle_files :
    ∃ s, System.start { busyMin := 100, busyFuzz := 10 } {} deviceOfFiles.fresh = .ok s ∧
      ((opened s).live filesCommitting).system.beginFull =
        (.alreadyRunning, ((opened s).live filesCommitting).system) ∧
      (∃ e, ((opened s).live (filesCommitting ++ [.event (.task 1)])).system.engine.schedule.get?
        "files" = some e ∧ e.lastBackup = 1000) ∧
      (∃ e, ((opened s).live (filesCanceled ++ [.event (.task 1)])).system.engine.schedule.get?
        "files" = some e ∧ (opened s).Chose filesCanceled 1 "files" e.lastBackup ∧
          1100 ≤ e.dueAt ∧ e.dueAt ≤ 1110) ∧
      (opened s).Returned (filesCanceled ++ List.replicate 2 (.event (.task 1))) 1 := by
  obtain ⟨s, hstart, hcheck, hleaves⟩ := @start_decide { busyMin := 100, busyFuzz := 10 } {}
    deviceOfFiles.fresh (fun s => (∀ incidents ∈ [filesCommitting, filesCanceled],
      let w := (opened s).live incidents
      let s' := (w.meet (.event (.task 1))).system
      (w.system.engine.runningFull.map (·.2) = some "files" ∧
        (∀ t ∈ w.system.engine.tasks, t.number = 1 ∧ t.holdsSlot = true ∧ t.stage.isDone = false) ∧
        w.system.engine.policy.allows = true ∧ w.system.engine.policy.batterySaver = false ∧
        s'.engine.tasks.length = 1 ∧
        (∀ t ∈ s'.engine.tasks, t.number = 1 ∧ t.stage.isDone = true ∧ t.stage ≠ .fallen) ∧
        s'.now = 1000 ∧
        ((opened s).Committed (incidents ++ [.event (.task 1)]) 1 "files" ↔
          incidents.length = filesCommitting.length))) ∧
      let w := (opened s).live (filesCanceled ++ List.replicate 2 (.event (.task 1)))
      w.system.engine.tasks.length = 1 ∧
        (∀ t ∈ w.system.engine.tasks, t.number = 1 ∧ t.isFull = true) ∧
        (w.meet (.event (.task 1))).system.engine.tasks.isEmpty = true)
    inferInstance (by decide +kernel)
  -- what the theorem says of a backup that is done in the next incident
  have hdone : ∀ incidents ∈ [filesCommitting, filesCanceled],
      ((opened s).live incidents).system.beginFull =
        (.alreadyRunning, ((opened s).live incidents).system) ∧
      ∃ e, ((opened s).live (incidents ++ [.event (.task 1)])).system.engine.schedule.get?
          "files" = some e ∧
        (incidents.length = filesCommitting.length → e.lastBackup = 1000) ∧
        (incidents.length ≠ filesCommitting.length →
          (opened s).Chose incidents 1 "files" e.lastBackup ∧ 1100 ≤ e.dueAt ∧
            e.dueAt ≤ 1110) := by
    intro incidents hmem
    obtain ⟨hrunning, htasks, hallows, hsaver, hone, hafter, hnow, hcommitted⟩ :=
      hcheck incidents hmem
    obtain ⟨-, hslot, hmeanwhile, hnext⟩ := slot_lifecycle hstart incidents
    obtain ⟨⟨token, _⟩, hrunning, rfl⟩ := Option.map_eq_some_iff.1 hrunning
    obtain ⟨t, ht, hholds, p, lastBackup, hjob, -, hname⟩ := (hslot token _).1 hrunning
    have hname : p.name = "files" := hname
    obtain ⟨hnumber, -, hopen⟩ := htasks t ht
    obtain ⟨t', ht'⟩ := List.length_pos_iff_exists_mem.1 (by rw [hone]; exact Nat.one_pos)
    obtain ⟨hnumber', hdone, hstands⟩ := hafter t' ht'
    rcases (hnext (.event (.task 1)) t ht p lastBackup hjob).2 t' ht'
      (hnumber'.trans hnumber.symm) hopen hdone with hfallen | ⟨-, -, e, hget, hyes, hno⟩
    · exact absurd hfallen.1 hstands
    rw [hnow] at hyes hno
    rw [hname, hnumber] at hyes hno
    rw [hname, ← live_concat] at hget
    refine ⟨hmeanwhile ⟨t, ht, hholds⟩ hallows hsaver, e, hget, fun hlength => ?_,
      fun hlength => ?_⟩
    · exact hyes (hcommitted.2 hlength)
    · obtain ⟨hchose, hdue⟩ := hno fun hcommit => hlength (hcommitted.1 hcommit)
      exact ⟨hchose, hdue.resolve_right fun hlong => absurd hlong.1 (by decide)⟩
  obtain ⟨hmeanwhile, e, hget, hlast, -⟩ := hdone filesCommitting List.mem_cons_self
  obtain ⟨-, e', hget', -, hback⟩ := hdone filesCanceled (List.mem_cons_of_mem _ List.mem_cons_self)
  refine ⟨s, hstart, hmeanwhile, ⟨e, hget, hlast rfl⟩, ⟨e', hget', hback (by decide)⟩, ?_⟩
  -- and of one that ends
  obtain ⟨hone, htasks, hgone⟩ := hleaves
  obtain ⟨t, ht⟩ := List.length_pos_iff_exists_mem.1 (by rw [hone]; exact Nat.one_pos)
  obtain ⟨hnumber, hfull⟩ := htasks t ht
  obtain ⟨p, lastBackup, hjob⟩ := Task.isFull_iff.1 hfull
  obtain ⟨-, -, -, hnext⟩ :=
    slot_lifecycle hstart (filesCanceled ++ List.replicate 2 (.event (.task 1)))
  have hreturned := ((hnext (.event (.task 1)) t ht p lastBackup hjob).1 (by
    rw [List.isEmpty_iff.1 hgone]
    exact fun other hother => absurd hother List.not_mem_nil)).2
  rwa [hnumber] at hreturned

/-- A device with two packages that are backed up in full. -/
def deviceOfTwoFiles : Device :=
  { catalog := [{ name := "files", uid := 10002 }, { name := "photos", uid := 10003 }]
    now := 1000 }

/-- The first backup gives up the slot, and the next one starts. -/
def filesOvertaken : List Event :=
  filesInFlight ++ List.replicate 9 (.task 1) ++ [.call .beginFull]

/-- The package gets an agent when its full backup is done with it, and the backup comes to its
last step. -/
def filesGone : List Event :=
  filesInFlight ++ List.replicate 8 (.task 1) ++
    [.outside {} { catalog := [{ name := "files", uid := 10002, hasAgent := true }], now := 1000 },
      .call (.packageChanged "files"), .task 1]

/-- The backup is canceled on request and is done with its package. -/
def filesPutBack : List Event :=
  filesInFlight ++ Event.call .endFull :: List.replicate 5 (.task 1)

/-- **What is not so.** Two full backups can be under way, where the slot names the second. A
package can be out of the schedule when its full backup ends. And the package of one that failed can
be due sooner than after the back-off, though nothing overflows: what is too long for the clock is
cut. -/
theorem slot_outlived :
    (∃ s, System.start {} {} deviceOfTwoFiles.fresh = .ok s ∧
      let w := (opened s).run filesOvertaken
      (w.system.engine.tasks.filter Task.isFull).length = 2 ∧
        w.system.engine.runningFull.map (·.2) = some "photos") ∧
    (∃ s, System.start {} {} deviceOfFiles.fresh = .ok s ∧
      let w := (opened s).run filesGone
      w.system.engine.tasks.map (·.number) = [1] ∧
        (w.happen (.task 1)).system.engine.tasks.length = 0 ∧
        (w.happen (.task 1)).system.engine.schedule.packages.count "files" = 0) ∧
    ∃ s, System.start { busyMin := 9223372036854775808, busyFuzz := 0 } {}
        deviceOfFiles.fresh = .ok s ∧
      let w := (opened s).run filesPutBack
      w.system.engine.tasks.map (·.stage) = [.closing .cancelled] ∧
        ∀ e ∈ w.system.engine.schedule.entries, e.dueAt < w.system.now + 9223372036854775808 :=
  ⟨start_decide (by decide +kernel), start_decide (by decide +kernel),
    start_decide (by decide +kernel)⟩

end World

end Holdfast
