import Holdfast.Proofs.Engine.Affairs
import Holdfast.Proofs.Engine.Drained

/-!
# Wake-ups for pending changes

A pass over what is pending is started by a tick of the key-value job, and each tick disarms the
job. So whatever leaves packages pending has to arm it again.

- `World.Watch`: what an observer of the job knows, `World.watch` over a run;
- `Agenda.Due`: something is pending, or will be when a canceled pass ends;
- `Agenda.Rearms`: a pass that failed has announced its end and is about to arm the job;
- `World.Watch.Keeps`: what is due is awaited, and `Affair.keeps`, that no incident changes that;
- `World.changes_awaited`: **a pending package is awaited by an armed job, unless a pass has kept
  a tick from starting another, or was canceled, since the job was armed last**;
- `World.tick_lost`: that a tick is kept from starting a pass does happen, and then nobody awaits
  the package.
-/

namespace Holdfast

/-! ## What is due -/

/-- Whether an errand is a pass that was canceled. -/
def Errand.isCut : Errand → Bool
  | .pass _ canceled => canceled
  | .passed _ | .full _ _ _ _ | .other => false

/-- Whether an errand is a pass that has announced its end and will arm the job. -/
def Errand.rearms : Errand → Bool
  | .passed status => status != .success && status != .cancelled
  | .pass _ _ | .full _ _ _ _ | .other => false

namespace Agenda

variable {a a' : Agenda} {number : Nat} {errand : Errand}

/-- The passes that were canceled, by their numbers. -/
def cutPasses (a : Agenda) : List Nat := (a.errands.filter (·.2.isCut)).map (·.1)

/-- Something is pending, or will be when a canceled pass ends. -/
def Unsettled (a : Agenda) : Prop := a.pending.packages.isEmpty = false ∨ a.cutPasses ≠ []

/-- A pass that failed is about to arm the job. -/
def Rearms (a : Agenda) : Prop := ∃ entry ∈ a.errands, entry.2.rearms = true

/-- A pass is to be awaited. -/
def Due (a : Agenda) : Prop := a.policy.allows = true ∧ a.Unsettled

theorem mem_cutPasses : number ∈ a.cutPasses ↔ ∃ errand, (number, errand) ∈ a.errands ∧
    errand.isCut = true := by
  simp [cutPasses]

/-- Passes that are canceled later, in a step that cancels none. -/
theorem cutPasses_ne_nil (h : a'.cutPasses ⊆ a.cutPasses) (hcut : a'.cutPasses ≠ []) :
    a.cutPasses ≠ [] := by
  rintro hnone
  rw [hnone] at h
  exact hcut (List.subset_nil.1 h)

theorem cutPasses_subset (h : ∀ entry ∈ a'.errands, entry.2.isCut = true → entry ∈ a.errands) :
    a'.cutPasses ⊆ a.cutPasses := by
  intro number hmem
  obtain ⟨errand, herrand, hcut⟩ := mem_cutPasses.1 hmem
  exact mem_cutPasses.2 ⟨errand, h _ herrand hcut, hcut⟩

theorem Rearms.drop (h : a.Rearms) (ha : a.Distinct) (hmem : (number, errand) ∈ a.errands)
    (hnot : errand.rearms = false) : (a.drop number).Rearms := by
  obtain ⟨entry, hentry, hrearms⟩ := h
  refine ⟨entry, mem_drop.2 ⟨hentry, ?_⟩, hrearms⟩
  rintro rfl
  rw [ha.eq hentry hmem, hnot] at hrearms
  cases hrearms

theorem Rearms.seat (h : a.Rearms) (ha : a.Distinct) (hmem : (number, errand) ∈ a.errands)
    (hnot : errand.rearms = false) (errand' : Errand) : (a.seat number errand').Rearms := by
  obtain ⟨entry, hentry, hrearms⟩ := h
  refine ⟨entry, List.mem_map.2 ⟨entry, hentry, if_neg ?_⟩, hrearms⟩
  rintro rfl
  rw [ha.eq hentry hmem, hnot] at hrearms
  cases hrearms

theorem Rearms.cancel (h : a.Rearms) (number : Nat) : (a.cancel number).Rearms := by
  obtain ⟨entry, hentry, hrearms⟩ := h
  refine ⟨_, List.mem_map.2 ⟨entry, hentry, rfl⟩, ?_⟩
  split
  · obtain ⟨_, errand⟩ := entry
    cases errand <;> exact hrearms
  · exact hrearms

theorem Rearms.subset (h : a.Rearms) (hsubset : a.errands ⊆ a'.errands) : a'.Rearms := by
  obtain ⟨entry, hentry, hrearms⟩ := h
  exact ⟨entry, hsubset hentry, hrearms⟩

/-- A step after which nothing is due that was not due before, and in which no tick gets lost. -/
structure Calm (a a' : Agenda) : Prop where
  jobs : a'.jobs = a.jobs
  allows : a'.policy.allows = true → a.policy.allows = true
  unsettled : a'.Unsettled → a.Unsettled
  mail : .runKeyValue ∈ a.mail → .runKeyValue ∈ a'.mail
  rearms : a.Rearms → a'.Rearms

theorem Calm.due (h : a.Calm a') (hdue : a'.Due) : a.Due :=
  hdue.imp h.allows h.unsettled

/-- The same is pending, and no pass is canceled. -/
theorem Unsettled.of_subset (h : a'.Unsettled) (hpending : a'.pending = a.pending)
    (hcut : a'.cutPasses ⊆ a.cutPasses) : a.Unsettled :=
  h.imp (fun hsome => hpending ▸ hsome) (cutPasses_ne_nil hcut)

theorem Calm.trans {b c : Agenda} (h : a.Calm b) (h' : b.Calm c) : a.Calm c where
  jobs := h'.jobs.trans h.jobs
  allows := h.allows ∘ h'.allows
  unsettled := h.unsettled ∘ h'.unsettled
  mail := h'.mail ∘ h.mail
  rearms := h'.rearms ∘ h.rearms

/-- Only tasks changed, none is now a canceled pass, and none was about to arm the job. -/
theorem Calm.of_errands {errands : List (Nat × Errand)}
    (h : ({ a with errands } : Agenda).cutPasses ⊆ a.cutPasses)
    (hrearms : a.Rearms → ({ a with errands } : Agenda).Rearms) : a.Calm { a with errands } :=
  ⟨rfl, id, fun hsome => hsome.of_subset rfl h, id, hrearms⟩

theorem calm_drop (ha : a.Distinct) (hmem : (number, errand) ∈ a.errands)
    (hnot : errand.rearms = false) : a.Calm (a.drop number) :=
  .of_errands (cutPasses_subset fun _ hmem _ => (mem_drop.1 hmem).1) fun h => h.drop ha hmem hnot

theorem calm_seat (ha : a.Distinct) (hmem : (number, errand) ∈ a.errands)
    (hnot : errand.rearms = false) {errand' : Errand} (hplain : errand'.isCut = false) :
    a.Calm (a.seat number errand') := by
  refine .of_errands (cutPasses_subset fun entry hentry hcut => ?_)
    fun h => h.seat ha hmem hnot errand'
  rcases mem_seat hentry with rfl | ⟨hold, -⟩
  · cases hplain.symm.trans hcut
  · exact hold

/-- The errand of a task that was no canceled pass does not matter. -/
theorem cutPasses_seat (ha : a.Distinct) (hmem : (number, errand) ∈ a.errands)
    (hplain : errand.isCut = false) (errand' : Errand) :
    a.cutPasses ⊆ (a.seat number errand').cutPasses := by
  intro other hother
  obtain ⟨cut, hcut, hiscut⟩ := mem_cutPasses.1 hother
  refine mem_cutPasses.2 ⟨cut, List.mem_map.2 ⟨_, hcut, if_neg ?_⟩, hiscut⟩
  rintro rfl
  rw [ha.eq hcut hmem, hplain] at hiscut
  cases hiscut

theorem cutPasses_enter (a : Agenda) (number : Nat) (hplain : errand.isCut = false) :
    (a.enter number errand).cutPasses ⊆ a.cutPasses := by
  refine cutPasses_subset fun entry hmem hcut => ?_
  rcases mem_enter.1 hmem with hold | rfl
  · exact hold
  · rw [hplain] at hcut
    cases hcut

theorem calm_enter (a : Agenda) (number : Nat) (hplain : errand.isCut = false) :
    a.Calm (a.enter number errand) :=
  .of_errands (a.cutPasses_enter number hplain) fun h => h.subset (List.subset_append_left _ _)

theorem calm_request (a : Agenda) : a.Calm a.request := by
  unfold request post
  split
  · exact ⟨rfl, id, id, id, id⟩
  · split
    · exact ⟨rfl, id, id, List.mem_append_left _, id⟩
    · exact ⟨rfl, id, id, id, id⟩

theorem calm_reschedule (a : Agenda) (schedule : Schedule) : a.Calm (a.reschedule schedule) :=
  Calm.trans (b := { a with schedule }) ⟨rfl, id, id, id, id⟩ (calm_request _)

theorem calm_drawRetry (a : Agenda) : a.Calm a.drawRetry := ⟨rfl, id, id, id, id⟩

theorem calm_putBack (a : Agenda) (package : String) (lastBackup dueAt : Int) :
    a.Calm (a.putBack package lastBackup dueAt) :=
  (calm_drawRetry a).trans (calm_reschedule _ _)

theorem calm_vacate (a : Agenda) (token : Option OpToken) : a.Calm (a.vacate token) := by
  obtain ⟨_, heq⟩ := a.vacate_eq token
  rw [heq]
  exact ⟨rfl, id, id, id, id⟩

theorem calm_remove (a : Agenda) (package : String) : a.Calm (a.remove package) := by
  refine ⟨rfl, id, fun hsome => hsome.imp_left fun hleft => ?_, id, id⟩
  refine List.isEmpty_eq_false_iff.2 fun hnone => ?_
  have hempty : (a.pending.packages.erase package).isEmpty = true := by
    unfold NameSet.isEmpty NameSet.erase
    simp only [hnone]
    rfl
  cases hempty.symm.trans hleft

/-- A full backup is done with its package. -/
theorem calm_endFull (ha : a.Distinct) {p : Package} {lastBackup : Int} {token : Option OpToken}
    {old : Stage} (hmem : (number, .full p lastBackup token old) ∈ a.errands) (status : Status) :
    a.Calm (a.endFull number p lastBackup token status) := by
  -- the schedule changes first, and then the errand of the task
  have hseat : ∀ {b : Agenda} {stage : Stage}, b.errands = a.errands → a.Calm b →
      a.Calm (b.seat number (.full p lastBackup token stage)) := by
    intro b stage herrands hcalm
    have hdistinct : b.Distinct := by
      unfold Distinct
      rw [herrands]
      exact ha
    have hfull : (number, .full p lastBackup token old) ∈ b.errands := by rwa [herrands]
    exact hcalm.trans (calm_seat hdistinct hfull rfl rfl)
  unfold endFull
  split
  · exact hseat (request_errands _) (calm_reschedule _ _)
  · split
    · exact hseat (request_errands _) (calm_putBack _ _ _ _)
    · exact hseat rfl (calm_drawRetry a)

/-- A cancel on the way cuts a pass that was not cut before, or it changes nothing. -/
theorem Heeds.cut_or_calm (h : a.Heeds a') :
    (a'.jobs = a.jobs ∧ ¬ a'.cutPasses ⊆ a.cutPasses) ∨ a.Calm a' := by
  rcases h with rfl | ⟨number, rfl⟩
  · exact .inr ⟨rfl, id, id, id, id⟩
  · by_cases hcut : (a.cancel number).cutPasses ⊆ a.cutPasses
    · exact .inr (.of_errands hcut fun h => h.cancel number)
    · exact .inl ⟨rfl, hcut⟩

/-- **A step of a task** arms the job or is about to, it cancels a pass, or it leaves nothing more
to be awaited. -/
theorem Turn.arms_or_calm {assents : Prop} (hturn : Turn a assents number errand a')
    (ha : a.Distinct) (hmem : (number, errand) ∈ a.errands) :
    a'.jobs = true :: a.jobs ∨ a'.Rearms ∨ (a'.jobs = a.jobs ∧ ¬ a'.cutPasses ⊆ a.cutPasses) ∨
      a.Calm a' := by
  cases hturn with
  | stays _ hheeds => exact .inr (.inr hheeds.cut_or_calm)
  | @moves p lastBackup token old stage left hadvances hheeds =>
    -- the stage of a full backup does not matter
    have hfull := hheeds.mem_full hmem
    have hdistinct := hheeds.distinct ha
    have hseat : left.Calm (left.seat number (.full p lastBackup token stage)) :=
      calm_seat hdistinct hfull rfl rfl
    refine .inr (.inr ?_)
    rcases hheeds.cut_or_calm with ⟨hjobs, hcut⟩ | hcalm
    · exact .inl ⟨hjobs, fun h => hcut fun _ hold =>
        h (cutPasses_seat hdistinct hfull rfl _ hold)⟩
    · exact .inr (hcalm.trans hseat)
  | files package => exact .inr (.inr (.inr (calm_reschedule _ _)))
  | wipes _ _ => exact .inl rfl
  | quits => exact .inr (.inr (.inr (calm_drop ha hmem rfl)))
  | @ends drained canceled status disk hcanceled =>
    by_cases hover : status = .success ∨ status = .cancelled
    · refine .inr (.inr (.inr ?_))
      have hseat : a.Calm (a.seat number (.passed status)) := calm_seat ha hmem rfl rfl
      refine ⟨rfl, id, ?_, id, hseat.rearms⟩
      rintro (hpending | hcut)
      · rcases hover with rfl | rfl
        · -- a pass that succeeds stages nothing again
          refine .inl ?_
          cases drained <;> exact hpending
        · -- a pass that ends canceled was on the agenda as such
          refine .inr (List.ne_nil_of_mem (mem_cutPasses.2 ⟨_, hmem, ?_⟩))
          exact hcanceled rfl
      · exact hseat.unsettled (.inr hcut)
    · -- it has failed, and will arm the job
      refine .inr (.inl ⟨(number, .passed status), List.mem_map.2 ⟨_, hmem, if_pos rfl⟩, ?_⟩)
      simpa [Errand.rearms, not_or] using hover
  | @departs status =>
    unfold closePass
    split
    · rename_i hover
      refine .inr (.inr (.inr (calm_drop ha hmem ?_)))
      rcases hover with rfl | rfl <;> rfl
    · exact .inl rfl
  | closes => exact .inr (.inr (.inr (calm_endFull ha hmem _)))
  | @vacates p lastBackup token status =>
    obtain ⟨running, heq⟩ := a.vacate_eq token
    have hseat : (a.vacate token).Calm
        ((a.vacate token).seat number (.full p lastBackup token .leaving)) := by
      rw [heq]
      exact @calm_seat { a with running } _ _ ha hmem rfl _ rfl
    exact .inr (.inr (.inr ((calm_vacate a token).trans hseat)))
  | leaves => exact .inr (.inr (.inr (calm_drop ha hmem rfl)))

end Agenda

namespace World

open Agenda

variable {w : World}

/-! ## The observer of the job -/

/-- What an observer of the key-value job knows. -/
structure Watch where
  /-- The job was armed, and it has neither ticked nor been canceled since. -/
  armed : Bool
  /-- Since the job was armed last, a pass has kept a tick from starting another. -/
  refused : Bool
  /-- Since the job was armed last, a pass was canceled. -/
  cut : Bool
  deriving DecidableEq

/-- Whether the job ticks in an event. -/
def ticks (w : World) : Event → Bool
  | .call .runPass => true
  | .call .backupNow => !w.system.engine.policy.batterySaver
  | _ => false

/-- Whether the loop takes a tick in an event and finds a pass running. -/
def refuses (w : World) : Event → Bool
  | .command =>
    match w.system.engine.inbox with
    | .runKeyValue :: _ =>
      w.system.engine.policy.allows && decide (0 < w.system.engine.runningPasses)
    | _ => false
  | _ => false

/-- What the observer knows after an event. -/
def Watch.next (v : Watch) (w : World) (event : Event) : Watch :=
  let a := w.system.agenda
  let a' := (w.happen event).system.agenda
  if a'.jobs.length = a.jobs.length then
    { armed := v.armed && !w.ticks event
      refused := v.refused || w.refuses event
      cut := v.cut || a'.cutPasses.any fun number => number ∉ a.cutPasses }
  else ⟨a'.jobs.head? == some true, false, false⟩

/-- What the observer knows at the start. -/
def Watch.start (s : System) : Watch := ⟨s.agenda.jobs.head? == some true, false, false⟩

/-- What the observer knows after a run. -/
def watch (w : World) (v : Watch) : List Event → Watch
  | [] => v
  | event :: rest => (w.happen event).watch (v.next w event) rest

/-- What is due is awaited. -/
def Watch.Keeps (v : Watch) (a : Agenda) : Prop :=
  a.Due → v.armed = true ∨ v.refused = true ∨ v.cut = true ∨ .runKeyValue ∈ a.mail ∨ a.Rearms

variable {v : Watch} {event : Event} {a : Agenda}

theorem Watch.next_armed (heq : (w.happen event).system.agenda = a)
    (harm : a.jobs = true :: w.system.agenda.jobs) : (v.next w event).armed = true := by
  unfold next
  simp only [heq, harm]
  rw [if_neg (by simp)]
  rfl

/-- The job was neither armed nor canceled. -/
theorem Watch.next_still (heq : (w.happen event).system.agenda = a)
    (hjobs : a.jobs = w.system.agenda.jobs) :
    v.next w event =
      { armed := v.armed && !w.ticks event
        refused := v.refused || w.refuses event
        cut := v.cut || a.cutPasses.any fun number => number ∉ w.system.agenda.cutPasses } := by
  unfold next
  simp only [heq, hjobs, if_true]

theorem Watch.Keeps.of_armed (heq : (w.happen event).system.agenda = a)
    (harm : a.jobs = true :: w.system.agenda.jobs) : (v.next w event).Keeps a :=
  fun _ => .inl (next_armed heq harm)

theorem Watch.Keeps.calm (hv : v.Keeps w.system.agenda)
    (heq : (w.happen event).system.agenda = a) (hcalm : w.system.agenda.Calm a)
    (htick : w.ticks event = false) : (v.next w event).Keeps a := by
  intro hdue
  rw [next_still heq hcalm.jobs, htick]
  rcases hv (hcalm.due hdue) with harmed | hrefused | hcut | hmail | hrearms
  · exact .inl (by simp [harmed])
  · exact .inr (.inl (by simp [hrefused]))
  · exact .inr (.inr (.inl (by simp [hcut])))
  · exact .inr (.inr (.inr (.inl (hcalm.mail hmail))))
  · exact .inr (.inr (.inr (.inr (hcalm.rearms hrearms))))

/-- A pass is canceled that was not canceled before. -/
theorem Watch.Keeps.of_cut (heq : (w.happen event).system.agenda = a)
    (hjobs : a.jobs = w.system.agenda.jobs) (hcut : ¬ a.cutPasses ⊆ w.system.agenda.cutPasses) :
    (v.next w event).Keeps a := by
  intro _
  obtain ⟨other, hmem, hnew⟩ : ∃ other ∈ a.cutPasses, other ∉ w.system.agenda.cutPasses := by
    simpa [List.subset_def] using hcut
  rw [next_still heq hjobs]
  refine .inr (.inr (.inl ?_))
  rw [Bool.or_eq_true, List.any_eq_true]
  exact .inr ⟨other, hmem, decide_eq_true hnew⟩

/-! ## Incidents -/

/-- While a pass is on the agenda, passes are counted. -/
theorem Sound.passes_pos (hs : w.Sound) {number : Nat} (hcut : number ∈ w.system.agenda.cutPasses) :
    0 < w.system.agenda.passes := by
  obtain ⟨errand, hmem, hcut⟩ := mem_cutPasses.1 hcut
  obtain ⟨t, ht, heq⟩ := List.mem_map.1 hmem
  have hpass : t.seat.isPass = true := by
    obtain ⟨-, rfl⟩ := Prod.mk.inj heq
    cases herrand : t.errand with
    | pass drained canceled =>
      obtain ⟨_, _, _, _, hjob, -, hopen⟩ := System.pass_errand herrand
      simp [Seat.isPass, Task.seat, hjob, Job.kind, hopen]
    | passed | full | other =>
      rw [herrand] at hcut
      cases hcut
  have hcount : 0 < w.system.ledger.seats.countP Seat.isPass :=
    List.countP_pos_iff.2 ⟨t.seat, List.mem_map_of_mem ht, hpass⟩
  have hpasses : w.system.agenda.passes = w.system.ledger.seats.countP Seat.isPass +
      w.system.ledger.commands.countP Command.isPassEnd := hs.passes
  omega

/-- The full-backup job arms nothing. -/
theorem calm_full {outcome : FullOutcome} (h : w.system.BeginsFull outcome a) :
    w.system.agenda.Calm a := by
  cases h with
  | nothing _ => exact ⟨rfl, id, id, id, id⟩
  | @sifts _ q chance _ _ =>
    exact Calm.trans (b := { w.system.agenda with chance }) ⟨rfl, id, id, id, id⟩
      (calm_reschedule _ q)
  | @starts entry _ q chance token _ _ _ _ =>
    refine Calm.trans (Calm.trans ?_ (calm_enter _ _ rfl)) (calm_request _)
    exact ⟨rfl, id, id, id, id⟩

/-- A tick that the loop takes. -/
theorem Watch.Keeps.taken (hs : w.Sound) {rest : List Command}
    (hinbox : w.system.engine.inbox = .runKeyValue :: rest)
    (hwhy : w.system.agenda.policy.allows = false ∨ 0 < w.system.agenda.passes ∨
      w.system.agenda.pending.packages.isEmpty = true)
    (heq : (w.happen .command).system.agenda =
      { w.system.agenda with mail := rest.filter Command.isChore }) :
    (v.next w .command).Keeps { w.system.agenda with mail := rest.filter Command.isChore } := by
  rintro ⟨hallows, hsome⟩
  have hpasses : 0 < w.system.engine.runningPasses := by
    rcases hwhy with hnot | hpasses | hempty
    · rw [hnot] at hallows
      cases hallows
    · exact hpasses
    · rcases hsome with hpending | hcut
      · cases hempty.symm.trans hpending
      · obtain ⟨number, hmem⟩ := List.exists_mem_of_ne_nil _ hcut
        exact hs.passes_pos hmem
  have hrefuses : w.refuses .command = true := by
    unfold refuses
    rw [hinbox]
    exact Bool.and_eq_true_iff.2 ⟨hallows, decide_eq_true hpasses⟩
  rw [next_still heq rfl, hrefuses]
  exact .inr (.inl (by simp))

/-- A task is canceled. -/
theorem Watch.Keeps.cancels (hv : v.Keeps w.system.agenda) {number : Nat}
    (heq : (w.happen event).system.agenda = w.system.agenda.cancel number)
    (htick : w.ticks event = false) : (v.next w event).Keeps (w.system.agenda.cancel number) := by
  have hheeds : w.system.agenda.Heeds (w.system.agenda.cancel number) := .inr ⟨number, rfl⟩
  rcases hheeds.cut_or_calm with ⟨hjobs, hcut⟩ | hcalm
  · exact .of_cut heq hjobs hcut
  · exact hv.calm heq hcalm htick

theorem ticks_calm (hcalm : ¬ w.Stirs (.event event)) : w.ticks event = false := by
  unfold World.ticks
  split
  · exact absurd trivial hcalm
  · exact absurd trivial hcalm
  · rfl

theorem ticks_added {c : Call} {added : String × Bool} (hadded : c.added? = some added) :
    w.ticks (.call c) = false := by
  unfold World.ticks
  split
  · rename_i hcall
    cases hcall
    cases hadded
  · rename_i hcall
    cases hcall
    cases hadded
  · rfl

/-- No event leaves what is due without anybody who awaits it. -/
theorem Affair.keeps (h : w.Affair (.event event) a) (heq : (w.happen event).system.agenda = a)
    (hs : w.Sound) (hd : w.system.agenda.Distinct) (hv : v.Keeps w.system.agenda) :
    (v.next w event).Keeps a := by
  generalize hi : Incident.event event = i at h
  cases h with
  | idle hcalm =>
    cases hi
    exact hv.calm heq ⟨rfl, id, id, id, id⟩ (ticks_calm hcalm)
  | reorders hcalm hperm =>
    cases hi
    refine hv.calm heq (.of_errands (cutPasses_subset fun entry hmem _ => ?_) fun hrearms => ?_)
      (ticks_calm hcalm)
    · exact hperm.mem_iff.1 hmem
    · exact hrearms.subset hperm.symm.subset
  | begins number hcalm =>
    cases hi
    exact hv.calm heq (calm_enter _ number rfl) (ticks_calm hcalm)
  | stages | postpones | saves | resets | cancelsAll =>
    cases hi
    exact .of_armed heq rfl
  | sleeps hinbox hwhy =>
    cases hi
    exact .taken hs hinbox hwhy heq
  | starts number hinbox hfree =>
    -- nothing is pending, and no other pass is on the agenda
    rintro ⟨-, hpending | hcut⟩
    · cases hpending
    · obtain ⟨other, hmem⟩ := List.exists_mem_of_ne_nil _ hcut
      have := hs.passes_pos (cutPasses_enter _ number rfl hmem)
      omega
  | recounts passes hcalm =>
    cases hi
    exact hv.calm heq ⟨rfl, id, id, id, id⟩ (ticks_calm hcalm)
  | serves passes number hcalm =>
    cases hi
    exact hv.calm heq (Calm.trans (b := { w.system.agenda with passes }) ⟨rfl, id, id, id, id⟩
      (calm_enter _ number rfl)) (ticks_calm hcalm)
  | @writes rest hinbox =>
    cases hi
    refine hv.calm heq ⟨rfl, id, id, fun hmail => ?_, id⟩ rfl
    rw [mail_chore hinbox rfl] at hmail
    exact (List.mem_cons.1 hmail).resolve_left nofun
  | stops hshutdown =>
    refine absurd ?_ hs.lasting
    exact List.mem_filter.2 ⟨List.mem_of_mem_head? hshutdown, rfl⟩
  | cancels number hcalm =>
    cases hi
    exact hv.cancels heq (ticks_calm hcalm)
  | ticks _ =>
    cases hi
    have hposted : w.system.agenda.post .runKeyValue =
        { w.system.agenda with mail := w.system.agenda.mail ++ [.runKeyValue] } :=
      if_pos hs.looping
    rw [hposted]
    exact fun _ =>
      .inr (.inr (.inr (.inl (List.mem_append_right _ (List.mem_singleton_self _)))))
  | full hbegins =>
    cases hi
    exact hv.calm heq (calm_full hbegins) rfl
  | rules hcalm hrules =>
    cases hi
    cases hrules with
    | same => exact hv.calm heq ⟨rfl, id, id, id, id⟩ (ticks_calm hcalm)
    | keeps hallows _ => exact hv.calm heq ⟨rfl, hallows, id, id, id⟩ (ticks_calm hcalm)
    | allows _ => exact .of_armed heq rfl
    | forbids hforbidden _ =>
      rintro ⟨hallows, -⟩
      cases hforbidden.symm.trans hallows
  | @adds c package p replacing hadded _ =>
    cases hi
    refine hv.calm heq (Calm.trans (b := { w.system.agenda with
      participants := w.system.agenda.joined package p replacing }) ⟨rfl, id, id, id, id⟩
        (calm_reschedule _ _)) ?_
    exact ticks_added hadded
  | @removes package replacing transports _ =>
    cases hi
    refine hv.calm heq (Calm.trans (b := if replacing then _ else _) ?_ ⟨rfl, id, id, id, id⟩) rfl
    split
    · exact ⟨rfl, id, id, id, id⟩
    · exact calm_remove _ package
  | registers | unregisters | outside =>
    cases hi
    exact hv.calm heq ⟨rfl, id, id, id, id⟩ rfl
  | turn hfind hready hturn =>
    cases hi
    have hmem := System.mem_errands (List.mem_of_find?_eq_some hfind)
    rcases hturn.arms_or_calm hd hmem with harm | hrearms | ⟨hjobs, hcut⟩ | hcalm
    · exact .of_armed heq harm
    · exact fun _ => .inr (.inr (.inr (.inr hrearms)))
    · exact .of_cut heq hjobs hcut
    · exact hv.calm heq hcalm rfl

/-! ## Runs -/

theorem run_keeps (hw : w.Orderly) (hs : w.Sound) (hv : v.Keeps w.system.agenda)
    (events : List Event) : (w.watch v events).Keeps (w.run events).system.agenda := by
  induction events generalizing w v with
  | nil => exact hv
  | cons event events ih =>
    have haffair : w.Affair (.event event) (w.happen event).system.agenda :=
      hw.affair (.event event)
    exact ih (hw.meet (.event event)) ((happen_change hs event).sound hs)
      (haffair.keeps rfl hs hw.numbered.distinct hv)

/-- What is pending at the start is awaited. -/
theorem start_keeps {settings : Settings} {disk : Disk} {device : Device} {s : System}
    (h : System.start settings disk device.fresh = .ok s) : (Watch.start s).Keeps s.agenda := by
  rintro ⟨-, hpending | hcut⟩
  · obtain ⟨_, _, _, _, _, changed, -, hagenda⟩ := System.start_agenda h
    obtain ⟨_, _, _, _, heq⟩ := Agenda.wakeUp_eq _ changed
    have hawaited : s.agenda.jobs = [true] := by
      rw [hagenda, heq] at hpending
      rw [hagenda]
      unfold Agenda.wakeUp
      simp only
      rw [if_neg (by rw [hpending]; exact Bool.false_ne_true)]
      show true :: Agenda.jobs (if changed then _ else _) = _
      split
      · rw [(calm_request _).jobs]
      · rfl
    refine .inl ?_
    unfold Watch.start
    rw [hawaited]
    rfl
  · refine absurd ?_ hcut
    unfold cutPasses
    rw [(System.start_idle h).2.2.1]
    rfl

/-- A pass that failed has announced its end, and arms the job in its next step. -/
def Rearming (w : World) : Prop :=
  ∃ t ∈ w.system.engine.tasks, t.job.kind = .keyValue ∧ ∃ status, t.stage = .closing status ∧
    status ≠ .success ∧ status ≠ .cancelled

theorem rearming_of_rearms (h : w.system.agenda.Rearms) : w.Rearming := by
  obtain ⟨entry, hentry, hrearms⟩ := h
  obtain ⟨t, ht, rfl⟩ := List.mem_map.1 hentry
  refine ⟨t, ht, ?_⟩
  simp only [Task.errand] at hrearms
  cases hjob : t.job with
  | keyValue =>
    cases hstage : t.stage <;> simp only [hjob, hstage, Errand.rearms] at hrearms
    case closing status => exact ⟨rfl, status, rfl, by simpa using hrearms⟩
    all_goals cases hrearms
  | full | wipe | clearData | restore =>
    simp only [hjob] at hrearms
    cases hrearms

/-- **Pending changes are awaited.** After every run without a shutdown: if passes are allowed, a
package is pending and no tick is queued, then the key-value job is armed, or since it was armed
last a pass that was running has kept a tick from starting another, or a pass was canceled, or a
pass that failed is just about to arm it. -/
theorem changes_awaited {settings : Settings} {disk : Disk} {device : Device} {s : System}
    (h : System.start settings disk device.fresh = .ok s) (events : List Event)
    (hqueue : Command.runKeyValue ∉ ((opened s).run events).system.engine.inbox)
    (hallows : ((opened s).run events).system.engine.policy.allows = true)
    (hpending : ((opened s).run events).system.engine.pending.packages.isEmpty = false) :
    let v := (opened s).watch (.start s) events
    v.armed = true ∨ v.refused = true ∨ v.cut = true ∨ ((opened s).run events).Rearming := by
  have hkeeps : ((opened s).watch (.start s) events).Keeps ((opened s).run events).system.agenda :=
    run_keeps (opened_orderly h) (opened_sound h) (start_keeps h) events
  rcases hkeeps ⟨hallows, .inl hpending⟩ with harmed | hrefused | hcut | hmail | hrearms
  · exact .inl harmed
  · exact .inr (.inl hrefused)
  · exact .inr (.inr (.inl hcut))
  · exact absurd (List.mem_filter.1 hmail).1 hqueue
  · exact .inr (.inr (.inr (rearming_of_rearms hrearms)))

/-- A package announces a change while the pass runs that has drained its last one. -/
def changeDuringPass : List Event :=
  changeOfOne ++ [.command, .call (.dataChanged ⟨10001, false⟩ "app"), .command]

/-- A change during a pass is awaited. -/
theorem changes_awaited_duringPass :
    ∃ s, System.start {} {} deviceOfOne.fresh = .ok s ∧
      "app" ∈ ((opened s).run changeDuringPass).system.engine.pending.packages ∧
      ((opened s).watch (.start s) changeDuringPass).armed = true := by
  obtain ⟨s, hstart, hqueue, hallows, happ, hpending, hrefused, hcut, hopen⟩ :=
    @start_decide {} {} deviceOfOne.fresh (fun s =>
      let w := (opened s).run changeDuringPass
      let v := (opened s).watch (.start s) changeDuringPass
      w.system.engine.inbox.length = 0 ∧ w.system.engine.policy.allows = true ∧
        "app" ∈ w.system.engine.pending.packages ∧
        w.system.engine.pending.packages.isEmpty = false ∧ v.refused = false ∧ v.cut = false ∧
        ∀ t ∈ w.system.engine.tasks, t.stage.isClosing = false)
      inferInstance (by decide +kernel)
  have hnone : Command.runKeyValue ∉ ((opened s).run changeDuringPass).system.engine.inbox := by
    rw [List.length_eq_zero_iff.1 hqueue]
    exact List.not_mem_nil
  rcases changes_awaited hstart changeDuringPass hnone hallows hpending with
    harmed | hyes | hyes | ⟨t, ht, -, status, hstage, -⟩
  · exact ⟨s, hstart, happ, harmed⟩
  · cases hrefused.symm.trans hyes
  · cases hcut.symm.trans hyes
  · have hnot := hopen t ht
    rw [hstage] at hnot
    cases hnot

/-- The job ticks during the pass, and the pass comes to its end. -/
def tickDuringPass : List Event :=
  changeDuringPass ++ [.call .runPass, .command] ++ List.replicate 13 (.task 0) ++ [.command]

/-- **A tick can be lost.** A package announced a change during a pass, and the job ticked before
the pass was over. Now everything is over, the change is pending and passes are allowed. But no pass
runs, nothing is queued, and the job is not armed. -/
theorem tick_lost :
    ∃ s, System.start {} {} deviceOfOne.fresh = .ok s ∧
      let w := (opened s).run tickDuringPass
      w.system.engine.inbox.length = 0 ∧ w.system.engine.policy.allows = true ∧
        "app" ∈ w.system.engine.pending.packages ∧ w.system.engine.runningPasses = 0 ∧
        w.system.engine.tasks.length = 0 ∧
        ((opened s).watch (.start s) tickDuringPass).armed = false :=
  start_decide (by decide +kernel)

end World

end Holdfast
