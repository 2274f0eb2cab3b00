import Holdfast.Proofs.Engine.Chronicle
import Holdfast.Proofs.Engine.Requests

/-!
# The course of one task

A run mixes the steps of all tasks with everything else that can happen. The course of a task is
what is left of a run when only the task's own steps are kept, each with the system as it found
it.

- `World.course`: the steps of one task in a run;
- `Course`: a sequence of steps in which a task always stands where its last step left it;
- `World.course_of_seat`: **every run projects to a course**, since nobody but the task itself
  changes its entry in the books.
-/

namespace Holdfast

/-- A step of a task, with the system before it. -/
structure Step where
  before : System
  task : Task

namespace Step

/-- The system after a step. -/
def after (x : Step) : System := x.before.stepTask x.task

/-- The calls that were made in a step, with the names of the transports. -/
def calls (x : Step) : List (String × TransportCall) :=
  x.after.chronicle.calls.drop x.before.chronicle.calls.length

/-- What observers were told in a step. -/
def told (x : Step) : List Device.Notice :=
  x.after.chronicle.told.drop x.before.chronicle.told.length

/-- A step is made by the task that stands at an entry of the books. -/
structure From (x : Step) (e : Seat) : Prop where
  mem : x.task ∈ x.before.engine.tasks
  seat : x.task.seat = e
  distinct : x.before.Distinct

end Step

/-- A task makes some steps, starting at an entry of the books. At the end it stands at another
entry, or it is gone. -/
inductive Course : Seat → List Step → Option Seat → Prop where
  | rest (e : Seat) : Course e [] (some e)
  | last {e : Seat} {x : Step} :
    x.From e → (∀ e' ∈ x.after.ledger.seats, e'.number ≠ e.number) → Course e [x] none
  | step {e e' : Seat} {x : Step} {steps : List Step} {final : Option Seat} :
    x.From e → e' ∈ x.after.ledger.seats → e'.number = e.number → Course e' steps final →
    Course e (x :: steps) final

namespace Course

variable {e : Seat} {x : Step} {steps : List Step} {final : Option Seat}

theorem from_head (h : Course e (x :: steps) final) : x.From e := by
  cases h with
  | last hfrom _ => exact hfrom
  | step hfrom _ _ _ => exact hfrom

/-- A task that goes on stands where its step left it. -/
theorem move (h : Course e (x :: steps) final) {e' : Seat} (hnumber : e'.number = e.number)
    (hseats : x.after.ledger.seats =
      x.before.ledger.seats.map fun other => if other.number = e.number then e' else other) :
    Course e' steps final := by
  cases h with
  | last hfrom hgone =>
    -- a task that goes on has an entry in the books, so this was not its last step
    have hmem : e' ∈ x.after.ledger.seats := by
      rw [hseats]
      refine List.mem_map.2 ⟨x.task.seat, List.mem_map_of_mem hfrom.mem, if_pos ?_⟩
      rw [hfrom.seat]
    exact absurd hnumber (hgone e' hmem)
  | step hfrom hmem hsame hcourse =>
    rw [hseats] at hmem
    obtain ⟨other, -, rfl⟩ := List.mem_map.1 hmem
    by_cases hother : other.number = e.number
    · rwa [if_pos hother] at hcourse
    · rw [if_neg hother] at hsame
      exact absurd hsame hother

/-- A task that is over makes no more steps. -/
theorem stop (h : Course e (x :: steps) final)
    (hseats : x.after.ledger.seats =
      x.before.ledger.seats.filter (fun other => other.number ≠ e.number)) :
    steps = [] ∧ final = none := by
  cases h with
  | last _ _ => exact ⟨rfl, rfl⟩
  | step _ hmem hnumber _ =>
    rw [hseats] at hmem
    have hne := (List.mem_filter.1 hmem).2
    simp only [decide_not, Bool.not_eq_true', decide_eq_false_iff_not] at hne
    exact absurd hnumber hne

end Course

/-! ## Entries of other tasks -/

namespace Ledger

variable {l l' : Ledger} {hand hand' : List Lease} {gain : Gain}

/-- A task of a number that was handed out is gone, and nobody else will have its number. -/
structure Gone (l : Ledger) (number : Nat) : Prop where
  below : number < l.nextNumber
  absent : ∀ e ∈ l.seats, e.number ≠ number

/-- What a move does to the tasks: all stay, and new ones have new numbers and are to be opened. -/
structure Grows (l l' : Ledger) : Prop where
  next : l.nextNumber ≤ l'.nextNumber
  kept : l.seats ⊆ l'.seats
  fresh : ∀ e ∈ l'.seats, e ∈ l.seats ∨ (l.nextNumber ≤ e.number ∧ e.stage = .opening)

theorem grows_of_perm (hnext : l.nextNumber ≤ l'.nextNumber) (hperm : l.seats.Perm l'.seats) :
    Grows l l' :=
  ⟨hnext, hperm.subset, fun _ h => .inl (hperm.mem_iff.2 h)⟩

theorem grows_enter (job : Job) (lease : Option Lease) (token : Option OpToken)
    (hnext : l.nextNumber ≤ l'.nextNumber) (hseats : l'.seats = l.seats) :
    Grows l (l'.enter job lease token) := by
  refine ⟨Nat.le_succ_of_le hnext, fun e he => ?_, fun e he => ?_⟩
  · exact List.mem_append_left _ (hseats ▸ he)
  · rcases List.mem_append.1 he with he | he
    · exact .inl (hseats ▸ he)
    · right
      obtain rfl := List.mem_singleton.1 he
      exact ⟨hnext, rfl⟩

theorem Deed.grows (hdeed : Deed l hand l' hand' gain) : Grows l l' := by
  cases hdeed with
  | settle _ hperm _ => exact grows_of_perm (Nat.le_refl _) hperm
  | lend _ | giveBack _ | request _ _ | submit _ _ | wait _ _ | hear _ _ | hold _ =>
    exact grows_of_perm (Nat.le_refl _) (.refl _)
  | serve _ _ _ | next _ _ _ | restore _ | nextRestore _ | drain _ _ _ | full _ _ _ | wipe
  | clear _ => exact grows_enter _ _ _ (Nat.le_refl _) rfl

theorem Move.grows (hmove : Move l hand l' hand' gain) : Grows l l' := by
  obtain ⟨k, observer, said, -, hdeed⟩ := hmove
  obtain ⟨hnext, hkept, hfresh⟩ := hdeed.grows
  have hk : l.nextNumber ≤ (l.later k said).nextNumber := Nat.le_add_right _ _
  exact ⟨Nat.le_trans hk hnext, hkept, fun e he =>
    (hfresh e he).imp_right fun hnew => ⟨Nat.le_trans hk hnew.1, hnew.2⟩⟩

theorem mem_reseat_other {e other : Seat} (h : other ∈ l.seats) (hne : other.number ≠ e.number) :
    other ∈ (l.reseat e).seats :=
  List.mem_map.2 ⟨other, h, if_neg hne⟩

/-- A step changes the entry of its own task only. -/
theorem Turn.kept {e : Seat} {greeted : List String} {said : List Device.Notice}
    (hturn : Turn l e greeted said l') {other : Seat} (h : other ∈ l.seats)
    (hne : other.number ≠ e.number) : other ∈ l'.seats := by
  rcases hturn.outcome with ⟨e', halike, -, hseats⟩ | ⟨_, _, _, _, _, hseats⟩
  · have hnumber : e'.number = e.number := halike.number
    rw [hseats]
    exact mem_reseat_other h (by rwa [hnumber])
  · rw [hseats]
    exact List.mem_filter.2 ⟨h, by simpa using hne⟩

theorem Turn.next {e : Seat} {greeted : List String} {said : List Device.Notice}
    (hturn : Turn l e greeted said l') : l.nextNumber ≤ l'.nextNumber :=
  hturn.frame.2.2.2.2.2.1

end Ledger

/-! ## Steps in a run -/

namespace World

variable {w : World}

/-- The step that the task of a number makes in an event. -/
def turn? (w : World) (number : Nat) : Event → Option Step
  | .task other =>
    if other = number then
      (w.system.engine.tasks.find? (·.number == number)).bind fun t =>
        if w.system.isReady t then some ⟨w.system, t⟩ else none
    else none
  | _ => none

/-- The steps that the task of a number makes in a run, oldest first. -/
def course (w : World) (number : Nat) : List Event → List Step
  | [] => []
  | event :: events => (w.turn? number event).toList ++ (w.happen event).course number events

/-- A task makes its step in an event. -/
theorem turn?_eq_some {number : Nat} {event : Event} {x : Step}
    (h : w.turn? number event = some x) :
    event = .task number ∧ x.before = w.system ∧ x.task ∈ w.system.engine.tasks ∧
      x.task.number = number ∧ w.happen event = w.stepTask x.task := by
  cases event with
  | task other =>
    by_cases heq : other = number
    · subst heq
      rw [turn?, if_pos rfl, Option.bind_eq_some_iff] at h
      obtain ⟨t, hfind, h⟩ := h
      by_cases hready : w.system.isReady t = true
      · rw [if_pos hready] at h
        obtain rfl := Option.some.inj h
        refine ⟨rfl, rfl, List.mem_of_find?_eq_some hfind, ?_, ?_⟩
        · simpa using List.find?_some hfind
        · simp only [happen, hfind, hready, if_true]
      · rw [if_neg hready] at h
        cases h
    · rw [turn?, if_neg heq] at h
      cases h
  | _ => cases h

/-- Where a task makes no step, the others' steps and everything else leave its entry alone. -/
theorem happen_kept (hs : w.Sound) {e : Seat} (he : e ∈ w.system.ledger.seats) {event : Event}
    (hturn : w.turn? e.number event = none) : e ∈ (w.happen event).system.ledger.seats := by
  by_cases htask : ∃ other, event = .task other
  · obtain ⟨other, rfl⟩ := htask
    simp only [happen]
    cases hfind : w.system.engine.tasks.find? (·.number == other) with
    | none => exact he
    | some t =>
      by_cases hready : w.system.isReady t = true
      · have hnumber : t.number = other := by simpa using List.find?_some hfind
        have hne : other ≠ e.number := by
          rintro rfl
          rw [turn?, if_pos rfl, hfind, Option.bind_some, if_pos hready] at hturn
          cases hturn
        have hseat : t.seat ∈ w.system.ledger.seats :=
          List.mem_map_of_mem (List.mem_of_find?_eq_some hfind)
        obtain ⟨said, hturned⟩ := System.stepTask_turn hs.numbers (hs.fit _ hseat) hready
        simp only [if_pos hready]
        exact hturned.kept he fun h => hne (hnumber.symm.trans h.symm)
      · simp only [if_neg hready]
        exact he
  · obtain ⟨gain, hmove, -⟩ := happen_moved hs fun other h => htask ⟨other, h⟩
    exact hmove.grows.kept he

/-- Numbers are never taken back. -/
theorem Change.next {w' : World} (hchange : w.Change w') :
    w.system.ledger.nextNumber ≤ w'.system.ledger.nextNumber := by
  cases hchange with
  | move hmove _ _ _ _ => exact hmove.grows.next
  | turn _ hturn _ _ _ _ _ => exact hturn.next

/-- The number of a task that is gone never comes back. -/
theorem Change.gone {w' : World} (hchange : w.Change w') {number : Nat}
    (h : w.system.ledger.Gone number) : w'.system.ledger.Gone number := by
  refine ⟨Nat.lt_of_lt_of_le h.below hchange.next, fun e he heq => ?_⟩
  cases hchange with
  | move hmove _ _ _ _ =>
    rcases hmove.grows.fresh e he with hold | hnew
    · exact h.absent e hold heq
    · have hbelow := h.below
      have hnext := hnew.1
      omega
  | turn _ hturn _ _ _ _ _ =>
    obtain ⟨old, hold, hnumber⟩ := List.mem_map.1 (hturn.numbers (List.mem_map_of_mem he))
    exact h.absent old hold (hnumber.trans heq)

/-- A task that is gone makes no more steps. -/
theorem course_gone (hs : w.Sound) {number : Nat} (h : w.system.ledger.Gone number)
    (events : List Event) :
    w.course number events = [] ∧ (w.run events).system.ledger.Gone number := by
  induction events generalizing w with
  | nil => exact ⟨rfl, h⟩
  | cons event events ih =>
    have hchange := happen_change hs event
    obtain ⟨hnil, hgone⟩ := ih (hchange.sound hs) (hchange.gone h)
    refine ⟨?_, hgone⟩
    cases hturn : w.turn? number event with
    | none => rw [course, hturn, hnil]; rfl
    | some x =>
      obtain ⟨-, -, hmem, hnumber, -⟩ := turn?_eq_some hturn
      exact absurd hnumber (h.absent x.task.seat (List.mem_map_of_mem hmem))

/-- **Every run projects to a course.** -/
theorem course_of_seat (hs : w.Sound) {e : Seat} (he : e ∈ w.system.ledger.seats)
    (events : List Event) :
    ∃ final, Course e (w.course e.number events) final ∧
      (final.isSome ↔ (w.run events).runs e.number) := by
  induction events generalizing w e with
  | nil =>
    refine ⟨some e, .rest e, ?_⟩
    rw [← runs_iff]
    exact ⟨fun _ => List.mem_map_of_mem he, fun _ => rfl⟩
  | cons event events ih =>
    have hchange := happen_change hs event
    have hs' := hchange.sound hs
    cases hturn : w.turn? e.number event with
    -- an event of others leaves the entry as it is
    | none =>
      obtain ⟨final, hcourse, hfinal⟩ := ih hs' (happen_kept hs he hturn)
      exact ⟨final, by rw [course, hturn]; exact hcourse, hfinal⟩
    | some x =>
      obtain ⟨-, hbefore, hmem, hnumber, hhappen⟩ := turn?_eq_some hturn
      have hafter : (w.happen event).system = x.after := by
        rw [hhappen, Step.after, hbefore]
        rfl
      have hfrom : x.From e := by
        refine ⟨by rw [hbefore]; exact hmem, ?_, by rw [hbefore]; exact hs.numbers⟩
        exact List.inj_on_of_nodup_map hs.numbers (List.mem_map_of_mem hmem) he hnumber
      rw [course, hturn]
      -- the task goes on with another entry, or this was its last step
      by_cases hstays : ∃ e' ∈ x.after.ledger.seats, e'.number = e.number
      · obtain ⟨e', he', hnumber'⟩ := hstays
        obtain ⟨final, hcourse, hfinal⟩ := ih hs' (hafter ▸ he')
        rw [hnumber'] at hcourse hfinal
        exact ⟨final, .step hfrom he' hnumber' hcourse, hfinal⟩
      · have hnone : ∀ e' ∈ x.after.ledger.seats, e'.number ≠ e.number :=
          fun e' he' heq => hstays ⟨e', he', heq⟩
        have hgone : (w.happen event).system.ledger.Gone e.number :=
          ⟨Nat.lt_of_lt_of_le (hs.below e he) hchange.next, by rw [hafter]; exact hnone⟩
        obtain ⟨hnil, hgone'⟩ := course_gone hs' hgone events
        refine ⟨none, by rw [hnil]; exact .last hfrom hnone, ?_⟩
        rw [← runs_iff]
        constructor
        · intro h
          cases h
        · intro h
          obtain ⟨e', he', hnumber'⟩ := List.mem_map.1 h
          exact absurd hnumber' (hgone'.absent e' he')

end World

end Holdfast
