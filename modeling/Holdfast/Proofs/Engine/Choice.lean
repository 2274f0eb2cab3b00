import Holdfast.Proofs.Engine.DueTimes

/-!
# The first package that can run

The choice of a full backup is a loop over the head of the schedule. Packages that are put off go
behind everything that is due now, so the loop meets each entry once, in the order in which they
were queued.

- `Passes`, `Stops`: the rounds that go on and the last one, without a bound on their number, and
  `Passes.selectFull_eq`: the rounds that the choice is given do not matter as long as there are
  enough of them;
- `Schedule.PutOff`: how an entry changes that is put off;
- `Schedule.Leaves`: what a schedule is after its first entries were gone through;
- `exists_passes`: the loop over the entries that are due, by induction on them;
- `first_runnable_chosen`: **the choice ends, and it picks the first package that can run**.
-/

namespace Holdfast

open Schedule

/-! ## The loop -/

/-- A package has visible windows and may not be backed up meanwhile. -/
def Device.IsBusy (d : Device) (p : Package) : Prop :=
  d.isForeground p.uid = true ∧ p.inForeground = false

/-- The package of an entry is installed, gets full backups and is not busy. -/
def Device.CanRun (d : Device) (e : ScheduleEntry) (p : Package) : Prop :=
  IsCandidate d.catalog e.package p ∧ ¬ d.IsBusy p

/-- Rounds of the loop that go on: they take a schedule and the device through the entries `passed`,
one a round. -/
inductive Passes (ctx : SelectionContext) :
    Schedule → Device → List ScheduleEntry → Schedule → Device → Prop where
  | nil (q : Schedule) (d : Device) : Passes ctx q d [] q d
  | drops {q q' : Schedule} {d d' : Device} {head : ScheduleEntry} {passed : List ScheduleEntry} :
    q.head? = some head → ctx.ready = true → head.dueAt ≤ ctx.now →
    (∀ p, ¬ IsCandidate d.catalog head.package p) →
    Passes ctx (q.dequeue head.package) d passed q' d' → Passes ctx q d (head :: passed) q' d'
  | defers {q q' : Schedule} {d d' : Device} {head : ScheduleEntry} {p : Package}
      {passed : List ScheduleEntry} :
    q.head? = some head → ctx.ready = true → head.dueAt ≤ ctx.now →
    IsCandidate d.catalog head.package p → d.IsBusy p →
    Passes ctx
      (q.defer head.package head.lastBackup
        (busyUntil ctx.now ctx.settings.busyMin (Device.drawn ctx.settings.busyFuzz d.chance)))
      { d with chance := Device.undrawn ctx.settings.busyFuzz d.chance } passed q' d' →
    Passes ctx q d (head :: passed) q' d'

/-- The last round of the loop, in which something is chosen. -/
inductive Stops (ctx : SelectionContext) (q : Schedule) (d : Device) (changed : Bool) :
    Selected → Prop where
  | empty : q.head? = none → Stops ctx q d changed ⟨.wait none, q, changed, d⟩
  | unready {head : ScheduleEntry} : q.head? = some head → ctx.ready = false →
    Stops ctx q d changed ⟨.wait (some ctx.settings.keyValueInterval), q, changed, d⟩
  | early {head : ScheduleEntry} : q.head? = some head → ctx.ready = true →
    ctx.now < head.dueAt →
    Stops ctx q d changed ⟨.wait (some (wrapI64 (head.dueAt - ctx.now)).toNat), q, changed, d⟩
  | runs {head : ScheduleEntry} {p : Package} : q.head? = some head → ctx.ready = true →
    head.dueAt ≤ ctx.now → d.CanRun head p →
    Stops ctx q d changed ⟨.run head p, q.dequeue head.package, true, d⟩

theorem Device.not_isBusy_iff {d : Device} {p : Package} :
    ¬ d.IsBusy p ↔ (d.isForeground p.uid && !p.inForeground) = false := by
  unfold Device.IsBusy
  cases d.isForeground p.uid <;> cases p.inForeground <;> simp

section

variable {ctx : SelectionContext} {q q' : Schedule} {d d' : Device} {changed : Bool}
  {passed : List ScheduleEntry} {chosen : Selected}

/-- One round is enough to stop. -/
theorem Stops.selectFull_eq (h : Stops ctx q d changed chosen) (fuel : Nat) :
    selectFull ctx q d changed (fuel + 1) = chosen := by
  cases h with
  | empty hhead => simp [selectFull, hhead]
  | unready hhead hready => simp [selectFull, hhead, hready]
  | early hhead hready hearly => simp [selectFull, hhead, hready, hearly]
  | @runs head p hhead hready hdue hcan =>
    obtain ⟨⟨hfind, hgets⟩, hfree⟩ := hcan
    have hlate : ¬ ctx.now < head.dueAt := Int.not_lt.2 hdue
    have hfind : d.package? head.package = some p := hfind
    have hfree := Device.not_isBusy_iff.1 hfree
    simp [selectFull, hhead, hready, hlate, hfind, hgets, hfree]

/-- **The loop ends after the rounds that go on and one more**, and further rounds that it is given
make no difference. -/
theorem Passes.selectFull_eq (h : Passes ctx q d passed q' d')
    (hstops : Stops ctx q' d' (changed || !passed.isEmpty) chosen) {fuel : Nat}
    (hfuel : passed.length < fuel) : selectFull ctx q d changed fuel = chosen := by
  induction h generalizing fuel changed with
  | nil q d =>
    obtain ⟨fuel, rfl⟩ := Nat.exists_eq_add_one_of_ne_zero (Nat.ne_zero_of_lt hfuel)
    exact Stops.selectFull_eq (by simpa using hstops) fuel
  | @drops q q' d d' head passed hhead hready hdue hgone _ ih =>
    obtain ⟨fuel, rfl⟩ := Nat.exists_eq_add_one_of_ne_zero (Nat.ne_zero_of_lt hfuel)
    have hrest : selectFull ctx (q.dequeue head.package) d true fuel = chosen :=
      ih (by simpa using hstops) (by simpa using hfuel)
    have hlate : ¬ ctx.now < head.dueAt := Int.not_lt.2 hdue
    cases hfind : d.package? head.package with
    | none => simp [selectFull, hhead, hready, hlate, hfind, hrest]
    | some p =>
      -- it is installed, so it gets no full backup
      have hplain : p.getsFullBackup = false := by
        by_contra hgets
        exact hgone p ⟨hfind, by simpa using hgets⟩
      simp [selectFull, hhead, hready, hlate, hfind, hplain, hrest]
  | @defers q q' d d' head p passed hhead hready hdue hcandidate hbusy _ ih =>
    obtain ⟨fuel, rfl⟩ := Nat.exists_eq_add_one_of_ne_zero (Nat.ne_zero_of_lt hfuel)
    have hrest := @ih true (by simpa using hstops) fuel (by simpa using hfuel)
    have hlate : ¬ ctx.now < head.dueAt := Int.not_lt.2 hdue
    have hfind : d.package? head.package = some p := hcandidate.1
    obtain ⟨hvisible, hforeground⟩ := hbusy
    simp [selectFull, hhead, hready, hlate, hfind, hcandidate.2, hvisible, hforeground,
      Device.draw_eq, hrest]

/-- The rounds only draw from the device. -/
theorem Passes.device (h : Passes ctx q d passed q' d') : ∃ chance, d' = { d with chance } := by
  induction h with
  | nil q d => exact ⟨d.chance, rfl⟩
  | drops _ _ _ _ _ ih => exact ih
  | defers _ _ _ _ _ _ ih => exact ih

/-- The rounds keep the schedule by due time, with one entry per package. -/
theorem Passes.ordered (h : Passes ctx q d passed q' d') (hsingle : q.Single)
    (hsorted : q.entries.Pairwise (fun a b => a.dueAt ≤ b.dueAt)) :
    q'.Single ∧ q'.entries.Pairwise (fun a b => a.dueAt ≤ b.dueAt) := by
  induction h with
  | nil => exact ⟨hsingle, hsorted⟩
  | drops _ _ _ _ _ ih =>
    exact ih (hsingle.dequeue _) (hsorted.sublist List.eraseP_sublist)
  | defers _ _ _ _ _ _ ih =>
    exact ih (hsingle.defer _ _ _)
      (insertOrdered_sorted _ (hsorted.sublist List.eraseP_sublist))

end

/-! ## What is put off -/

theorem Device.undrawn_suffix (bound : Nat) (chance : List Nat) :
    undrawn bound chance <:+ chance := by
  unfold undrawn
  split
  · exact List.suffix_refl _
  · exact List.suffix_refl _
  · exact List.suffix_cons _ _

namespace Schedule

/-- A busy package was put off: it is due later than now, after the least back-off and what was
drawn on top of it, or at the end of time. Nothing else about it changed. -/
structure PutOff (settings : Settings) (now : Int) (chance : List Nat) (e e' : ScheduleEntry) :
    Prop where
  package : e'.package = e.package
  lastBackup : e'.lastBackup = e.lastBackup
  later : now < e'.dueAt
  drawn : ∃ draws fuzz, draws <:+ chance ∧ fuzz = Device.drawn settings.busyFuzz draws ∧
    (settings.busyFuzz = 0 → fuzz = 0) ∧ (0 < settings.busyFuzz → fuzz < settings.busyFuzz) ∧
    e'.dueAt = min (now + settings.busyMin + fuzz) maxI64

/-- What a schedule is after the entries `passed` at its head were gone through, and `rest` stood
behind them. -/
structure Leaves (settings : Settings) (now : Int) (d : Device)
    (passed rest : List ScheduleEntry) (q : Schedule) : Prop where
  /-- A package that was met is still queued just if it gets full backups. -/
  kept : ∀ e ∈ passed, (∃ e' ∈ q.entries, e'.package = e.package) ↔
    ∃ p, IsCandidate d.catalog e.package p
  putOff : ∀ e ∈ passed, ∀ e' ∈ q.entries, e'.package = e.package →
    PutOff settings now d.chance e e'
  /-- The others are as they were, in their order. -/
  others : q.entries.filter (fun e => e.package ∉ passed.map (·.package)) = rest

end Schedule

/-- A back-off ends later than now, unless time ends before. -/
theorem busyUntil_eq_min {now : Int} {least fuzz : Nat} (hpast : 0 ≤ now)
    (hword : least + fuzz ≤ maxU64) :
    busyUntil now least fuzz = min (now + least + fuzz) maxI64 := by
  have hmin : minI64 ≤ 0 := by decide
  have hmax : (0 : Int) ≤ maxI64 := by decide
  rw [busyUntil, wrapU64_of_fits hword]
  unfold satAdd
  split <;> omega

theorem Schedule.PutOff.le_maxI64 {settings : Settings} {now : Int} {chance : List Nat}
    {e e' : ScheduleEntry} (h : PutOff settings now chance e e') : e'.dueAt ≤ maxI64 := by
  obtain ⟨_, _, -, -, -, -, hmin⟩ := h.drawn
  exact Int.le_trans (Int.le_of_eq hmin) (Int.min_le_right _ _)

/-- Whatever is drawn for a busy package puts it off. -/
theorem putOff_busyUntil {settings : Settings} {now : Int} (hpast : 0 ≤ now)
    (hfuture : now < maxI64) (hleast : 1 ≤ settings.busyMin)
    (hword : settings.busyMin + settings.busyFuzz ≤ maxU64) (chance : List Nat)
    (e : ScheduleEntry) :
    PutOff settings now chance e
      ⟨e.package, e.lastBackup,
        busyUntil now settings.busyMin (Device.drawn settings.busyFuzz chance)⟩ := by
  have hpred := Device.drawn_le_pred settings.busyFuzz chance
  have hfits : settings.busyMin + Device.drawn settings.busyFuzz chance ≤ maxU64 := by omega
  have huntil := busyUntil_eq_min hpast hfits
  refine ⟨rfl, rfl, ?_, chance, _, List.suffix_refl _, rfl, ?_, ?_, huntil⟩
  · show now < busyUntil now settings.busyMin _
    omega
  · intro hnone
    omega
  · intro hsome
    omega

theorem Schedule.PutOff.mono {settings : Settings} {now : Int} {chance chance' : List Nat}
    {e e' : ScheduleEntry} (h : PutOff settings now chance e e') (hsuffix : chance <:+ chance') :
    PutOff settings now chance' e e' := by
  obtain ⟨hpackage, hlast, hlater, draws, fuzz, hdraws, hdrawn⟩ := h
  exact ⟨hpackage, hlast, hlater, draws, fuzz, hdraws.trans hsuffix, hdrawn⟩

namespace Schedule

variable {q : Schedule} {head : ScheduleEntry} {rest : List ScheduleEntry}

theorem dequeue_of_head (h : q.entries = head :: rest) :
    (q.dequeue head.package).entries = rest := by
  simp [dequeue, h]

theorem defer_of_head (h : q.entries = head :: rest) (lastBackup dueAt : Int) :
    (q.defer head.package lastBackup dueAt).entries =
      insertOrdered ⟨head.package, lastBackup, dueAt⟩ rest := by
  simp [defer, dequeue_of_head h]

/-- An entry goes behind all that are due no later. -/
theorem insertOrdered_behind {e : ScheduleEntry} {due later : List ScheduleEntry}
    (hsorted : (due ++ later).Pairwise (fun a b => a.dueAt ≤ b.dueAt))
    (hdue : ∀ other ∈ due, other.dueAt ≤ e.dueAt) :
    ∃ sooner after, later = sooner ++ after ∧
      insertOrdered e (due ++ later) = due ++ (sooner ++ e :: after) := by
  obtain ⟨earlier, after, hsplit, hinsert, -, hafter⟩ := insertOrdered_split e hsorted
  rcases List.append_eq_append_iff.1 hsplit with ⟨sooner, rfl, hlater⟩ | ⟨part, hpart, rfl⟩
  · exact ⟨sooner, after, hlater, by rw [hinsert, List.append_assoc]⟩
  · -- none of the entries that are due could stand behind the new one
    have hnil : part = [] := by
      refine List.eq_nil_iff_forall_not_mem.2 fun other hother => ?_
      have hle := hdue other (hpart ▸ List.mem_append_right _ hother)
      have hlt := hafter other (List.mem_append_left _ hother)
      omega
    subst hnil
    rw [List.append_nil] at hpart
    exact ⟨[], later, rfl, by rw [hinsert, hpart]; rfl⟩

/-- **A head that is put off stands behind everything that is due**, among the entries that are not
due. -/
theorem exists_deferred {settings : Settings} {now dueAt : Int} {chance : List Nat}
    {q : Schedule} {head : ScheduleEntry} {due later : List ScheduleEntry}
    (hentries : q.entries = head :: (due ++ later))
    (hsorted : q.entries.Pairwise (fun a b => a.dueAt ≤ b.dueAt))
    (hdue : ∀ e ∈ due, e.dueAt ≤ now)
    (hlater : ∀ e ∈ later, now < e.dueAt ∧ e.dueAt ≤ maxI64)
    (hput : PutOff settings now chance head ⟨head.package, head.lastBackup, dueAt⟩) :
    ∃ sooner after, later = sooner ++ after ∧
      (q.defer head.package head.lastBackup dueAt).entries =
        due ++ (sooner ++ ⟨head.package, head.lastBackup, dueAt⟩ :: after) ∧
      ∀ e ∈ sooner ++ ⟨head.package, head.lastBackup, dueAt⟩ :: after,
        now < e.dueAt ∧ e.dueAt ≤ maxI64 := by
  have hbehind : ∀ e ∈ due, e.dueAt ≤ dueAt :=
    fun e he => Int.le_of_lt (Int.lt_of_le_of_lt (hdue e he) hput.later)
  obtain ⟨sooner, after, rfl, hinsert⟩ := insertOrdered_behind
    (e := ⟨head.package, head.lastBackup, dueAt⟩) (hentries ▸ hsorted).of_cons hbehind
  refine ⟨sooner, after, rfl, (defer_of_head hentries head.lastBackup dueAt).trans hinsert, ?_⟩
  intro e he
  rcases List.mem_append.1 he with hsooner | hrest
  · exact hlater e (List.mem_append_left _ hsooner)
  · rcases List.mem_cons.1 hrest with rfl | hafter
    · exact ⟨hput.later, hput.le_maxI64⟩
    · exact hlater e (List.mem_append_right _ hafter)

end Schedule

/-! ## One round -/

namespace Schedule.Leaves

variable {settings : Settings} {now : Int} {d : Device} {passed rest : List ScheduleEntry}
  {q : Schedule} {head : ScheduleEntry}

theorem none (q : Schedule) : Leaves settings now d [] q.entries q where
  kept := nofun
  putOff := nofun
  others := List.filter_eq_self.2 fun _ _ => by simp

/-- What is in the schedule was met or stood behind what was met. -/
theorem mem_rest (h : Leaves settings now d passed rest q) {e : ScheduleEntry}
    (he : e ∈ q.entries) (hnew : e.package ∉ passed.map (·.package)) : e ∈ rest := by
  rw [← h.others]
  exact List.mem_filter.2 ⟨he, by simpa using hnew⟩

theorem mem_of_rest (h : Leaves settings now d passed rest q) {e : ScheduleEntry}
    (he : e ∈ rest) : e ∈ q.entries ∧ e.package ∉ passed.map (·.package) := by
  rw [← h.others] at he
  obtain ⟨hmem, hnew⟩ := List.mem_filter.1 he
  exact ⟨hmem, by simpa using hnew⟩

/-- The others, when one more package counts as met. -/
theorem others_cons (h : Leaves settings now d passed rest q) (head : ScheduleEntry) :
    q.entries.filter (fun e => e.package ∉ (head :: passed).map (·.package)) =
      rest.filter (fun e => e.package ≠ head.package) := by
  rw [← h.others, List.filter_filter]
  refine List.filter_congr fun e _ => ?_
  simp

/-- A package that gets no full backup was dropped before. -/
theorem drop (h : Leaves settings now d passed rest q)
    (hgone : ∀ p, ¬ IsCandidate d.catalog head.package p)
    (hpassed : head.package ∉ passed.map (·.package))
    (hrest : head.package ∉ rest.map (·.package)) :
    Leaves settings now d (head :: passed) rest q := by
  have hnone : ∀ e' ∈ q.entries, e'.package ≠ head.package := by
    intro e' he' hsame
    exact hrest (List.mem_map.2 ⟨e', h.mem_rest he' (hsame ▸ hpassed), hsame⟩)
  constructor
  · intro e he
    rcases List.mem_cons.1 he with rfl | he
    · refine ⟨fun hfound => ?_, fun hcandidate => ?_⟩
      · obtain ⟨e', he', hsame⟩ := hfound
        exact absurd hsame (hnone e' he')
      · obtain ⟨p, hp⟩ := hcandidate
        exact absurd hp (hgone p)
    · exact h.kept e he
  · intro e he e' he' hsame
    rcases List.mem_cons.1 he with rfl | he
    · exact absurd hsame (hnone e' he')
    · exact h.putOff e he e' he' hsame
  · rw [h.others_cons]
    refine List.filter_eq_self.2 fun e he => ?_
    have : e.package ≠ head.package := fun hsame => hrest (List.mem_map.2 ⟨e, he, hsame⟩)
    simpa using this

/-- A package that was put off before stands among the others. -/
theorem defer {put : ScheduleEntry} {front back : List ScheduleEntry} {chance : List Nat}
    (h : Leaves settings now { d with chance } passed (front ++ put :: back) q)
    (hchance : chance <:+ d.chance) (hput : PutOff settings now d.chance head put)
    (hcandidate : ∃ p, IsCandidate d.catalog head.package p)
    (hpassed : head.package ∉ passed.map (·.package))
    (hrest : head.package ∉ (front ++ back).map (·.package)) :
    Leaves settings now d (head :: passed) (front ++ back) q := by
  have hmem : put ∈ q.entries :=
    (h.mem_of_rest (List.mem_append_right _ List.mem_cons_self)).1
  -- it is the only entry of its package
  have honly : ∀ e' ∈ q.entries, e'.package = head.package → e' = put := by
    intro e' he' hsame
    have hin := h.mem_rest he' (hsame ▸ hpassed)
    rcases List.mem_append.1 hin with hfront | hback
    · exact absurd (List.mem_map.2 ⟨e', List.mem_append_left _ hfront, hsame⟩) hrest
    · rcases List.mem_cons.1 hback with rfl | hback
      · rfl
      · exact absurd (List.mem_map.2 ⟨e', List.mem_append_right _ hback, hsame⟩) hrest
  constructor
  · intro e he
    rcases List.mem_cons.1 he with rfl | he
    · exact ⟨fun _ => hcandidate, fun _ => ⟨put, hmem, hput.package⟩⟩
    · exact h.kept e he
  · intro e he e' he' hsame
    rcases List.mem_cons.1 he with rfl | he
    · rw [honly e' he' hsame]
      exact hput
    · exact (h.putOff e he e' he' hsame).mono hchance
  · have hother : ∀ e ∈ front ++ back, e.package ≠ head.package :=
      fun e he hsame => hrest (List.mem_map.2 ⟨e, he, hsame⟩)
    rw [h.others_cons, List.filter_append, List.filter_cons]
    have hfront : front.filter (fun e => e.package ≠ head.package) = front :=
      List.filter_eq_self.2 fun e he => by simpa using hother e (List.mem_append_left _ he)
    have hback : back.filter (fun e => e.package ≠ head.package) = back :=
      List.filter_eq_self.2 fun e he => by simpa using hother e (List.mem_append_right _ he)
    simp only [hput.package, ne_eq, not_true, decide_false, Bool.false_eq_true, if_false]
    rw [hfront, hback]

end Schedule.Leaves

/-- The entry at the head of what was not met is taken out. -/
theorem Schedule.Leaves.take {settings : Settings} {now : Int} {d : Device}
    {passed others : List ScheduleEntry} {q : Schedule} {head : ScheduleEntry}
    (h : Leaves settings now d passed (head :: others) q) (hsingle : q.Single) :
    Leaves settings now d passed others (q.dequeue head.package) := by
  obtain ⟨hhead, hnew⟩ := h.mem_of_rest (e := head) List.mem_cons_self
  have hmet : ∀ e ∈ passed, e.package ≠ head.package := by
    intro e he hsame
    exact hnew (List.mem_map.2 ⟨e, he, hsame⟩)
  constructor
  · intro e he
    refine Iff.trans ⟨fun hfound => ?_, fun hfound => ?_⟩ (h.kept e he)
    · obtain ⟨e', he', hsame⟩ := hfound
      exact ⟨e', (hsingle.mem_dequeue.1 he').1, hsame⟩
    · obtain ⟨e', he', hsame⟩ := hfound
      exact ⟨e', hsingle.mem_dequeue.2 ⟨he', hsame ▸ hmet e he⟩, hsame⟩
  · intro e he e' he' hsame
    exact h.putOff e he e' (hsingle.mem_dequeue.1 he').1 hsame
  · have hothers := h.others
    have hdistinct : ∀ e ∈ others, e.package ≠ head.package := by
      have hsub : (head :: others).Sublist q.entries := hothers ▸ List.filter_sublist
      have hnodup := List.Nodup.sublist (hsub.map ScheduleEntry.package) hsingle
      intro e he hsame
      exact (List.nodup_cons.1 hnodup).1 (List.mem_map.2 ⟨e, he, hsame⟩)
    rw [dequeue, eraseP_package hsingle, List.filter_filter]
    calc q.entries.filter (fun e => decide (e.package ∉ passed.map (·.package)) &&
          decide (e.package ≠ head.package))
        = (q.entries.filter (fun e => e.package ∉ passed.map (·.package))).filter
            (fun e => e.package ≠ head.package) := by
          rw [List.filter_filter]
          exact List.filter_congr fun e _ => Bool.and_comm _ _
      _ = (head :: others).filter (fun e => e.package ≠ head.package) := by rw [hothers]
      _ = others := by
          rw [List.filter_cons_of_neg (by simp)]
          exact List.filter_eq_self.2 fun e he => by simpa using hdistinct e he

/-! ## The whole choice -/

section

variable {ctx : SelectionContext}

/-- **The loop goes through the entries that are due** up to the first that can run. The entries
`later` are those that are not due; what is put off joins them. -/
theorem exists_passes (hready : ctx.ready = true) (hpast : 0 ≤ ctx.now)
    (hfuture : ctx.now < maxI64) (hleast : 1 ≤ ctx.settings.busyMin)
    (hword : ctx.settings.busyMin + ctx.settings.busyFuzz ≤ maxU64) {due later : List ScheduleEntry}
    {q : Schedule} {d : Device} (hentries : q.entries = due ++ later) (hsingle : q.Single)
    (hsorted : q.entries.Pairwise (fun a b => a.dueAt ≤ b.dueAt))
    (hdue : ∀ e ∈ due, e.dueAt ≤ ctx.now)
    (hlater : ∀ e ∈ later, ctx.now < e.dueAt ∧ e.dueAt ≤ maxI64) :
    ∃ passed rest later' q' d', due = passed ++ rest ∧ Passes ctx q d passed q' d' ∧
      q'.entries = rest ++ later' ∧ (∀ e ∈ later', ctx.now < e.dueAt ∧ e.dueAt ≤ maxI64) ∧
      (∀ e ∈ passed, ∀ p, ¬ d.CanRun e p) ∧
      (∀ head ∈ rest.head?, ∃ p, d.CanRun head p) ∧
      Leaves ctx.settings ctx.now d passed (rest ++ later) q' := by
  induction due generalizing q d later with
  | nil =>
    refine ⟨[], [], later, q, d, rfl, .nil q d, hentries, hlater, nofun, nofun, ?_⟩
    rw [List.nil_append, ← List.nil_append later, ← hentries]
    exact .none q
  | cons head due ih =>
    have hhead : q.head? = some head := by
      rw [Schedule.head?, hentries]
      rfl
    have hnow : head.dueAt ≤ ctx.now := hdue head List.mem_cons_self
    have hnew : head.package ∉ (due ++ later).map (·.package) := by
      have hnodup : (q.entries.map (·.package)).Nodup := hsingle
      rw [hentries] at hnodup
      exact (List.nodup_cons.1 hnodup).1
    by_cases hcandidate : ∃ p, IsCandidate d.catalog head.package p
    · obtain ⟨p, hp⟩ := hcandidate
      by_cases hbusy : d.IsBusy p
      · -- it is put off behind everything that is due
        have hput := putOff_busyUntil hpast hfuture hleast hword d.chance head
        generalize hdueAt : busyUntil ctx.now ctx.settings.busyMin
          (Device.drawn ctx.settings.busyFuzz d.chance) = dueAt at hput
        have hdue' : ∀ e ∈ due, e.dueAt ≤ ctx.now :=
          fun e he => hdue e (List.mem_cons_of_mem _ he)
        obtain ⟨sooner, after, rfl, hdeferred, hlater'⟩ :=
          exists_deferred hentries hsorted hdue' hlater hput
        obtain ⟨passed, rest, later', q', d', rfl, hpasses, hq', hq'later, hblocked, hfirst,
          hleaves⟩ := ih (d := { d with chance := Device.undrawn ctx.settings.busyFuzz d.chance })
            hdeferred (hsingle.defer _ _ _)
            (insertOrdered_sorted _ (hsorted.sublist List.eraseP_sublist)) hdue' hlater'
        have hmet : head.package ∉ passed.map (·.package) := by
          intro hmem
          exact hnew (by simp only [List.map_append, List.mem_append]; exact .inl (.inl hmem))
        have hleft : head.package ∉ ((rest ++ sooner) ++ after).map (·.package) := by
          intro hmem
          simp only [List.map_append, List.mem_append] at hmem hnew
          tauto
        refine ⟨head :: passed, rest, later', q', d', rfl, ?_, hq', hq'later, ?_, hfirst, ?_⟩
        · exact .defers hhead hready hnow hp hbusy (hdueAt ▸ hpasses)
        · intro e he other hcan
          rcases List.mem_cons.1 he with rfl | he
          · cases hp.1.symm.trans hcan.1.1
            exact hcan.2 hbusy
          · exact hblocked e he other hcan
        · rw [← List.append_assoc] at hleaves ⊢
          exact hleaves.defer (Device.undrawn_suffix _ _) hput ⟨p, hp⟩ hmet hleft
      · -- it can run
        refine ⟨[], head :: due, later, q, d, rfl, .nil q d, hentries, hlater, nofun, ?_, ?_⟩
        · intro other hother
          cases hother
          exact ⟨p, hp, hbusy⟩
        · rw [← hentries]
          exact .none q
    · -- it is dropped
      have hgone : ∀ p, ¬ IsCandidate d.catalog head.package p :=
        fun p hp => hcandidate ⟨p, hp⟩
      obtain ⟨passed, rest, later', q', d', rfl, hpasses, hq', hq'later, hblocked, hfirst,
        hleaves⟩ := ih (d := d) (dequeue_of_head hentries) (hsingle.dequeue _)
          (hsorted.sublist List.eraseP_sublist)
          (fun e he => hdue e (List.mem_cons_of_mem _ he)) hlater
      rw [List.append_assoc, List.map_append, List.mem_append, not_or] at hnew
      refine ⟨head :: passed, rest, later', q', d', rfl, .drops hhead hready hnow hgone hpasses,
        hq', hq'later, ?_, hfirst, hleaves.drop hgone hnew.1 ?_⟩
      · intro e he p hcan
        rcases List.mem_cons.1 he with rfl | he
        · exact hgone p hcan.1
        · exact hblocked e he p hcan
      · exact hnew.2

/-- A word that fits is not wrapped. -/
theorem wrapI64_of_fits {x : Int} (hlow : minI64 ≤ x) (hhigh : x ≤ maxI64) : wrapI64 x = x := by
  refine Int.bmod_eq_of_le ?_ ?_
  · simpa [minI64, maxU64] using hlow
  · have hhigh : x ≤ 9223372036854775807 := hhigh
    simp only [maxU64]
    omega

/-- Where nothing is due, the loop stops and waits for the head. -/
theorem exists_stops_waits (hready : ctx.ready = true) (hpast : 0 ≤ ctx.now) {q : Schedule}
    (hlater : ∀ e ∈ q.entries, ctx.now < e.dueAt ∧ e.dueAt ≤ maxI64) (d : Device)
    (changed : Bool) :
    ∃ delay, Stops ctx q d changed ⟨.wait delay, q, changed, d⟩ ∧
      (delay = none ↔ q.entries = []) ∧
      ∀ head ∈ q.head?, ctx.now < head.dueAt ∧ delay = some (head.dueAt - ctx.now).toNat := by
  cases hentries : q.entries with
  | nil =>
    have hhead : q.head? = none := by
      rw [Schedule.head?, hentries]
      rfl
    exact ⟨none, .empty hhead, by simp, by simp [hhead]⟩
  | cons head _ =>
    have hhead : q.head? = some head := by
      rw [Schedule.head?, hentries]
      rfl
    obtain ⟨hearly, hfits⟩ := hlater head (hentries ▸ List.mem_cons_self)
    have hword : wrapI64 (head.dueAt - ctx.now) = head.dueAt - ctx.now := by
      have hmin : minI64 ≤ 0 := by decide
      exact wrapI64_of_fits (by omega) (by omega)
    refine ⟨_, .early hhead hready hearly, by simp, fun other hother => ?_⟩
    cases hhead.symm.trans hother
    exact ⟨hearly, by rw [hword]⟩

/-- A transport that is not ready stops the loop at once. -/
theorem stops_unready (hready : ctx.ready = false) (q : Schedule) (d : Device) (changed : Bool) :
    Stops ctx q d changed
      ⟨.wait (if q.entries = [] then none else some ctx.settings.keyValueInterval), q, changed,
        d⟩ := by
  cases hentries : q.entries with
  | nil => exact .empty (by rw [Schedule.head?, hentries]; rfl)
  | cons => exact .unready (by rw [Schedule.head?, hentries]; rfl) hready

/-- **The choice ends, and it picks the first package that can run.** The loop goes through the
entries `passed` at the head of the queue, each once, with as many rounds to spare as one likes. If
the transport is ready, these are due and cannot run. Either the entry behind them is due and can
run: then it is chosen and taken out. Or nothing behind them is due: then there is nothing to wait
for if the schedule is empty, and else the choice waits for its head. A transport that is not ready
is waited for. -/
theorem first_runnable_chosen (ctx : SelectionContext) (d : Device) {q : Schedule}
    (hsingle : q.Single) (hsorted : q.entries.Pairwise (fun a b => a.dueAt ≤ b.dueAt))
    (hepoch : ∀ e ∈ q.entries, 0 ≤ e.dueAt ∧ e.dueAt ≤ maxI64)
    (hpast : 0 ≤ ctx.now) (hfuture : ctx.now < maxI64) (hleast : 1 ≤ ctx.settings.busyMin)
    (hword : ctx.settings.busyMin + ctx.settings.busyFuzz ≤ maxU64) :
    ∃ passed rest q' d' chosen, q.entries = passed ++ rest ∧ Passes ctx q d passed q' d' ∧
      Stops ctx q' d' (!passed.isEmpty) chosen ∧
      (∀ fuel, passed.length < fuel → selectFull ctx q d false fuel = chosen) ∧
      chosen.schedule.Single ∧
      chosen.schedule.entries.Pairwise (fun a b => a.dueAt ≤ b.dueAt) ∧
      (ctx.ready = true → (∀ e ∈ passed, e.dueAt ≤ ctx.now ∧ ∀ p, ¬ d.CanRun e p) ∧
        ((∃ head others p, rest = head :: others ∧ head.dueAt ≤ ctx.now ∧ d.CanRun head p ∧
            chosen.selection = .run head p ∧ chosen.changed = true ∧
            Leaves ctx.settings ctx.now d passed others chosen.schedule) ∨
          ((∀ e ∈ rest, ctx.now < e.dueAt) ∧ chosen.changed = !passed.isEmpty ∧
            Leaves ctx.settings ctx.now d passed rest chosen.schedule ∧
            ∃ delay, chosen.selection = .wait delay ∧
              (delay = none ↔ chosen.schedule.entries = []) ∧
              ∀ head ∈ chosen.schedule.head?,
                ctx.now < head.dueAt ∧ delay = some (head.dueAt - ctx.now).toNat))) ∧
      (ctx.ready = false → passed = [] ∧ chosen.schedule = q ∧ chosen.changed = false ∧
        chosen.selection =
          .wait (if q.entries = [] then none else some ctx.settings.keyValueInterval)) := by
  cases hready : ctx.ready with
  | false =>
    have hstops := stops_unready hready q d false
    exact ⟨[], q.entries, q, d, _, rfl, .nil q d, hstops,
      fun fuel hfuel => (Passes.nil q d).selectFull_eq hstops hfuel, hsingle, hsorted, nofun,
      fun _ => ⟨rfl, rfl, rfl, rfl⟩⟩
  | true =>
    -- an entry that is due now would be inserted where the later ones begin
    obtain ⟨due, later, hentries, -, hdue, hlater⟩ :=
      insertOrdered_split ⟨"", 0, ctx.now⟩ hsorted
    have hlater : ∀ e ∈ later, ctx.now < e.dueAt ∧ e.dueAt ≤ maxI64 := fun e he =>
      ⟨hlater e he, (hepoch e (hentries ▸ List.mem_append_right _ he)).2⟩
    obtain ⟨passed, rest, later', q', d', rfl, hpasses, hq', hlater', hblocked, hfirst, hleaves⟩ :=
      exists_passes hready hpast hfuture hleast hword hentries hsingle hsorted hdue hlater (d := d)
    obtain ⟨hsingle', hsorted'⟩ := hpasses.ordered hsingle hsorted
    obtain ⟨chance, hdevice⟩ := hpasses.device
    have hwhole : q.entries = passed ++ (rest ++ later) := by rw [hentries, List.append_assoc]
    have hmet : ∀ e ∈ passed, e.dueAt ≤ ctx.now ∧ ∀ p, ¬ d.CanRun e p := fun e he =>
      ⟨hdue e (List.mem_append_left _ he), hblocked e he⟩
    cases rest with
    | cons head others =>
      obtain ⟨p, hcan⟩ := hfirst head rfl
      have hnow : head.dueAt ≤ ctx.now :=
        hdue head (List.mem_append_right _ List.mem_cons_self)
      have hhead : q'.head? = some head := by
        rw [Schedule.head?, hq']
        rfl
      have hcan' : d'.CanRun head p := by
        rw [hdevice]
        exact hcan
      have hstops : Stops ctx q' d' (!passed.isEmpty) _ := .runs hhead hready hnow hcan'
      refine ⟨passed, _, q', d', _, hwhole, hpasses, hstops,
        fun fuel hfuel => hpasses.selectFull_eq (by exact hstops) hfuel, hsingle'.dequeue _,
        hsorted'.sublist List.eraseP_sublist, fun _ => ⟨hmet, .inl ?_⟩, nofun⟩
      exact ⟨head, others ++ later, p, rfl, hnow, hcan, rfl, rfl, hleaves.take hsingle'⟩
    | nil =>
      rw [List.nil_append] at hq' hleaves
      obtain ⟨delay, hstops, hempty, hwaits⟩ :=
        exists_stops_waits hready hpast (hq' ▸ hlater') d' (!passed.isEmpty)
      refine ⟨passed, _, q', d', _, hwhole, hpasses, hstops,
        fun fuel hfuel => hpasses.selectFull_eq (by exact hstops) hfuel, hsingle', hsorted',
        fun _ => ⟨hmet, .inr ⟨fun e he => (hlater e he).1, rfl, hleaves, delay, rfl, hempty,
          hwaits⟩⟩, nofun⟩

end

/-- A package that is gone, one with visible windows, one that can run, and one that is not due. -/
def queueOfFour : Schedule :=
  { interval := 1000
    entries := [⟨"gone", 5, 0⟩, ⟨"mail", 7, 3⟩, ⟨"files", 0, 9⟩, ⟨"music", 4, 12⟩] }

/-- A device on which the mail is read. -/
def deviceOfMail : Device :=
  { catalog := [⟨"mail", 10001, true, false, false, false⟩,
      ⟨"files", 10002, true, false, false, false⟩, ⟨"music", 10003, true, false, false, false⟩]
    foreground := [10001], chance := [4] }

/-- The choice at a time at which three of four packages are due. -/
theorem first_runnable_chosen_files :
    ∃ passed rest q' d' chosen, queueOfFour.entries = passed ++ rest ∧
      Passes ⟨10, true, {}⟩ queueOfFour deviceOfMail passed q' d' ∧
      (∀ fuel, passed.length < fuel →
        selectFull ⟨10, true, {}⟩ queueOfFour deviceOfMail false fuel = chosen) ∧
      (∀ e ∈ passed, e.dueAt ≤ 10 ∧ ∀ p, ¬ deviceOfMail.CanRun e p) := by
  obtain ⟨passed, rest, q', d', chosen, hsplit, hpasses, -, hfuel, -, -, hready, -⟩ :=
    first_runnable_chosen ⟨10, true, {}⟩ deviceOfMail (q := queueOfFour)
      (show (queueOfFour.entries.map (·.package)).Nodup by decide)
      (by decide) (by decide) (by decide) (by decide) (by decide) (by decide)
  exact ⟨passed, rest, q', d', chosen, hsplit, hpasses, hfuel, (hready rfl).1⟩

example : (selectFull ⟨10, true, {}⟩ queueOfFour deviceOfMail false 5).schedule.entries =
    [⟨"music", 4, 12⟩, ⟨"mail", 7, 3600014⟩] := by
  decide

end Holdfast
