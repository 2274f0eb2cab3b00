import Holdfast.Proofs.Engine.Errands
import Holdfast.Proofs.Schedule

/-!
# What the choice of a full backup does to the schedule

The choice goes through the head of the schedule. On its way it drops packages that cannot be backed
up in full any more and puts off those that are busy.

- `Schedule.Single`: one entry per package, and what each change does to the entries then;
- `Schedule.Sifted`: nothing was lost but packages that get no full backup, and no last backup was
  changed; `selectFull_sifts` has this of every choice;
- `System.beginFull_cases`: **what the full-backup job does to the agenda.**
-/

namespace Holdfast

/-- Where names are distinct, what a name finds is what bears it. -/
theorem find?_name_eq_some_iff {α : Type} {l : List α} {nameOf : α → String}
    (hnames : (l.map nameOf).Nodup) {name : String} {x : α} :
    l.find? (nameOf · == name) = some x ↔ x ∈ l ∧ nameOf x = name := by
  constructor
  · intro hfind
    exact ⟨List.mem_of_find?_eq_some hfind, by simpa using List.find?_some hfind⟩
  · rintro ⟨hmem, rfl⟩
    cases hfind : l.find? (nameOf · == nameOf x) with
    | none => exact absurd (List.find?_eq_none.1 hfind x hmem) (by simp)
    | some other =>
      have hsame : nameOf other = nameOf x := by simpa using List.find?_some hfind
      rw [List.inj_on_of_nodup_map hnames (List.mem_of_find?_eq_some hfind) hmem hsame]

namespace Schedule

variable {q q' q'' : Schedule} {package : String} {e : ScheduleEntry}

/-- There is one entry per package at most. -/
def Single (q : Schedule) : Prop := (q.entries.map (·.package)).Nodup

theorem Single.get?_eq_some_iff (h : q.Single) :
    q.get? package = some e ↔ e ∈ q.entries ∧ e.package = package :=
  find?_name_eq_some_iff h

theorem Single.mem_dequeue (h : q.Single) :
    e ∈ (q.dequeue package).entries ↔ e ∈ q.entries ∧ e.package ≠ package := by
  rw [dequeue, eraseP_package h]
  simp

theorem Single.dequeue (h : q.Single) (package : String) : (q.dequeue package).Single :=
  List.Nodup.sublist (List.eraseP_sublist.map _) h

/-- The entry of a package stands beside the entries of the others. -/
theorem enqueue_perm (q : Schedule) (package : String) (lastBackup : Int) :
    (q.enqueue package lastBackup).entries.Perm
      (q.entryFor package lastBackup :: (q.dequeue package).entries) := by
  unfold enqueue
  simp only
  split
  · exact .refl _
  · exact insertOrdered_perm _ _

theorem defer_perm (q : Schedule) (package : String) (lastBackup dueAt : Int) :
    (q.defer package lastBackup dueAt).entries.Perm
      (⟨package, lastBackup, dueAt⟩ :: (q.dequeue package).entries) :=
  insertOrdered_perm _ _

theorem Single.of_perm (h : q.Single)
    (hperm : q'.entries.Perm (e :: (q.dequeue e.package).entries)) : q'.Single := by
  have hpackages := hperm.map ScheduleEntry.package
  refine hpackages.nodup_iff.2 (List.nodup_cons.2 ⟨fun hmem => ?_, h.dequeue _⟩)
  obtain ⟨other, hother, hsame⟩ := List.mem_map.1 hmem
  exact (h.mem_dequeue.1 hother).2 hsame

theorem Single.enqueue (h : q.Single) (package : String) (lastBackup : Int) :
    (q.enqueue package lastBackup).Single :=
  h.of_perm (e := q.entryFor package lastBackup) (q.enqueue_perm package lastBackup)

theorem Single.defer (h : q.Single) (package : String) (lastBackup dueAt : Int) :
    (q.defer package lastBackup dueAt).Single :=
  h.of_perm (e := ⟨package, lastBackup, dueAt⟩) (q.defer_perm package lastBackup dueAt)

theorem Single.mem_enqueue (h : q.Single) {lastBackup : Int} :
    e ∈ (q.enqueue package lastBackup).entries ↔
      e = q.entryFor package lastBackup ∨ (e ∈ q.entries ∧ e.package ≠ package) := by
  rw [(q.enqueue_perm package lastBackup).mem_iff, List.mem_cons, h.mem_dequeue]

theorem Single.mem_defer (h : q.Single) {lastBackup dueAt : Int} :
    e ∈ (q.defer package lastBackup dueAt).entries ↔
      e = ⟨package, lastBackup, dueAt⟩ ∨ (e ∈ q.entries ∧ e.package ≠ package) := by
  rw [(q.defer_perm package lastBackup dueAt).mem_iff, List.mem_cons, h.mem_dequeue]

/-- The installed package of a name, if it gets full backups. -/
def IsCandidate (catalog : List Package) (name : String) (p : Package) : Prop :=
  catalog.find? (·.name == name) = some p ∧ p.getsFullBackup = true

/-- Only packages that get no full backup were dropped, and no last backup was changed. -/
structure Sifted (catalog : List Package) (q q' : Schedule) : Prop where
  single : q'.Single
  kept : ∀ e ∈ q.entries, ∀ p, IsCandidate catalog e.package p →
    ∃ e' ∈ q'.entries, e'.package = e.package
  old : ∀ e' ∈ q'.entries, ∃ e ∈ q.entries, e.package = e'.package ∧ e.lastBackup = e'.lastBackup

namespace Sifted

variable {catalog : List Package}

theorem refl (h : q.Single) : Sifted catalog q q :=
  ⟨h, fun e he _ _ => ⟨e, he, rfl⟩, fun e he => ⟨e, he, rfl, rfl⟩⟩

theorem trans (h : Sifted catalog q q') (h' : Sifted catalog q' q'') : Sifted catalog q q'' where
  single := h'.single
  kept e he p hp := by
    obtain ⟨e', he', hsame⟩ := h.kept e he p hp
    obtain ⟨e'', he'', hsame'⟩ := h'.kept e' he' p (hsame ▸ hp)
    exact ⟨e'', he'', hsame'.trans hsame⟩
  old e'' he'' := by
    obtain ⟨e', he', hpackage', hlast'⟩ := h'.old e'' he''
    obtain ⟨e, he, hpackage, hlast⟩ := h.old e' he'
    exact ⟨e, he, hpackage.trans hpackage', hlast.trans hlast'⟩

/-- A package that gets no full backup is dropped. -/
theorem dequeue (h : q.Single) (hgone : ∀ p, ¬ IsCandidate catalog package p) :
    Sifted catalog q (q.dequeue package) where
  single := h.dequeue package
  kept e he p hp := by
    refine ⟨e, h.mem_dequeue.2 ⟨he, ?_⟩, rfl⟩
    rintro rfl
    exact hgone p hp
  old e he := ⟨e, (h.mem_dequeue.1 he).1, rfl, rfl⟩

/-- A package is put off. -/
theorem defer (h : q.Single) (he : e ∈ q.entries) (dueAt : Int) :
    Sifted catalog q (q.defer e.package e.lastBackup dueAt) where
  single := h.defer e.package e.lastBackup dueAt
  kept other hother p _ := by
    by_cases hsame : other.package = e.package
    · exact ⟨⟨e.package, e.lastBackup, dueAt⟩, h.mem_defer.2 (.inl rfl), hsame.symm⟩
    · exact ⟨other, h.mem_defer.2 (.inr ⟨hother, hsame⟩), rfl⟩
  old other hother := by
    rcases h.mem_defer.1 hother with rfl | ⟨hmem, -⟩
    · exact ⟨e, he, rfl, rfl⟩
    · exact ⟨other, hmem, rfl, rfl⟩

/-- A package that was taken out is put back. -/
theorem putBack (h : Sifted catalog q q') (he : e ∈ q'.entries) (dueAt : Int) :
    Sifted catalog q ((q'.dequeue e.package).defer e.package e.lastBackup dueAt) := by
  have hsame : ((q'.dequeue e.package).defer e.package e.lastBackup dueAt).entries.Perm
      (q'.defer e.package e.lastBackup dueAt).entries := by
    have htwice : ((q'.dequeue e.package).dequeue e.package).entries =
        (q'.dequeue e.package).entries := by
      have hsingle := h.single.dequeue e.package
      rw [Schedule.dequeue, eraseP_package hsingle]
      exact List.filter_eq_self.2 fun other hother => by
        simpa using (h.single.mem_dequeue.1 hother).2
    refine (defer_perm _ _ _ _).trans ?_
    rw [htwice]
    exact (defer_perm _ _ _ _).symm
  have hdefer := h.trans (Sifted.defer h.single he dueAt)
  refine ⟨(h.single.dequeue _).defer _ _ _, fun other hother p hp => ?_, fun other hother => ?_⟩
  · obtain ⟨e', he', hpackage⟩ := hdefer.kept other hother p hp
    exact ⟨e', hsame.mem_iff.2 he', hpackage⟩
  · exact hdefer.old other (hsame.mem_iff.1 hother)

end Sifted

end Schedule

open Schedule

/-- What a choice does to a schedule: it sifts it, and takes the chosen entry out. -/
inductive Selected.Sifts (catalog : List Package) (q : Schedule) (chosen : Selected) : Prop where
  | waits {delay : Option Nat} : chosen.selection = .wait delay →
    Schedule.Sifted catalog q chosen.schedule → Sifts catalog q chosen
  | runs {entry : ScheduleEntry} {p : Package} {q' : Schedule} :
    chosen.selection = .run entry p → chosen.changed = true → Schedule.Sifted catalog q q' →
    entry ∈ q'.entries → IsCandidate catalog entry.package p →
    chosen.schedule = q'.dequeue entry.package → Sifts catalog q chosen

theorem Selected.Sifts.after {catalog : List Package} {q q' : Schedule} {chosen : Selected}
    (hsift : Schedule.Sifted catalog q q') (h : chosen.Sifts catalog q') :
    chosen.Sifts catalog q := by
  cases h with
  | waits hwait hsifted => exact .waits hwait (hsift.trans hsifted)
  | runs hrun hchanged hsifted hmem hcandidate hschedule =>
    exact .runs hrun hchanged (hsift.trans hsifted) hmem hcandidate hschedule

/-- Every entry that the choice meets is dropped, put off or chosen. -/
theorem selectFull_sifts (ctx : SelectionContext) {q : Schedule} (hq : q.Single)
    (device : Device) (changed : Bool) (fuel : Nat) :
    (selectFull ctx q device changed fuel).Sifts device.catalog q := by
  induction fuel generalizing q device changed with
  | zero => exact .waits rfl (.refl hq)
  | succ fuel ih =>
    unfold selectFull
    split
    · exact .waits rfl (.refl hq)
    · rename_i head hhead
      have hmem : head ∈ q.entries := List.mem_of_mem_head? hhead
      split
      · exact .waits rfl (.refl hq)
      · split
        · exact .waits rfl (.refl hq)
        · split
          · rename_i hgone
            have hnone : ∀ p, ¬ IsCandidate device.catalog head.package p := by
              rintro p ⟨hfind, -⟩
              exact absurd (hgone.symm.trans hfind) (Option.some_ne_none p).symm
            exact (ih (hq.dequeue _) _ _).after (.dequeue hq hnone)
          · rename_i p hfind
            split
            · rename_i hplain
              have hnone : ∀ p, ¬ IsCandidate device.catalog head.package p := by
                rintro other ⟨hother, hgets⟩
                cases hfind.symm.trans hother
                simp [hgets] at hplain
              exact (ih (hq.dequeue _) _ _).after (.dequeue hq hnone)
            · rename_i hgets
              have hgets : p.getsFullBackup = true := by simpa using hgets
              split
              · simp only [Device.draw_eq]
                exact (ih (hq.defer _ _ _)
                  { device with chance := Device.undrawn ctx.settings.busyFuzz device.chance }
                  true).after (.defer hq hmem _)
              · exact .runs rfl rfl (.refl hq) hmem ⟨hfind, hgets⟩ rfl

/-- The choice draws random numbers from the device, and it draws none without a change. -/
theorem selectFull_device (ctx : SelectionContext) (q : Schedule) (device : Device)
    (changed : Bool) (fuel : Nat) :
    ∃ chance, (selectFull ctx q device changed fuel).device = { device with chance } := by
  induction fuel generalizing q device changed with
  | zero => exact ⟨device.chance, rfl⟩
  | succ fuel ih =>
    have hsame : ∃ chance, device = { device with chance } := ⟨device.chance, rfl⟩
    unfold selectFull
    split
    · exact hsame
    · split
      · exact hsame
      · split
        · exact hsame
        · split
          · exact ih _ _ _
          · split
            · exact ih _ _ _
            · split
              · simp only [Device.draw_eq]
                obtain ⟨chance, heq⟩ := ih (q.defer _ _ _)
                  { device with chance := Device.undrawn ctx.settings.busyFuzz device.chance } true
                exact ⟨chance, heq⟩
              · exact hsame

/-- A choice that changes nothing leaves the schedule and the device alone. -/
theorem selectFull_unchanged {ctx : SelectionContext} {q : Schedule} {device : Device}
    {changed : Bool} {fuel : Nat}
    (h : (selectFull ctx q device changed fuel).changed = false) :
    changed = false ∧ (selectFull ctx q device changed fuel).schedule = q ∧
      (selectFull ctx q device changed fuel).device = device := by
  induction fuel generalizing q device changed with
  | zero => exact ⟨h, rfl, rfl⟩
  | succ fuel ih =>
    have hdone : ∀ q device, (selectFull ctx q device true fuel).changed ≠ false :=
      fun q device hnot => absurd (ih hnot).1 nofun
    unfold selectFull at h ⊢
    split
    · simp_all
    · rename_i head hhead
      simp only [hhead] at h
      split
      · simp_all
      · rename_i hready
        rw [if_neg hready] at h
        split
        · simp_all
        · rename_i hdue
          rw [if_neg hdue] at h
          exfalso
          split at h
          · exact hdone _ _ h
          · split at h
            · exact hdone _ _ h
            · split at h
              · exact hdone _ _ h
              · cases h

namespace System

/-- What the full-backup job does to the agenda. -/
inductive BeginsFull (s : System) : FullOutcome → Agenda → Prop where
  | nothing {outcome : FullOutcome} : outcome.isDispatched = false →
    BeginsFull s outcome s.agenda
  /-- The schedule was sifted, but nothing is started. -/
  | sifts {outcome : FullOutcome} {q : Schedule} {chance : List Nat} :
    outcome.isDispatched = false →
    Sifted s.agenda.catalog s.agenda.schedule q →
    BeginsFull s outcome (({ s.agenda with chance } : Agenda).reschedule q)
  | starts {entry : ScheduleEntry} {p : Package} {q : Schedule} {chance : List Nat}
      {token : OpToken} :
    s.agenda.running = none → Sifted s.agenda.catalog s.agenda.schedule q → entry ∈ q.entries →
    IsCandidate s.agenda.catalog entry.package p →
    BeginsFull s (.dispatched entry.package)
      ((({ s.agenda with
          schedule := q.dequeue entry.package, chance, running := some (token, entry.package) } :
            Agenda).enter s.engine.nextNumber
              (.full p entry.lastBackup (some token) .opening)).request)

variable {s : System}

theorem startFull_agenda (s : System) (lease : Lease) (entry : ScheduleEntry) (p : Package) :
    ∃ token, (s.startFull lease entry p).agenda =
      ({ s.agenda with running := some (token, entry.package) } : Agenda).enter
        s.engine.nextNumber (.full p entry.lastBackup (some token) .opening) := by
  refine ⟨s.freshToken.1, ?_⟩
  simp only [startFull, spawn_agenda]
  show ({ s.freshToken.2.agenda with running := some (s.freshToken.1, entry.package) } :
    Agenda).enter s.engine.nextNumber _ = _
  rw [freshToken_agenda]
  rfl

/-- The choice sifts the schedule of the engine. -/
theorem selectNext_cases (hq : s.agenda.schedule.Single) {selection : Selection} {changed : Bool}
    {s' : System} (h : s.selectNext = (selection, changed, s')) :
    ∃ q chance, s'.agenda = { s.agenda with schedule := q, chance } ∧
      (changed = false → s'.agenda = s.agenda) ∧ s'.engine.nextNumber = s.engine.nextNumber ∧
      (⟨selection, q, changed, s'.device⟩ : Selected).Sifts s.agenda.catalog s.agenda.schedule := by
  have hsifts := selectFull_sifts ⟨s.now, s.transportReady, s.engine.settings⟩ hq s.device
    false (s.engine.schedule.entries.length + 1)
  have hunchanged := @selectFull_unchanged ⟨s.now, s.transportReady, s.engine.settings⟩
    s.engine.schedule s.device false (s.engine.schedule.entries.length + 1)
  obtain ⟨chance, hdevice⟩ := selectFull_device ⟨s.now, s.transportReady, s.engine.settings⟩
    s.engine.schedule s.device false (s.engine.schedule.entries.length + 1)
  have hschedule : s.agenda.schedule = s.engine.schedule := rfl
  simp only [selectNext] at h
  rw [hschedule] at hsifts ⊢
  generalize selectFull _ _ _ _ _ = chosen at h hsifts hunchanged hdevice
  obtain ⟨_, q, _, device⟩ := chosen
  cases h
  refine ⟨q, chance, ?_, fun hsame => ?_, rfl, hsifts⟩
  · simp only at hdevice
    simp only [hdevice]
    rfl
  · obtain ⟨-, hq', hdevice'⟩ := hunchanged hsame
    simp only at hq' hdevice'
    simp only [hq', hdevice']
    rfl

/-- What a choice and the start of what was chosen do to the agenda, before the schedule is
written. -/
theorem dispatchFull_cases (hq : s.agenda.schedule.Single) (hidle : s.agenda.running = none)
    {outcome : FullOutcome} {changed : Bool} {s' : System}
    (h : s.dispatchFull = (outcome, changed, s')) :
    s.BeginsFull outcome (if changed then s'.agenda.request else s'.agenda) := by
  unfold dispatchFull at h
  generalize hnext : s.selectNext = selected at h
  obtain ⟨selection, changed', s₁⟩ := selected
  obtain ⟨q, chance, hagenda, hunchanged, hnumber, hsifts⟩ := selectNext_cases hq hnext
  -- nothing is chosen
  have hwaits : ∀ delay : Option Nat, selection = .wait delay → outcome.isDispatched = false →
      changed = changed' → s' = s₁ →
      s.BeginsFull outcome (if changed then s'.agenda.request else s'.agenda) := by
    rintro delay rfl hnone rfl rfl
    cases hsifts with
    | runs hrun _ _ _ _ _ => cases hrun
    | waits _ hsifted =>
      cases changed with
      | false =>
        rw [if_neg nofun, hunchanged rfl]
        exact .nothing hnone
      | true =>
        rw [if_pos rfl, hagenda]
        exact @BeginsFull.sifts s outcome q chance hnone hsifted
  split at h
  · rename_i heq
    cases heq
    cases h
    exact hwaits none rfl rfl rfl rfl
  · rename_i delay _ _ heq
    cases heq
    cases h
    exact hwaits (some delay) rfl rfl rfl rfl
  · rename_i entry p _ _ heq
    cases heq
    cases hsifts with
    | waits hwait _ => cases hwait
    | @runs entry' p' q' hrun _ hsifted hmem hcandidate hschedule =>
      cases hrun
      rcases s₁.engine.transports.leaseCurrent_cases "full-backup" with
        ⟨-, hnone⟩ | ⟨name, -, -, hsome⟩
      · rw [hnone] at h
        cases h
        rw [if_pos rfl]
        have hback := hsifted.putBack hmem entry.dueAt
        have hput : (s₁.onEngine fun e => { e with
            schedule := e.schedule.defer entry.package entry.lastBackup entry.dueAt }).agenda =
              { s.agenda with
                schedule := (q'.dequeue entry.package).defer entry.package entry.lastBackup
                  entry.dueAt
                chance } := by
          have hq₁ : s₁.engine.schedule = q'.dequeue entry.package :=
            (congrArg Agenda.schedule hagenda).trans hschedule
          show ({ s₁.agenda with
            schedule := s₁.engine.schedule.defer entry.package entry.lastBackup entry.dueAt } :
              Agenda) = _
          rw [hagenda, hq₁]
        rw [hput]
        exact @BeginsFull.sifts s _ _ chance rfl hback
      · rw [hsome] at h
        cases h
        rw [if_pos rfl]
        obtain ⟨token, hstart⟩ := startFull_agenda (s₁.lend name "full-backup")
          (s₁.engine.transports.nextLeaseOf name "full-backup") entry p
        have hsame : (s₁.lend name "full-backup").engine.nextNumber = s.engine.nextNumber := hnumber
        show s.BeginsFull _ ((s₁.lend name "full-backup").startFull
          (s₁.engine.transports.nextLeaseOf name "full-backup") entry p).agenda.request
        rw [hstart, lend_agenda, hagenda, hsame]
        simp only at hschedule
        rw [hschedule]
        exact .starts hidle hsifted hmem hcandidate

/-- **What the full-backup job does to the agenda.** -/
theorem beginFull_cases (hq : s.agenda.schedule.Single) :
    s.BeginsFull s.beginFull.1 s.beginFull.2.agenda := by
  unfold beginFull
  split
  · exact .nothing rfl
  · split
    · rw [note_agenda _ rfl]
      exact .nothing rfl
    · split
      · exact .nothing rfl
      · rename_i hidle
        have hidle : s.engine.runningFull = none := by simpa using hidle
        generalize hdispatch : s.dispatchFull = answer
        obtain ⟨outcome, changed, s'⟩ := answer
        have hcases := dispatchFull_cases hq hidle hdispatch
        have hrearm : ∀ s' : System, (s'.rearmFull outcome).agenda = s'.agenda := by
          intro s'
          cases outcome <;> rfl
        simp only [hrearm]
        cases changed with
        | false => exact hcases
        | true =>
          rw [if_pos rfl, requestScheduleWrite_agenda]
          exact hcases

end System

end Holdfast
