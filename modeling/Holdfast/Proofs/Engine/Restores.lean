import Holdfast.Proofs.Engine.Line

/-!
# Restores in turn

Restores from sessions and from the installer share one line. A restore is submitted by a call,
processed by the loop, begun as a task, and ended. Between these stations it is queued, waits, or
runs.

- `World.submits`, `World.processes`, `World.begins`, `World.ends`: what an event does to restores,
  as can be seen from outside;
- `Desk.InTurn`: **one restore at a time**, the flag being handed over from one to the next;
- `Desk.Flow`: at each station what was there and came in is what went out and is there now;
- `World.restores_in_turn`: what follows for every run without a shutdown, with what the installer
  hears and which dataset is the ancestral one.
-/

namespace Holdfast

/-- Whether an event is the call that restores a whole dataset. -/
def Event.isRestoreAll : Event → Bool
  | .call (.restoreAll _ _ _) => true
  | _ => false

instance (s : System) (package : String) : Decidable (s.SkipsInstall package) :=
  inferInstanceAs (Decidable (_ ∨ _ ∨ _ ∨ _))

namespace World

/-! ## What can be seen of restores -/

/-- The restores that run, by the numbers of their tasks. -/
def restores (w : World) : List (Nat × RestoreOrder) := w.system.desk.running

/-- The restores that are queued for the loop. -/
def queuedRestores (w : World) : List RestoreOrder :=
  w.system.engine.inbox.filterMap Command.restore?

/-- The restores that an event adds to the queue. -/
def submits (w : World) (event : Event) : List RestoreOrder :=
  (w.happen event).queuedRestores.drop
    ((w.kept (.event event)).filterMap Command.restore?).length

/-- The restores that the loop takes from the queue. -/
def processes (w : World) : Event → List RestoreOrder
  | .command => (w.system.engine.inbox.head?.bind Command.restore?).toList
  | _ => []

/-- The restores whose tasks are new. -/
def begins (w : World) (event : Event) : List (Nat × RestoreOrder) :=
  (w.happen event).restores.filter fun entry => w.system.engine.nextNumber ≤ entry.1

/-- The restores whose tasks are gone. -/
def ends (w : World) (event : Event) : List (Nat × RestoreOrder) :=
  w.restores.filter fun entry => entry.1 ∉ (w.happen event).restores.map (·.1)

/-- What the installer was told so far, oldest first. -/
def told (w : World) : List (Int × Bool) := w.system.desk.installed

/-- The installation after which nothing is restored. -/
def skips (w : World) : Event → List Int
  | .call (.restoreAtInstall caller package token) =>
    if caller.privileged ∧ w.system.SkipsInstall package then [token] else []
  | _ => []

/-- The installation after which the package is restored. -/
def launches (w : World) : Event → List Int
  | .call (.restoreAtInstall caller package token) =>
    if caller.privileged ∧ ¬ w.system.SkipsInstall package then [token] else []
  | _ => []

/-- The ancestral dataset and the packages that it holds. -/
def ancestry (w : World) : UInt64 × Option NameSet :=
  (w.system.engine.datasets.ancestral, w.system.engine.datasets.packages)

/-- What can be seen along a run. -/
def along {α : Type} (observe : World → Event → List α) (w : World) : List Event → List α
  | [] => []
  | event :: events => observe w event ++ (w.happen event).along observe events

end World

namespace World

variable {w : World} {event : Event} {d : Desk}

/-! ## What an event does to restores -/

/-- What an event did to restores, when the desk is as given after it. -/
structure Shift (w : World) (event : Event) (d : Desk) (submitted : List RestoreOrder)
    (begun ended : List (Nat × RestoreOrder)) : Prop where
  inTurn : d.InTurn
  flow : w.system.desk.Flow d submitted (w.processes event) begun ended
  told : d.installed = w.told ++ (w.skips event).map (fun token => (token, false)) ++
    (ended.filterMap (·.2.installToken)).map (fun token => (token, true))
  launched : submitted.filterMap (·.installToken) = w.launches event
  whole : ∀ order ∈ submitted, order.recordAncestral = event.isRestoreAll
  ended : ended.map (·.2) = (w.ending? event).toList.map (·.1)
  ancestry : (d.ancestral, d.ancestralPackages) =
    match w.ending? event with
    | some (order, started) =>
      if started && order.recordAncestral then
        (order.token, some (NameSet.ofList order.packages))
      else w.ancestry
    | none => w.ancestry

/-- An event in which no restore comes or ends. -/
theorem Shift.of_line {begun : List (Nat × RestoreOrder)} (hturn : d.InTurn)
    (hflow : w.system.desk.Flow d [] (w.processes event) begun [])
    (hlaunches : w.launches event = []) (hending : w.ending? event = none)
    (htold : d.installed = w.told ++ (w.skips event).map (fun token => (token, false)))
    (hancestry : (d.ancestral, d.ancestralPackages) = w.ancestry) :
    w.Shift event d [] begun [] where
  inTurn := hturn
  flow := hflow
  told := by rw [htold, List.filterMap_nil, List.map_nil, List.append_nil]
  launched := hlaunches.symm
  whole := nofun
  ended := by rw [hending]; rfl
  ancestry := by rw [hending]; exact hancestry

/-- An event that does nothing to the line of restores. -/
theorem Shift.of_aside (hd : w.system.desk.InTurn) (haside : w.system.desk.Aside d)
    (hprocesses : w.processes event = []) (hlaunches : w.launches event = [])
    (hending : w.ending? event = none)
    (htold : d.installed = w.told ++ (w.skips event).map (fun token => (token, false)))
    (hancestry : (d.ancestral, d.ancestralPackages) = w.ancestry) :
    w.Shift event d [] [] [] :=
  .of_line (haside.inTurn hd) (hprocesses ▸ haside.flow) hlaunches hending htold hancestry

/-- An event that changes timers, the session or numbers. -/
theorem Shift.of_timed (hd : w.system.desk.InTurn) (htimed : w.system.desk.Timed d)
    (hprocesses : w.processes event = []) (hlaunches : w.launches event = [])
    (hskips : w.skips event = []) (hending : w.ending? event = none) :
    w.Shift event d [] [] [] := by
  refine .of_aside hd htimed.aside hprocesses hlaunches hending ?_ ?_
  · obtain ⟨_, _, _, -, rfl⟩ := htimed
    rw [hskips]
    exact (List.append_nil _).symm
  · obtain ⟨_, _, _, -, rfl⟩ := htimed
    rfl

/-- What passes the desk by is nothing to restores. -/
theorem calm_observed (hminor : ¬ w.Concerns (.event event)) :
    w.processes event = [] ∧ w.launches event = [] ∧ w.skips event = [] ∧
      w.ending? event = none := by
  cases event with
  | command =>
    refine ⟨?_, rfl, rfl, rfl⟩
    cases hinbox : w.system.engine.inbox with
    | nil => simp [processes, hinbox]
    | cons command rest =>
      have hquiet : command.isQuiet = true := by simpa [Concerns, hinbox] using hminor
      simp only [processes, hinbox, List.head?_cons, Option.bind_some]
      cases command with
      | startRestore order => cases hquiet
      | _ => rfl
  | task number => exact ⟨rfl, rfl, rfl, by simpa [Concerns] using hminor⟩
  | call c =>
    cases c with
    | restoreAtInstall caller package token =>
      have hcaller : caller.privileged = false := by simpa [Concerns] using hminor
      exact ⟨rfl, by simp [launches, hcaller], by simp [skips, hcaller], rfl⟩
    | _ => exact ⟨rfl, rfl, rfl, rfl⟩
  | _ => exact ⟨rfl, rfl, rfl, rfl⟩

/-- A command of the loop. -/
theorem take_shift {command : Command} {rest : List Command}
    (hinbox : w.system.engine.inbox = command :: rest) (hmatter : command.isQuiet = false)
    (hd : w.system.desk.InTurn) :
    ∃ begun, w.Shift .command (w.system.desk.take command) [] begun [] := by
  have hmail := mail_cons hinbox hmatter
  have hprocesses : w.processes .command = command.restore?.toList := by
    simp [processes, hinbox]
  have hline : ∀ {begun}, (w.system.desk.take command).InTurn →
      w.system.desk.Flow (w.system.desk.take command) [] command.restore?.toList begun [] →
      ∃ begun, w.Shift .command (w.system.desk.take command) [] begun [] := by
    intro begun hturn hflow
    obtain ⟨htold, hancestry⟩ := Prod.mk.inj (w.system.desk.take_records command)
    refine ⟨begun, .of_line hturn (hprocesses ▸ hflow) rfl rfl ?_ hancestry⟩
    rw [htold]
    exact (List.append_nil _).symm
  cases command with
  | startRestore order =>
    obtain ⟨hturn, begun, hflow⟩ := hd.start hmail
    exact hline hturn hflow
  | restoreFinished session =>
    obtain ⟨hturn, begun, hflow⟩ := hd.finished hmail
    exact hline hturn hflow
  | sessionTimeout session =>
    have haside := Desk.timeout_aside hmail
    exact hline (haside.inTurn hd) haside.flow
  | shutdown => exact absurd (hmail ▸ List.mem_cons_self) hd.lasting
  | _ => cases hmatter

/-- A call that hands a restore to the loop. -/
theorem submit_shift {c : Call} {order : RestoreOrder} (hsubmits : c.Submits w.system order)
    (hd : w.system.desk.InTurn) :
    w.Shift (.call c) (w.system.desk.post (.startRestore order)) [order] [] [] := by
  obtain ⟨hturn, hflow⟩ := hd.submit order
  have hpost : w.system.desk.post (.startRestore order) =
      { w.system.desk with mail := w.system.desk.mail ++ [.startRestore order] } := by
    rw [Desk.post, if_pos hd.looping]
    rfl
  refine ⟨hturn, hflow, ?_, ?_, ?_, rfl, ?_⟩
  · rw [hpost]
    cases hsubmits with
    | one _ _ => simp [told, skips]
    | all _ _ => simp [told, skips]
    | install _ _ hgo => simp [told, skips, hgo]
  · cases hsubmits with
    | one _ _ => rfl
    | all _ _ => rfl
    | install hprivileged _ hgo => simp [launches, hprivileged, hgo]
  · intro other hother
    rw [List.mem_singleton.1 hother]
    cases hsubmits <;> rfl
  · rw [hpost]
    rfl

theorem Matter.shift (hmatter : w.Matter (.event event) d) (htended : w.system.desk.Tended)
    (hd : w.system.desk.InTurn) :
    ∃ submitted begun ended, w.Shift event d submitted begun ended := by
  cases hmatter with
  | calm hminor =>
    obtain ⟨hprocesses, hlaunches, hskips, hending⟩ := calm_observed hminor
    exact ⟨[], [], [], .of_timed hd .refl hprocesses hlaunches hskips hending⟩
  | tick =>
    exact ⟨[], [], [], .of_aside hd ⟨rfl, id, rfl, rfl, rfl, rfl, rfl⟩ rfl rfl rfl
      (List.append_nil _).symm rfl⟩
  | ring =>
    exact ⟨[], [], [], .of_aside hd htended.ring_aside rfl rfl rfl (List.append_nil _).symm rfl⟩
  | opens _ _ _ =>
    exact ⟨[], [], [], .of_timed hd (Desk.opens_timed _) rfl rfl rfl rfl⟩
  | renew _ => exact ⟨[], [], [], .of_timed hd (Desk.arm_timed _ _) rfl rfl rfl rfl⟩
  | close session => exact ⟨[], [], [], .of_timed hd (Desk.close_timed _ _) rfl rfl rfl rfl⟩
  | take hinbox hmatter =>
    obtain ⟨begun, hshift⟩ := take_shift hinbox hmatter hd
    exact ⟨[], begun, [], hshift⟩
  | submit hsubmits => exact ⟨_, [], [], submit_shift hsubmits hd⟩
  | skip hprivileged hskip =>
    rename_i caller package token
    have hskips : w.system.SkipsInstall package := by
      rcases hskip with hskip | hstopped
      · exact hskip
      · cases hstopped.symm.trans hd.looping
    refine ⟨[], [], [], .of_aside hd ⟨rfl, id, rfl, rfl, rfl, rfl, rfl⟩ rfl ?_ rfl ?_ rfl⟩
    · simp [launches, hskips]
    · simp [skips, hprivileged, hskips, Desk.tell, told]
  | finish hend =>
    rename_i number order started
    obtain ⟨hturn, hflow⟩ := hd.finish started (ending_mem hend)
    refine ⟨[], [], [(number, order)], hturn, hflow, ?_, rfl,
      fun _ hnone => absurd hnone List.not_mem_nil, ?_, ?_⟩
    · rw [Desk.finish_eq]
      cases htoken : order.installToken <;> simp [told, skips, htoken]
    · rw [hend]
      rfl
    · rw [hend, Desk.finish_eq]
      simp only [Desk.remember]
      split <;> rfl

theorem Shift.renumber {submitted : List RestoreOrder} {begun ended : List (Nat × RestoreOrder)}
    (h : w.Shift event d submitted begun ended) (nextNumber : Nat) :
    w.Shift event { d with nextNumber } submitted begun ended where
  inTurn := ⟨h.inTurn.looping, h.inTurn.lasting, h.inTurn.single, h.inTurn.line⟩
  flow := ⟨h.flow.queue, h.flow.line, h.flow.tasks, h.flow.fresh⟩
  told := h.told
  launched := h.launched
  whole := h.whole
  ended := h.ended
  ancestry := h.ancestry

/-- What is queued is taken or kept. -/
theorem queuedRestores_eq (w : World) (event : Event) :
    w.queuedRestores =
      w.processes event ++ (w.kept (.event event)).filterMap Command.restore? := by
  cases event with
  | command =>
    show w.system.engine.inbox.filterMap _ =
      (w.system.engine.inbox.head?.bind Command.restore?).toList ++
        w.system.engine.inbox.tail.filterMap _
    cases w.system.engine.inbox with
    | nil => rfl
    | cons command rest =>
      cases hrestore : command.restore? <;> simp [hrestore]
  | _ => rfl

theorem queued_eq (w : World) : w.system.desk.queued = w.queuedRestores := by
  show (w.system.engine.inbox.filter _).filterMap _ = _
  rw [List.filterMap_filter]
  refine List.filterMap_congr fun command _ => ?_
  cases command <;> rfl

theorem running_nodup (hs : w.system.Numbered) : (w.restores.map (·.1)).Nodup := by
  refine hs.nodup.sublist ?_
  show List.Sublist ((System.restoresOf w.system.entries).map (·.1)) (w.system.entries.map (·.1))
  induction w.system.entries with
  | nil => exact List.Sublist.refl _
  | cons entry rest ih =>
    obtain ⟨number, order⟩ := entry
    cases order with
    | none => exact ih.cons _
    | some order => exact ih.cons_cons _

theorem running_below (hs : w.system.Numbered) {entry : Nat × RestoreOrder}
    (hmem : entry ∈ w.restores) : entry.1 < w.system.engine.nextNumber := by
  obtain ⟨⟨number, order⟩, hentry, heq⟩ := List.mem_filterMap.1 hmem
  obtain ⟨order, rfl, rfl⟩ := Option.map_eq_some_iff.1 heq
  exact hs.below _ hentry

/-- What can be seen of an event is what it did. -/
theorem Shift.observed {submitted : List RestoreOrder} {begun ended : List (Nat × RestoreOrder)}
    (h : w.Shift event (w.happen event).system.desk submitted begun ended)
    (hs : w.system.Numbered) :
    w.submits event = submitted ∧ w.begins event = begun ∧ w.ends event = ended := by
  obtain ⟨rest, hbefore, hafter⟩ := h.flow.tasks
  -- restores that ran before have old numbers, and those that begin have new ones
  have hold : ∀ entry ∈ ended ++ rest, entry.1 < w.system.engine.nextNumber :=
    fun entry hmem => running_below hs (show entry ∈ w.system.desk.running from hbefore ▸ hmem)
  have hnew : ∀ entry ∈ begun, w.system.engine.nextNumber ≤ entry.1 := h.flow.fresh
  have hnodup : ((ended ++ rest).map (·.1)).Nodup := hbefore ▸ running_nodup hs
  refine ⟨?_, ?_, ?_⟩
  · have hqueue := h.flow.queue
    rw [queued_eq, queued_eq, queuedRestores_eq w event, List.append_assoc] at hqueue
    rw [submits, ← List.append_cancel_left hqueue, List.drop_left]
  · show (w.happen event).system.desk.running.filter _ = begun
    rw [hafter, List.filter_append]
    have hnone : rest.filter (fun entry => w.system.engine.nextNumber ≤ entry.1) = [] := by
      refine List.filter_eq_nil_iff.2 fun entry hmem => ?_
      have hbelow := hold entry (List.mem_append_right _ hmem)
      simpa using hbelow
    have hall : begun.filter (fun entry => w.system.engine.nextNumber ≤ entry.1) = begun :=
      List.filter_eq_self.2 fun entry hmem => by simpa using hnew entry hmem
    rw [hnone, hall, List.nil_append]
  · show w.system.desk.running.filter
      (fun entry => entry.1 ∉ (w.happen event).system.desk.running.map (·.1)) = ended
    rw [hbefore, hafter, List.filter_append]
    have hnone : rest.filter (fun entry => entry.1 ∉ (rest ++ begun).map (·.1)) = [] := by
      refine List.filter_eq_nil_iff.2 fun entry hmem => ?_
      have hkept : entry.1 ∈ (rest ++ begun).map (·.1) :=
        List.mem_map_of_mem (List.mem_append_left _ hmem)
      exact fun hgone => of_decide_eq_true hgone hkept
    have hall : ended.filter (fun entry => entry.1 ∉ (rest ++ begun).map (·.1)) = ended := by
      refine List.filter_eq_self.2 fun entry hmem => ?_
      have hgone : entry.1 ∉ (rest ++ begun).map (·.1) := by
        rw [List.map_append, List.mem_append]
        rintro (hrest | hbegun)
        · rw [List.map_append] at hnodup
          exact (List.disjoint_of_nodup_append hnodup) (List.mem_map_of_mem hmem) hrest
        · obtain ⟨other, hother, hnumber⟩ := List.mem_map.1 hbegun
          have hbelow := hold entry (List.mem_append_left _ hmem)
          have habove := hnew other hother
          omega
      exact decide_eq_true hgone
    rw [hnone, hall, List.append_nil]

/-- Restores are in turn, and the numbers and alarms are in order. -/
structure Regular (w : World) : Prop where
  numbered : w.system.Numbered
  tended : w.system.desk.Tended
  inTurn : w.system.desk.InTurn

/-- **What an event does to restores.** -/
theorem happen_shift (h : w.Regular) (event : Event) :
    (w.happen event).Regular ∧
      w.Shift event (w.happen event).system.desk (w.submits event) (w.begins event)
        (w.ends event) := by
  obtain ⟨d, hmatter, hshows⟩ := meet_matter h.numbered (.event event)
  obtain ⟨submitted, begun, ended, hshift⟩ := hmatter.shift h.tended h.inTurn
  have hrunning : (w.happen event).system.desk.running = d.running := by
    have hone := hshift.inTurn.running_le_one
    have hperm := hshows.running
    cases hlist : d.running with
    | nil => exact (hlist ▸ hperm).eq_nil
    | cons entry rest =>
      rw [hlist] at hone hperm
      have hrest : rest = [] := List.length_eq_zero_iff.1 (by simpa using hone)
      rw [hrest] at hperm ⊢
      exact List.perm_singleton.1 hperm
  have hdesk : (w.happen event).system.desk =
      { d with nextNumber := (w.happen event).system.engine.nextNumber } := by
    have heq := hshows.eq
    rw [show (w.meet (.event event)).system.desk.running = d.running from hrunning] at heq
    exact heq
  have hshift : w.Shift event (w.happen event).system.desk submitted begun ended :=
    hdesk ▸ hshift.renumber _
  obtain ⟨hsubmits, hbegins, hends⟩ := hshift.observed h.numbered
  refine ⟨⟨hshows.numbered, hshows.tended (hmatter.tended h.tended), hshift.inTurn⟩, ?_⟩
  rw [hsubmits, hbegins, hends]
  exact hshift

/-! ## Runs -/

theorem along_cons {α : Type} (observe : World → Event → List α) (w : World) (event : Event)
    (events : List Event) :
    w.along observe (event :: events) =
      observe w event ++ (w.happen event).along observe events := rfl

theorem along_map {α β : Type} (observe : World → Event → List α) (f : α → β) (w : World)
    (events : List Event) :
    w.along (fun w event => (observe w event).map f) events = (w.along observe events).map f := by
  induction events generalizing w with
  | nil => rfl
  | cons event events ih => rw [along_cons, along_cons, ih, List.map_append]

theorem along_filterMap {α β : Type} (observe : World → Event → List α) (f : α → Option β)
    (w : World) (events : List Event) :
    w.along (fun w event => (observe w event).filterMap f) events =
      (w.along observe events).filterMap f := by
  induction events generalizing w with
  | nil => rfl
  | cons event events ih => rw [along_cons, along_cons, ih, List.filterMap_append]

theorem along_none {α : Type} (w : World) (events : List Event) :
    w.along (fun _ _ => ([] : List α)) events = [] := by
  induction events generalizing w with
  | nil => rfl
  | cons event events ih => rw [along_cons, ih, List.append_nil]

theorem along_congr {α : Type} {observe other : World → Event → List α}
    (hstep : ∀ w event, w.Regular → observe w event = other w event) (h : w.Regular)
    (events : List Event) : w.along observe events = w.along other events := by
  induction events generalizing w with
  | nil => rfl
  | cons event events ih =>
    rw [along_cons, along_cons, hstep w event h, ih (happen_shift h event).1]

theorem run_regular (h : w.Regular) (events : List Event) : (w.run events).Regular := by
  induction events generalizing w with
  | nil => exact h
  | cons event events ih => exact ih (happen_shift h event).1

theorem opened_regular {settings : Settings} {disk : Disk} {device : Device} {s : System}
    (hstart : System.start settings disk device.fresh = .ok s) : (opened s).Regular where
  numbered := (System.start_desk hstart).1
  tended := opened_tended hstart
  inTurn := by
    show s.desk.InTurn
    rw [(System.start_desk hstart).2]
    exact ⟨rfl, List.not_mem_nil, rfl, fun _ => rfl⟩

/-- What is in stock and comes in along a run has gone out or is in stock at its end, in this order,
if every event keeps to that. -/
theorem along_conserved {α : Type} (stock : World → List α) (comes goes : World → Event → List α)
    (hstep : ∀ w event, w.Regular →
      stock w ++ comes w event = goes w event ++ stock (w.happen event))
    (h : w.Regular) (events : List Event) :
    stock w ++ w.along comes events = w.along goes events ++ stock (w.run events) := by
  induction events generalizing w with
  | nil => exact List.append_nil _
  | cons event events ih =>
    have hrest := ih (happen_shift h event).1
    calc stock w ++ (comes w event ++ (w.happen event).along comes events)
        = goes w event ++ (stock (w.happen event) ++ (w.happen event).along comes events) := by
          rw [← List.append_assoc, hstep w event h, List.append_assoc]
      _ = goes w event ++ ((w.happen event).along goes events ++
            stock ((w.happen event).run events)) := by rw [hrest]
      _ = w.along goes (event :: events) ++ stock (w.run (event :: events)) := by
          rw [along_cons, List.append_assoc]
          rfl

/-- What grows along a run. -/
theorem along_added {α : Type} (stock : World → List α) (comes : World → Event → List α)
    (hstep : ∀ w event, w.Regular → stock w ++ comes w event = stock (w.happen event))
    (h : w.Regular) (events : List Event) :
    stock w ++ w.along comes events = stock (w.run events) := by
  have hall := along_conserved stock comes (fun _ _ => []) hstep h events
  rwa [along_none, List.nil_append] at hall

/-- Every restore that begins has a task of its own. -/
theorem begins_nodup (h : w.Regular) (events : List Event) :
    ((w.along begins events).map (·.1)).Nodup ∧
      ∀ entry ∈ w.along begins events, w.system.engine.nextNumber ≤ entry.1 := by
  induction events generalizing w with
  | nil => exact ⟨List.nodup_nil, nofun⟩
  | cons event events ih =>
    have hnext : (w.happen event).Regular := (happen_shift h event).1
    have hle : w.system.engine.nextNumber ≤ (w.happen event).system.engine.nextNumber := by
      obtain ⟨d, hmatter, hshows⟩ := meet_matter h.numbered (.event event)
      exact Nat.le_trans hmatter.next_le hshows.next
    obtain ⟨hnodup, habove⟩ := ih hnext
    have hnew : ∀ entry ∈ w.begins event, w.system.engine.nextNumber ≤ entry.1 ∧
        entry.1 < (w.happen event).system.engine.nextNumber := by
      intro entry hmem
      obtain ⟨hrunning, hfresh⟩ := List.mem_filter.1 hmem
      exact ⟨by simpa using hfresh, running_below hnext.numbered hrunning⟩
    rw [along_cons, List.map_append]
    constructor
    · refine List.Nodup.append ?_ hnodup ?_
      · exact (running_nodup hnext.numbered).sublist (List.filter_sublist.map _)
      · intro number hfirst hlater
        obtain ⟨entry, hentry, rfl⟩ := List.mem_map.1 hfirst
        obtain ⟨other, hother, hsame⟩ := List.mem_map.1 hlater
        have hbelow := (hnew entry hentry).2
        have hover := habove other hother
        omega
    · intro entry hmem
      rcases List.mem_append.1 hmem with hfirst | hlater
      · exact (hnew entry hfirst).1
      · exact Nat.le_trans hle (habove entry hlater)

theorem told_split (w : World) (h : w.Regular) (event : Event) :
    (w.told.filter (!·.2)).map (·.1) ++ w.skips event =
        ((w.happen event).told.filter (!·.2)).map (·.1) ∧
      (w.told.filter (·.2)).map (·.1) ++ (w.ends event).filterMap (·.2.installToken) =
        ((w.happen event).told.filter (·.2)).map (·.1) := by
  have htold : (w.happen event).told = _ := (happen_shift h event).2.told
  have hfalse : ∀ tokens : List Int,
      (tokens.map (fun token => (token, false))).filter (·.2) = [] := by
    intro tokens
    simp [List.filter_map, Function.comp_def]
  have htrue : ∀ tokens : List Int,
      (tokens.map (fun token => (token, true))).filter (!·.2) = [] := by
    intro tokens
    simp [List.filter_map, Function.comp_def]
  have hsame : ∀ tokens : List Int,
      ((tokens.map (fun token => (token, false))).filter (!·.2)).map (·.1) = tokens ∧
      ((tokens.map (fun token => (token, true))).filter (·.2)).map (·.1) = tokens := by
    intro tokens
    simp [List.filter_map, Function.comp_def]
  constructor
  · rw [htold, List.filter_append, List.filter_append, htrue, List.append_nil, List.map_append,
      (hsame _).1]
  · rw [htold, List.filter_append, List.filter_append, hfalse, List.append_nil, List.map_append,
      (hsame _).2]

/-- **Restores in turn, and the installer hears once.** After every run without a shutdown at most
one restore runs. Restores are processed in the order in which they were submitted, begin in the
order in which they were processed, each as a task of its own, and end in the order in which they
began; with none running and no command queued all of them have begun and ended. The engine's flag
is up exactly while one runs, one waits, or the end of one is queued.

The installer is told that nothing is restored exactly for the installations that are skipped, in
their order; the others are submitted with their tokens, and the installer is told that they were
restored exactly for those that have ended, in their order. It is told in the very event that skips
or ends, however the restore ended.

The ancestral dataset becomes that of a restore exactly when a restore ends that was to be recorded
and was not refused by its transport; only the call that restores a whole dataset has it
recorded. -/
theorem restores_in_turn {settings : Settings} {disk : Disk} {device : Device} {s : System}
    (hstart : System.start settings disk device.fresh = .ok s) (events : List Event) :
    let w₀ := opened s
    let w := w₀.run events
    let e := w.system.engine
    w.restores.length ≤ 1 ∧
      (w₀.along submits events = w₀.along processes events ++ w.queuedRestores ∧
        w₀.along processes events = (w₀.along begins events).map (·.2) ++ e.waitingRestores ∧
        w₀.along begins events = w₀.along ends events ++ w.restores ∧
        ((w₀.along begins events).map (·.1)).Nodup) ∧
      (w.restores = [] → e.inbox = [] →
        (w₀.along begins events).map (·.2) = w₀.along processes events ∧
          (w₀.along ends events).map (·.2) = w₀.along submits events) ∧
      (e.restoring = true ↔ w.restores ≠ [] ∨ e.waitingRestores ≠ [] ∨
        ∃ session, .restoreFinished session ∈ e.inbox) ∧
      ((w.told.filter (!·.2)).map (·.1) = w₀.along skips events ∧
        (w₀.along submits events).filterMap (·.installToken) = w₀.along launches events ∧
        (w.told.filter (·.2)).map (·.1) = (w₀.along ends events).filterMap (·.2.installToken) ∧
        w₀.along launches events = (w.told.filter (·.2)).map (·.1) ++
          (w.restores.map (·.2) ++ e.waitingRestores ++ w.queuedRestores).filterMap
            (·.installToken)) ∧
      ∀ event,
        (w.happen event).told = w.told ++ (w.skips event).map (fun token => (token, false)) ++
            ((w.ends event).filterMap (·.2.installToken)).map (fun token => (token, true)) ∧
          (w.ends event).map (·.2) = (w.ending? event).toList.map (·.1) ∧
          (∀ order ∈ w.submits event, order.recordAncestral = event.isRestoreAll) ∧
          (w.happen event).ancestry =
            match w.ending? event with
            | some (order, started) =>
              if started && order.recordAncestral then
                (order.token, some (NameSet.ofList order.packages))
              else w.ancestry
            | none => w.ancestry := by
  intro w₀ w e
  have h₀ : w₀.Regular := opened_regular hstart
  have h : w.Regular := run_regular h₀ events
  have hclear : w₀.system.desk = w₀.system.desk.cleared := (System.start_desk hstart).2
  -- nothing is at any station at the start
  have hqueued₀ : w₀.queuedRestores = [] := by
    rw [← queued_eq, hclear]
    rfl
  have hwaiting₀ : w₀.system.desk.waiting = [] := by rw [hclear]; rfl
  have hrunning₀ : w₀.restores = [] := by
    show w₀.system.desk.running = []
    rw [hclear]
    rfl
  have htold₀ : w₀.told = [] := by
    show w₀.system.desk.installed = []
    rw [hclear]
    rfl
  have hsubmits : w₀.along submits events = w₀.along processes events ++ w.queuedRestores := by
    have hall := along_conserved queuedRestores submits processes (fun w event h => by
      rw [← queued_eq, ← queued_eq]
      exact (happen_shift h event).2.flow.queue) h₀ events
    rwa [hqueued₀, List.nil_append] at hall
  have hprocesses : w₀.along processes events =
      (w₀.along begins events).map (·.2) ++ e.waitingRestores := by
    have hall := along_conserved (fun w => w.system.desk.waiting) processes
      (fun w event => (w.begins event).map (·.2))
      (fun w event h => (happen_shift h event).2.flow.line) h₀ events
    rwa [hwaiting₀, List.nil_append, along_map] at hall
  have hbegins : w₀.along begins events = w₀.along ends events ++ w.restores := by
    have hall := along_conserved restores begins ends (fun w event h => by
      obtain ⟨rest, hbefore, hafter⟩ := (happen_shift h event).2.flow.tasks
      show w.system.desk.running ++ _ = _ ++ (w.happen event).system.desk.running
      rw [hbefore, hafter, List.append_assoc]) h₀ events
    rwa [hrunning₀, List.nil_append] at hall
  have hskipped : (w.told.filter (!·.2)).map (·.1) = w₀.along skips events := by
    have hall := along_added (fun w => (w.told.filter (!·.2)).map (·.1)) skips
      (fun w event h => (told_split w h event).1) h₀ events
    rw [htold₀] at hall
    exact hall.symm
  have hrestored : (w.told.filter (·.2)).map (·.1) =
      (w₀.along ends events).filterMap (·.2.installToken) := by
    have hall := along_added (fun w => (w.told.filter (·.2)).map (·.1))
      (fun w event => (w.ends event).filterMap (·.2.installToken))
      (fun w event h => (told_split w h event).2) h₀ events
    rw [htold₀, along_filterMap] at hall
    exact hall.symm
  have hlaunched : (w₀.along submits events).filterMap (·.installToken) =
      w₀.along launches events := by
    rw [← along_filterMap]
    exact along_congr (fun w event h => (happen_shift h event).2.launched) h₀ events
  have hidle : w.restores = [] → e.inbox = [] → e.waitingRestores = [] := by
    intro hnone hinbox
    refine h.inTurn.line (Bool.eq_false_iff.2 fun hup => ?_)
    have hmail : w.system.desk.mail = [] := by
      show e.inbox.filter _ = []
      rw [hinbox]
      rfl
    have hsingle := h.inTurn.single
    rw [show w.system.desk.running = [] from hnone, hmail, hup] at hsingle
    cases hsingle
  refine ⟨h.inTurn.running_le_one, ⟨hsubmits, hprocesses, hbegins, (begins_nodup h₀ events).1⟩,
    fun hnone hinbox => ?_, ?_, ⟨hskipped, hlaunched, hrestored, ?_⟩, fun event => ?_⟩
  · have hwaiting := hidle hnone hinbox
    have hqueued : w.queuedRestores = [] := by
      show e.inbox.filterMap _ = []
      rw [hinbox]
      rfl
    rw [hwaiting, List.append_nil] at hprocesses
    rw [hqueued, List.append_nil] at hsubmits
    rw [hnone, List.append_nil] at hbegins
    exact ⟨hprocesses.symm, by rw [hsubmits, hprocesses, hbegins]⟩
  · have hmail : ∀ session : Option Nat,
        .restoreFinished session ∈ w.system.desk.mail ↔ .restoreFinished session ∈ e.inbox := by
      intro session
      show .restoreFinished session ∈ e.inbox.filter _ ↔ _
      rw [List.mem_filter]
      exact and_iff_left rfl
    rw [← exists_congr hmail]
    exact h.inTurn.restoring_iff
  · rw [← hlaunched, hsubmits, hprocesses, hbegins, hrestored]
    simp only [List.map_append, List.filterMap_append, List.filterMap_map, List.append_assoc]
    rfl
  · have hshift := (happen_shift h event).2
    exact ⟨hshift.told, hshift.ended, hshift.whole, hshift.ancestry⟩

/-- Two installations after the backup of one package: of that package, and of one that was never
backed up. -/
def installsOfTwo : List Event :=
  backupOfOne ++
    [.call (.setAutoRestore true), .call (.restoreAtInstall .system "app" 5),
      .call (.restoreAtInstall .system "other" 6), .command] ++
    List.replicate 10 (.task 1)

theorem restores_in_turn_installsOfTwo :
    ∃ s, System.start {} {} deviceOfOne.fresh = .ok s ∧
      let w := (opened s).run installsOfTwo
      w.told = [(6, false), (5, true)] ∧ w.system.engine.restoring = true ∧
        (opened s).along skips installsOfTwo = [6] ∧
        ((opened s).along ends installsOfTwo).filterMap (·.2.installToken) = [5] ∧
        ∃ session, .restoreFinished session ∈ w.system.engine.inbox := by
  obtain ⟨s, hstart, hcheck⟩ := @start_check {} {} deviceOfOne.fresh (fun s =>
    let w := (opened s).run installsOfTwo
    w.told == [(6, false), (5, true)] && w.system.engine.restoring && w.restores.isEmpty &&
      w.system.engine.waitingRestores.isEmpty)
    (by decide +kernel)
  simp only [Bool.and_eq_true, List.isEmpty_iff, beq_iff_eq] at hcheck
  obtain ⟨⟨⟨htold, hflag⟩, hrestores⟩, hwaiting⟩ := hcheck
  obtain ⟨-, -, -, hrestoring, ⟨hskipped, -, hrestored, -⟩, -⟩ :=
    restores_in_turn hstart installsOfTwo
  rw [htold] at hskipped hrestored
  refine ⟨s, hstart, htold, hflag, hskipped.symm, hrestored.symm, ?_⟩
  rcases hrestoring.1 hflag with hbusy | hbusy | hqueued
  · exact absurd hrestores hbusy
  · exact absurd hwaiting hbusy
  · exact hqueued

end World

end Holdfast
