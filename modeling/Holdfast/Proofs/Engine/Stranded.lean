import Holdfast.Proofs.Engine.Drained
import Holdfast.Proofs.Engine.Unheard

/-!
# What a stopped engine leaves behind

After a shutdown nobody takes what waits in line, what was queued behind the shutdown, or what a
call could not hand to the loop any more. All else comes to its end: tasks make their steps, give
back what they hold, and tell whom they have to tell.

- `World.Accounted`: where every lease is, and how far every requested backup and every installation
  has come, at any point of a run;
- `World.shutdown_accounted`: **what is left when the loop has stopped and every task has ended**.
-/

namespace Holdfast

/-- Leases travel in requests for backups and in restores. -/
theorem Command.leases_perm (commands : List Command) :
    (commands.filterMap Command.lease?).Perm
      ((commands.filterMap Command.request?).map (·.lease) ++
        (commands.filterMap Command.restore?).map (·.lease)) := by
  induction commands with
  | nil => exact .refl _
  | cons command commands ih =>
    cases command with
    | requestBackup order => exact ih.cons order.lease
    | startRestore order => exact (ih.cons order.lease).trans List.perm_middle.symm
    | _ => exact ih

namespace World

variable {w : World} {forfeited unheard : List Command} {strays : List Lease} {asked : List Int}

/-- Everything that was taken and not given back is with somebody, and everybody who waits for an
answer has it or is with somebody: with a task, a call in progress, the inbox or a line, unless it
was forfeited when the loop stopped, left to nobody after that, or with a call that was dropped. -/
structure Accounted (w : World) (forfeited : List Command) (strays : List Lease)
    (asked : List Int) : Prop where
  numbers : (w.system.engine.transports.leases.map (·.number)).Nodup
  leases : w.system.engine.transports.leases.Perm
    (w.system.engine.tasks.filterMap (·.lease) ++ w.flights.map Flight.lease ++ w.dropped ++
      w.system.engine.inbox.filterMap Command.lease? ++
      (w.system.engine.waitingRequests ++ forfeited.filterMap Command.request?).map (·.lease) ++
      (w.system.engine.waitingRestores ++ forfeited.filterMap Command.restore?).map (·.lease) ++
      strays)
  /-- Requested backups begin in the order in which they were accepted. -/
  requests : w.accepted = w.begun.map (·.2) ++
    (w.system.engine.waitingRequests ++ forfeited.filterMap Command.request?) ++
    w.system.engine.inbox.filterMap Command.request?
  /-- Observers hear the end of a pass when its task is over. -/
  answers : ∀ pass ∈ w.begun, ∃ results status, Device.AreResults pass.2.observer results ∧
    heardBy w.heard pass.1 =
      results ++ if w.runs pass.1 then [] else System.finishedNotice pass.2.observer status
  /-- The installer is told once of each installation. -/
  installs : asked.Perm (w.told.map (·.1) ++
    (w.restores.map (·.2) ++ w.queuedRestores ++
      (w.system.engine.waitingRestores ++ forfeited.filterMap Command.restore?)).filterMap
      (·.installToken))
  /-- A stopped loop is handed nothing. -/
  inbox : w.system.engine.looping = false → w.system.engine.inbox.filter Command.counts = []

/-- The books at one point of a run. -/
theorem Accounted.of_kept (hphase : w.system.ledger.Phase forfeited unheard)
    (hk : (w.audit unheard strays).Kept)
    (hpromised : (w.system.desk.promised ++
      (forfeited.filterMap Command.restore?).filterMap (·.installToken)).Perm asked) :
    w.Accounted forfeited strays asked where
  numbers := hk.sound.lent.nodup
  leases := by
    have hunheard := hphase.filterMap Command.lease?_of_not_counts rfl
    rw [System.commands_filterMap _ Command.lease?_of_not_counts] at hunheard
    have htasks : w.system.ledger.seats.filterMap (·.lease) =
        w.system.engine.tasks.filterMap (·.lease) := List.filterMap_map
    -- the unheard commands are those of the inbox and the forfeited ones: count on both sides
    refine hk.sound.lent.perm.trans (List.perm_iff_count.2 fun x => ?_)
    have hforfeited := (Command.leases_perm forfeited).count_eq x
    show List.count x (w.system.ledger.seats.filterMap (·.lease) ++
      w.system.engine.waitingRequests.map (·.lease) ++
      w.system.engine.waitingRestores.map (·.lease) ++ unheard.filterMap Command.lease? ++
      (w.flights.map Flight.lease ++ w.dropped ++ strays)) = _
    rw [hunheard, htasks]
    simp only [List.map_append, List.count_append] at hforfeited ⊢
    omega
  requests := by
    have hinbox := w.system.commands_filterMap Command.request?_of_not_counts
    have horder : w.accepted = w.begun.map (·.2) ++ w.system.engine.waitingRequests ++
        unheard.filterMap Command.request? := hk.served.queued.order
    rw [horder, hphase.filterMap Command.request?_of_not_counts rfl, ← hinbox]
    cases hphase with
    | running _ => simp
    | stopped _ hdeaf => simp [hdeaf.commands]
  answers := by
    intro pass hpass
    obtain ⟨results, status, hresults, hheard⟩ := hk.served.answered.answers pass hpass
    have hruns : pass.1 ∈ (w.audit unheard strays).ledger.seats.map (·.number) ↔ w.runs pass.1 :=
      runs_iff pass.1
    refine ⟨results, status, hresults, ?_⟩
    rwa [if_congr hruns rfl rfl] at hheard
  installs := by
    classical
    refine hpromised.symm.trans (List.perm_iff_count.2 fun x => ?_)
    rw [Desk.promised, ← orders_eq, orders]
    simp only [List.filterMap_append, List.count_append]
    show List.count x (w.told.map (·.1)) + _ + _ = _
    omega
  inbox := by
    intro hstopped
    cases hphase with
    | running hloop => cases hstopped.symm.trans hloop
    | stopped _ hdeaf => exact hdeaf.commands

/-- A task that broke down is a full backup without a lease. -/
theorem fallen_task (hk : (w.audit unheard strays).Kept) {t : Task}
    (ht : t ∈ w.system.engine.tasks) (hfallen : t.stage = .fallen) :
    t.job.kind = .full ∧ t.lease = none :=
  (hk.sound.fit t.seat (List.mem_map_of_mem ht)).fallen hfallen

/-- What is left once the loop has stopped and every task and every call has ended. -/
theorem Accounted.at_rest (h : w.Accounted forfeited strays asked)
    (hk : (w.audit unheard strays).Kept) (hstopped : w.system.engine.looping = false)
    (htasks : ∀ t ∈ w.system.engine.tasks, t.stage = .fallen) (hflights : w.flights = []) :
    let backups := w.system.engine.waitingRequests ++ forfeited.filterMap Command.request?
    let restores := w.system.engine.waitingRestores ++ forfeited.filterMap Command.restore?
    w.system.engine.transports.leases.Perm
        (w.dropped ++ backups.map (·.lease) ++ restores.map (·.lease) ++ strays) ∧
      w.accepted = w.begun.map (·.2) ++ backups ∧
      (∀ pass ∈ w.begun, ∃ results status, Device.AreResults pass.2.observer results ∧
        heardBy w.heard pass.1 = results ++ System.finishedNotice pass.2.observer status) ∧
      asked.Perm (w.told.map (·.1) ++ restores.filterMap (·.installToken)) := by
  intro backups restores
  have hcommands : w.system.ledger.commands = [] := h.inbox hstopped
  -- the inbox has nothing left that carries a lease, a request or a restore
  have hinbox : ∀ {α : Type} (f : Command → Option α),
      (∀ command, command.counts = false → f command = none) →
      w.system.engine.inbox.filterMap f = [] := by
    intro α f hf
    rw [← w.system.commands_filterMap hf, hcommands]
    rfl
  have hleases := h.leases
  have hrequests := h.requests
  have hinstalls := h.installs
  have hnone : w.system.engine.tasks.filterMap (·.lease) = [] :=
    List.filterMap_eq_nil_iff.2 fun t ht => (fallen_task hk ht (htasks t ht)).2
  have hrunning : w.restores = [] := by
    refine List.filterMap_eq_nil_iff.2 fun entry hentry => ?_
    obtain ⟨t, ht, rfl⟩ := List.mem_map.1 hentry
    obtain ⟨hkind, -⟩ := fallen_task hk ht (htasks t ht)
    cases hjob : t.job with
    | restore =>
      rw [hjob] at hkind
      cases hkind
    | keyValue | full | wipe | clearData => rw [Task.entry, hjob]; rfl
  rw [hnone, hflights, hinbox _ Command.lease?_of_not_counts] at hleases
  rw [hinbox _ Command.request?_of_not_counts, List.append_nil] at hrequests
  rw [hrunning, queuedRestores, hinbox _ Command.restore?_of_not_counts] at hinstalls
  refine ⟨?_, hrequests, fun pass hpass => ?_, hinstalls⟩
  · simp only [List.nil_append, List.map_nil, List.append_nil] at hleases
    exact hleases
  obtain ⟨results, status, hresults, hheard⟩ := h.answers pass hpass
  have hover : ¬ w.runs pass.1 := by
    intro hruns
    obtain ⟨t, ht, hnumber⟩ := List.mem_map.1 hruns
    obtain ⟨hkind, -⟩ := hk.served.answered.tasks pass hpass t.seat (List.mem_map_of_mem ht) hnumber
    cases hkind.symm.trans (fallen_task hk ht (htasks t ht)).1
  rw [if_neg hover] at hheard
  exact ⟨results, status, hresults, hheard⟩

/-- The installer was told, or is still to be told, of every installation that was asked about in a
run, unless the restore was forfeited. -/
theorem live_promised (hs : w.system.Numbered) (h : w.system.desk.Tended)
    (incidents : List Incident) :
    ((w.live incidents).system.desk.promised ++
      ((w.across forfeits incidents).filterMap Command.restore?).filterMap (·.installToken)).Perm
      (w.system.desk.promised ++ incidents.flatMap Incident.asks) := by
  induction incidents generalizing w with
  | nil => exact .refl _
  | cons i incidents ih =>
    obtain ⟨d, hmatter, hshows⟩ := meet_matter hs i
    have hstep := hmatter.promises hs h
    have hshown : (w.meet i).system.desk.promised.Perm d.promised := by
      refine Desk.promised_perm ?_ hshows.orders
      rw [hshows.eq]
    have hrun := ih hshows.numbered (hshows.tended (hmatter.tended h))
    refine List.perm_iff_count.2 fun x => ?_
    have hstep := hstep.count_eq x
    have hshown := hshown.count_eq x
    have hrun := hrun.count_eq x
    simp only [across, List.filterMap_append, List.flatMap_cons, List.count_append] at hstep hrun ⊢
    show List.count x ((w.meet i).live incidents).system.desk.promised + _ = _
    omega

/-- A call that is refused for want of the loop takes a lease and leaves it in the table. -/
theorem refused_of_kept (hk : (w.audit unheard strays).Kept) {c : Call}
    (hrefused : c.isRefused w.system = true) :
    ∃ lease, lease ∉ w.system.engine.transports.leases ∧
      (c.make w.system).engine.transports.leases =
        lease :: w.system.engine.transports.leases := by
  obtain ⟨-, lease, hleaves⟩ := System.refused_leaves hrefused w.hand
  refine ⟨lease, fun hmem => ?_, hleaves.leases⟩
  exact absurd hleaves.number (Nat.ne_of_lt (hk.sound.lent.below lease hmem))

/-- **What a stopped engine leaves behind.** At every point of every run, shutdowns included, every
lease that is out, every requested backup that was accepted and every installation that was asked
about is accounted for. A call that fails because the loop has stopped leaves one lease more in the
table than it found.

Once the loop has stopped and all tasks and calls have ended, the leases that are out are those of
the requested backups and of the restores that wait in line or were queued behind the shutdown,
those of such calls, and those of calls that were dropped while they waited. These backups, the last
ones that were accepted, never begin, and every other one has had its results and then its end. The
installer was told of all installations but those of these restores. So no lease is out exactly if
nobody waits, no backup and no restore was queued behind the shutdown, and no call was refused or
dropped. A task that broke down has ended as well. -/
theorem shutdown_accounted {settings : Settings} {disk : Disk} {device : Device} {s : System}
    (hstart : System.start settings disk device.fresh = .ok s) (incidents : List Incident) :
    let w := (opened s).live incidents
    let e := w.system.engine
    let forfeited := (opened s).across forfeits incidents
    let strays := (opened s).across strands incidents
    let asked := incidents.flatMap Incident.asks
    let backups := e.waitingRequests ++ forfeited.filterMap Command.request?
    let restores := e.waitingRestores ++ forfeited.filterMap Command.restore?
    w.Accounted forfeited strays asked ∧
      (∀ c : Call, c.isRefused w.system = true →
        ∃ lease, lease ∉ e.transports.leases ∧
          (c.make w.system).engine.transports.leases = lease :: e.transports.leases) ∧
      (e.looping = false → (∀ t ∈ e.tasks, t.stage = .fallen) → w.flights = [] →
        e.transports.leases.Perm
            (w.dropped ++ backups.map (·.lease) ++ restores.map (·.lease) ++ strays) ∧
          w.accepted = w.begun.map (·.2) ++ backups ∧
          (∀ pass ∈ w.begun, ∃ results status, Device.AreResults pass.2.observer results ∧
            heardBy w.heard pass.1 =
              results ++ System.finishedNotice pass.2.observer status) ∧
          asked.Perm (w.told.map (·.1) ++ restores.filterMap (·.installToken)) ∧
          (e.transports.leases = [] ↔
            w.dropped = [] ∧ backups = [] ∧ restores = [] ∧ strays = [])) := by
  intro w e forfeited strays asked backups restores
  obtain ⟨hphase, hk⟩ := opened_audited hstart
  obtain ⟨unheard, hphase', hk'⟩ := live_audited hk hphase incidents
  obtain ⟨hnumbered, hcleared⟩ := System.start_desk hstart
  have hpromised := live_promised (w := opened s) hnumbered (opened_tended hstart) incidents
  have hnone : (opened s).system.desk.promised = [] := by
    show s.desk.promised = []
    rw [hcleared]
    rfl
  rw [hnone, List.nil_append] at hpromised
  have haccounted : w.Accounted forfeited strays asked := .of_kept hphase' hk' hpromised
  refine ⟨haccounted, fun c hrefused => refused_of_kept hk' hrefused,
    fun hstopped htasks hflights => ?_⟩
  obtain ⟨hleases, hrequests, hanswers, hinstalls⟩ :=
    haccounted.at_rest hk' hstopped htasks hflights
  refine ⟨hleases, hrequests, hanswers, hinstalls, ?_⟩
  rw [← List.length_eq_zero_iff, hleases.length_eq, List.length_eq_zero_iff,
    List.append_eq_nil_iff, List.append_eq_nil_iff, List.append_eq_nil_iff, List.map_eq_nil_iff,
    List.map_eq_nil_iff, and_assoc, and_assoc]

/-- A shutdown after one backup, when nobody waits. -/
def shutdownOfIdle : List Incident :=
  backupOfOne.map .event ++ [.shutdown, .event .command]

theorem shutdown_accounted_shutdownOfIdle :
    ∃ s, System.start {} {} deviceOfOne.fresh = .ok s ∧
      let w := (opened s).live shutdownOfIdle
      w.system.engine.looping = false ∧ w.system.engine.transports.leases = [] ∧
        w.accepted.length = 1 ∧ w.begun.map (·.2) = w.accepted := by
  obtain ⟨s, hstart, hstopped, htasks, hflights, hdropped, hcount, hrequests, hrestores, hstrays⟩ :=
    @start_decide {} {} deviceOfOne.fresh (fun s =>
      let w := (opened s).live shutdownOfIdle
      w.system.engine.looping = false ∧ w.system.engine.tasks.isEmpty = true ∧
        w.flights.isEmpty = true ∧ w.dropped = [] ∧ w.accepted.length = 1 ∧
        (w.system.engine.waitingRequests ++
          ((opened s).across forfeits shutdownOfIdle).filterMap Command.request?).isEmpty = true ∧
        (w.system.engine.waitingRestores ++
          ((opened s).across forfeits shutdownOfIdle).filterMap Command.restore?).isEmpty = true ∧
        (opened s).across strands shutdownOfIdle = []) _ (by decide +kernel)
  rw [List.isEmpty_iff] at htasks hflights hrequests hrestores
  obtain ⟨-, -, hrest⟩ := shutdown_accounted hstart shutdownOfIdle
  obtain ⟨-, haccepted, -, -, hnone⟩ := hrest hstopped (by
    rw [htasks]
    exact fun t ht => absurd ht List.not_mem_nil) hflights
  rw [hrequests, List.append_nil] at haccepted
  exact ⟨s, hstart, hstopped, hnone.2 ⟨hdropped, hrequests, hrestores, hstrays⟩, hcount,
    haccepted.symm⟩

/-- Two backups, one of which waits for the other. -/
def backupsInLine : List Event :=
  backupOfOne ++
    [.call (.setAutoRestore true), .call (.requestBackup .system ["app"] (some "next") false),
      .call (.requestBackup .system ["app"] (some "waiting") false), .command, .command]

/-- A restore at install is queued behind a shutdown while a backup waits. -/
def shutdownOfBusy : List Incident :=
  backupsInLine.map .event ++
    [.shutdown, .event (.call (.restoreAtInstall .system "app" 7)), .event .command] ++
    List.replicate 12 (.event (.task 1))

/-- Not everything is settled after a shutdown: a backup waits for ever, the installer is never
told, and a request that fails adds to the leases that stay out. -/
theorem shutdown_strands :
    ∃ s, System.start {} {} deviceOfOne.fresh = .ok s ∧
      let w := (opened s).live shutdownOfBusy
      let refused := w.system.requestBackup .system ["app"] none false
      w.system.engine.looping = false ∧ w.system.engine.tasks.isEmpty = true ∧
        w.flights.isEmpty = true ∧
        w.system.engine.transports.leases.length = 2 ∧
        w.accepted.map (·.observer) = [some "observer", some "next", some "waiting"] ∧
        w.system.ledger.told.filter Device.Notice.isEnd =
          [.finished "observer" .success, .finished "next" .success] ∧
        shutdownOfBusy.flatMap Incident.asks = [7] ∧ w.told = [] ∧
        refused.1 = .transportAborted ∧ refused.2.engine.transports.leases.length = 3 :=
  start_decide (by decide +kernel)

end World

end Holdfast
