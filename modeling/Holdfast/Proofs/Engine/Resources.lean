import Holdfast.Proofs.Engine.World

/-!
# No resource outlives its pass

- `World.leases_held`: the leases that are out are those of tasks, of requests and restores that
  wait or are queued, of calls in progress, and of calls that were dropped, each exactly once;
- `World.resources_returned`: **the leases are accounted for in every state, and an engine with
  nothing left to do holds nothing**: no operation, no wake lock, no pass, no agent, and no lease
  besides those of calls in progress and of dropped calls;
- `World.resources_kept`: a lease does outlive a call that was dropped, and a full backup that broke
  down keeps its place, its token and the wake lock.
-/

namespace Holdfast

/-- Whether a command is a requested backup. -/
def Command.isRequest : Command → Bool
  | .requestBackup _ => true
  | _ => false

/-- Whether a command is a restore to be started. -/
def Command.isRestore : Command → Bool
  | .startRestore _ => true
  | _ => false

namespace World

variable {w : World}

/-- No task goes on, nobody waits, and no command is queued. -/
structure Idle (w : World) : Prop where
  tasks : ∀ t ∈ w.system.engine.tasks, t.stage = .fallen
  requests : w.system.engine.waitingRequests = []
  restores : w.system.engine.waitingRestores = []
  inbox : w.system.engine.inbox = []

instance (w : World) : Decidable w.Idle :=
  decidable_of_iff ((∀ t ∈ w.system.engine.tasks, t.stage = .fallen) ∧
      w.system.engine.waitingRequests.isEmpty = true ∧
      w.system.engine.waitingRestores.isEmpty = true ∧ w.system.engine.inbox.isEmpty = true)
    ⟨fun ⟨tasks, requests, restores, inbox⟩ => ⟨tasks, List.isEmpty_iff.1 requests,
      List.isEmpty_iff.1 restores, List.isEmpty_iff.1 inbox⟩,
    fun h => ⟨h.tasks, List.isEmpty_iff.2 h.requests, List.isEmpty_iff.2 h.restores,
      List.isEmpty_iff.2 h.inbox⟩⟩

/-- The packages whose agents were unbound, oldest first. -/
def unbound (w : World) : List String :=
  (w.system.device.log.filterMap Device.Notice.unbound?).reverse

/-- The leases that are out belong to somebody who gives them back. -/
theorem leases_held (hs : w.Sound) :
    w.system.engine.transports.leases.Perm
      (w.system.engine.tasks.filterMap (·.lease) ++
        w.system.engine.waitingRequests.map (·.lease) ++
        w.system.engine.waitingRestores.map (·.lease) ++
        w.system.engine.inbox.filterMap Command.lease? ++ w.hand) := by
  have hseats : w.system.ledger.seats.filterMap (·.lease) =
      w.system.engine.tasks.filterMap (·.lease) := by
    show (w.system.engine.tasks.map Task.seat).filterMap _ = _
    rw [List.filterMap_map]
    rfl
  have hcommands : w.system.ledger.commands.filterMap Command.lease? =
      w.system.engine.inbox.filterMap Command.lease? := by
    apply System.commands_filterMap
    intro command
    cases command <;> simp [Command.counts, Command.lease?]
  have hperm := hs.lent.perm
  rw [Ledger.held, hseats, hcommands] at hperm
  exact hperm

/-- A queued command with a lease is a requested backup or a restore. -/
theorem inbox_leases (inbox : List Command) :
    (inbox.filterMap Command.lease?).length =
      inbox.countP Command.isRequest + inbox.countP Command.isRestore := by
  induction inbox with
  | nil => rfl
  | cons command inbox ih =>
    cases command <;>
      simp only [List.filterMap_cons, Command.lease?, List.length_cons, List.countP_cons,
        Command.isRequest, Command.isRestore, Bool.false_eq_true, if_false, if_true, ih] <;>
      omega

/-- The number of leases that are out. -/
theorem leases_counted (hs : w.Sound) :
    w.system.engine.transports.leases.length =
      w.system.engine.tasks.countP (·.lease.isSome) +
        (w.system.engine.waitingRequests.length +
          w.system.engine.inbox.countP Command.isRequest) +
        (w.system.engine.waitingRestores.length +
          w.system.engine.inbox.countP Command.isRestore) + w.flights.length +
        w.dropped.length := by
  have hlength := (leases_held hs).length_eq
  have htasks : (w.system.engine.tasks.filterMap (·.lease)).length =
      w.system.engine.tasks.countP (·.lease.isSome) := List.length_filterMap_eq_countP
  simp only [List.length_append, List.length_map, inbox_leases, htasks, hand] at hlength
  omega

/-- A task that broke down is a full backup that has no lease and no agent, and holds the rest. -/
theorem Idle.seats (hidle : w.Idle) (hs : w.Sound) {e : Seat} (he : e ∈ w.system.ledger.seats) :
    e.job.kind = .full ∧ e.lease = none ∧ e.isAwake = true ∧ e.isPass = false ∧ e.isFull = true ∧
      e.working = none := by
  obtain ⟨t, ht, rfl⟩ := List.mem_map.1 he
  have hstage : t.seat.stage = .fallen := hidle.tasks t ht
  obtain ⟨hkind, hlease⟩ := (hs.fit _ he).fallen hstage
  refine ⟨hkind, hlease, ?_, ?_, ?_, ?_⟩ <;>
    simp [Seat.isAwake, Seat.isPass, Seat.isFull, Seat.working, Stage.isLeaving, hstage, hkind]

/-- An engine with nothing to do holds what full backups that broke down have kept. Calls in
progress and calls that were dropped hold one lease each. -/
theorem Idle.released (hidle : w.Idle) (hs : w.Sound) :
    w.system.engine.transports.leases.length = w.flights.length + w.dropped.length ∧
      (∀ token ∈ w.system.engine.ops.tokens,
        ∃ t ∈ w.system.engine.tasks, t.token = some token) ∧
      w.system.device.wakeAcquired = w.system.device.wakeReleased + w.system.engine.tasks.length ∧
      w.system.engine.runningPasses = 0 ∧
      w.system.engine.runningFull.toList.length = w.system.engine.tasks.length ∧
      ∀ package, w.bound.count package = w.unbound.count package := by
  have hcommands : w.system.ledger.commands = [] :=
    congrArg (List.filter Command.counts) hidle.inbox
  have hlength : w.system.ledger.seats.length = w.system.engine.tasks.length := List.length_map _
  refine ⟨?_, ?_, ?_, ?_, ?_, fun package => ?_⟩
  · have hleases : w.system.engine.tasks.countP (·.lease.isSome) = 0 := by
      refine List.countP_eq_zero.2 fun t ht => ?_
      obtain ⟨-, hlease, -⟩ := hidle.seats hs (List.mem_map_of_mem ht)
      simp [show t.lease = none from hlease]
    have hcount := leases_counted hs
    rw [hleases, hidle.requests, hidle.restores, hidle.inbox] at hcount
    simpa using hcount
  · intro token htoken
    obtain ⟨e, he, hkey⟩ := List.mem_flatMap.1 (hs.keys htoken)
    obtain ⟨hkind, -, -, -, -, hworking⟩ := hidle.seats hs he
    obtain ⟨t, ht, rfl⟩ := List.mem_map.1 he
    rw [Seat.keys, hworking, Seat.passKey, hkind] at hkey
    have hown : t.seat.token = some token := by simpa using hkey
    exact ⟨t, ht, hown⟩
  · have hwakes := hs.wakes
    rwa [List.countP_eq_length.2 fun e he => (hidle.seats hs he).2.2.1, hlength] at hwakes
  · have hpasses := hs.passes
    rw [List.countP_eq_zero.2 fun e he => by simp [(hidle.seats hs he).2.2.2.1],
      hcommands] at hpasses
    exact hpasses
  · have hfull := hs.fullCount
    rw [List.countP_eq_length.2 fun e he => (hidle.seats hs he).2.2.2.2.1, hlength] at hfull
    rw [hfull]
    show _ = (w.system.engine.runningFull.map (·.1)).toList.length
    cases w.system.engine.runningFull <;> rfl
  · have hagents := hs.agents
    rw [List.filterMap_eq_nil_iff.2 fun e he => by rw [(hidle.seats hs he).2.2.2.2.2]; rfl,
      List.append_nil] at hagents
    exact hagents.count_eq package

/-- **No resource outlives its pass.** After every run without a shutdown, the number of leases
that are out is the number of tasks that hold one, of requested backups and of restores that wait
or are queued, of calls that wait for a transport, and of calls that were dropped while they waited.
With no task going on, nobody waiting and no command queued, only such calls hold leases, no pass
counts as running, and every agent that was bound was unbound. What else is held belongs to tasks
that broke down, one each: the tokens in the operation table, the wake lock, and the place of a full
backup. Without such tasks the operation table is empty, the wake lock was released as often as it
was taken, and no full backup counts as running. -/
theorem resources_returned {settings : Settings} {disk : Disk} {device : Device} {s : System}
    (hstart : System.start settings disk device.fresh = .ok s) (events : List Event) :
    let w := (opened s).run events
    let e := w.system.engine
    e.transports.leases.length =
        e.tasks.countP (·.lease.isSome) +
          (e.waitingRequests.length + e.inbox.countP Command.isRequest) +
          (e.waitingRestores.length + e.inbox.countP Command.isRestore) + w.flights.length +
          w.dropped.length ∧
      (w.Idle →
        (e.transports.leases.length = w.flights.length + w.dropped.length ∧ e.runningPasses = 0 ∧
          ∀ package, w.bound.count package = w.unbound.count package) ∧
        ((∀ token ∈ e.ops.tokens, ∃ t ∈ e.tasks, t.token = some token) ∧
          w.system.device.wakeAcquired = w.system.device.wakeReleased + e.tasks.length ∧
          e.runningFull.toList.length = e.tasks.length) ∧
        (e.tasks = [] → e.ops.size = 0 ∧
          w.system.device.wakeAcquired = w.system.device.wakeReleased ∧ e.runningFull = none)) := by
  intro w e
  have hs : w.Sound := run_sound events (opened_sound hstart)
  refine ⟨leases_counted hs, fun hidle => ?_⟩
  obtain ⟨hleases, htokens, hwakes, hpasses, hfull, hagents⟩ := hidle.released hs
  refine ⟨⟨hleases, hpasses, hagents⟩, ⟨htokens, hwakes, hfull⟩, fun hnone => ?_⟩
  have hnone : w.system.engine.tasks = [] := hnone
  rw [hnone] at htokens hwakes hfull
  refine ⟨?_, hwakes, by simpa using hfull⟩
  have hnil : w.system.engine.ops.tokens = [] :=
    List.eq_nil_iff_forall_not_mem.2 fun token htoken => by simpa using htokens token htoken
  simpa [OperationTable.tokens, OperationTable.size] using hnil

theorem resources_returned_backupOfOne :
    ∃ s, System.start {} {} deviceOfOne.fresh = .ok s ∧
      let w := (opened s).run backupOfOne
      w.bound = ["app"] ∧ w.unbound.count "app" = 1 ∧
        w.system.engine.transports.leases.length = 0 ∧ w.system.engine.ops.size = 0 := by
  obtain ⟨s, hstart, hcheck⟩ := @start_check {} {} deviceOfOne.fresh (fun s =>
    let w := (opened s).run backupOfOne
    w.system.engine.tasks.isEmpty && w.system.engine.waitingRequests.isEmpty &&
      w.system.engine.waitingRestores.isEmpty && w.system.engine.inbox.isEmpty &&
      w.flights.isEmpty && w.dropped.isEmpty && w.bound == ["app"]) (by decide +kernel)
  simp only [Bool.and_eq_true, List.isEmpty_iff, beq_iff_eq] at hcheck
  obtain ⟨⟨⟨⟨⟨⟨htasks, hrequests⟩, hrestores⟩, hinbox⟩, hflights⟩, hdropped⟩, hbound⟩ := hcheck
  have hidle : ((opened s).run backupOfOne).Idle := by
    refine ⟨fun t ht => ?_, hrequests, hrestores, hinbox⟩
    rw [htasks] at ht
    exact absurd ht List.not_mem_nil
  obtain ⟨⟨hleases, -, hagents⟩, -, hnone⟩ := (resources_returned hstart backupOfOne).2 hidle
  refine ⟨s, hstart, hbound, ?_, ?_, (hnone htasks).1⟩
  · rw [← hagents, hbound]
    rfl
  · rw [hleases, hflights, hdropped]
    rfl

/-- A full backup is canceled and cannot be put off. -/
def filesFallen : List Event :=
  filesInFlight ++ .call .endFull :: List.replicate 5 (.task 1) ++ List.replicate 4 .command

/-- Nothing is left to do, and still there is a lease: that of a call that waits for its transport,
or of one that was dropped. When the delay of a full backup that failed does not fit into a word,
its place, its token and the wake lock are kept for good. -/
theorem resources_kept :
    (∃ s, System.start {} {} deviceOfOne.fresh = .ok s ∧
      let w := (opened s).run (backupOfOne ++ [.select "local"])
      let w' := w.happen (.drop 0)
      (w.Idle ∧ w.system.engine.tasks.length = 0 ∧ w.system.engine.transports.leases.length = 1) ∧
        w'.Idle ∧ w'.flights.length = 0 ∧ w'.system.engine.transports.leases.length = 1) ∧
    ∃ s, System.start { busyMin := 9223372036854775807, busyFuzz := 0 } {} deviceOfFiles.fresh =
        .ok s ∧
      let w := (opened s).run filesFallen
      w.Idle ∧ w.system.engine.runningFull.map (·.2) = some "files" ∧
        w.system.engine.ops.size = 1 ∧
        w.system.device.wakeAcquired = w.system.device.wakeReleased + 1 := by
  constructor
  · obtain ⟨s, hstart, hcheck⟩ := @start_check {} {} deviceOfOne.fresh (fun s =>
      let w := (opened s).run (backupOfOne ++ [.select "local"])
      let w' := w.happen (.drop 0)
      decide ((w.Idle ∧ w.system.engine.tasks.length = 0 ∧
          w.system.engine.transports.leases.length = 1) ∧
        w'.Idle ∧ w'.flights.length = 0 ∧ w'.system.engine.transports.leases.length = 1))
      (by decide +kernel)
    exact ⟨s, hstart, of_decide_eq_true hcheck⟩
  · obtain ⟨s, hstart, hcheck⟩ := @start_check
      { busyMin := 9223372036854775807, busyFuzz := 0 } {} deviceOfFiles.fresh (fun s =>
      let w := (opened s).run filesFallen
      decide (w.Idle ∧ w.system.engine.runningFull.map (·.2) = some "files" ∧
        w.system.engine.ops.size = 1 ∧
        w.system.device.wakeAcquired = w.system.device.wakeReleased + 1)) (by decide +kernel)
    exact ⟨s, hstart, of_decide_eq_true hcheck⟩

end World

end Holdfast
