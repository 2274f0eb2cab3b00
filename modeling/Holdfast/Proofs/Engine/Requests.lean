import Holdfast.Proofs.Engine.World

/-!
# Requested backups are served in their order and answered once

- `Ledger.Queued`: the requests that were accepted are those that began, those in line and those
  in the inbox, in this order;
- `Ledger.Answered`: an observer has heard the results of its pass, and the end of the pass once
  the pass is over;
- `World.requests_served`: **one pass at a time works on its packages, requests begin in the order
  in which they were accepted, and each is answered exactly once**.

A pass tells the loop that it is done before it tells its observer. In between the loop may start
the next pass (`World.next_overtakes_end`), so that two passes are on their way for a while.
-/

namespace Holdfast

/-- The requested backup in a command. -/
def Command.request? : Command → Option BackupOrder
  | .requestBackup order => some order
  | _ => none

theorem Command.request?_of_not_counts (command : Command) (h : command.counts = false) :
    command.request? = none := by
  cases command <;> first | rfl | cases h

/-- Whether an observer was told the end of a pass. -/
def Device.Notice.isEnd : Notice → Bool
  | .finished _ _ => true
  | _ => false

/-- What the task of a number told its observer, oldest first. -/
def heardBy (heard : List (Nat × Device.Notice)) (number : Nat) : List Device.Notice :=
  (heard.filter fun entry => entry.1 = number).map (·.2)

theorem heardBy_append (heard heard' : List (Nat × Device.Notice)) (number : Nat) :
    heardBy (heard ++ heard') number = heardBy heard number ++ heardBy heard' number := by
  simp [heardBy]

theorem heardBy_self (said : List Device.Notice) (number : Nat) :
    heardBy (said.map fun notice => (number, notice)) number = said := by
  simp [heardBy, List.filter_map, Function.comp_def]

theorem heardBy_other {heard : List (Nat × Device.Notice)} {number : Nat}
    (h : ∀ entry ∈ heard, entry.1 ≠ number) : heardBy heard number = [] := by
  rw [heardBy, List.filter_eq_nil_iff.2 (by simpa using h)]
  rfl

namespace Ledger

/-- The line of requested backups: what was accepted has begun, waits, or is queued. -/
structure Queued (l : Ledger) (accepted : List BackupOrder) (begun : List (Nat × BackupOrder)) :
    Prop where
  order : accepted = begun.map (·.2) ++ l.requests ++ l.commands.filterMap Command.request?
  leases : (accepted.map (·.lease.number)).Nodup
  below : ∀ order ∈ accepted, order.lease.number < l.nextLease
  /-- Nobody waits for nothing. -/
  line : l.requests ≠ [] → 0 < l.passes

namespace Queued

variable {l l' : Ledger} {accepted : List BackupOrder} {begun : List (Nat × BackupOrder)}

/-- What does not touch the line. -/
theorem frame (h : l.Queued accepted begun) (hrequests : l'.requests = l.requests)
    (hcommands : l'.commands.filterMap Command.request? = l.commands.filterMap Command.request?)
    (hnext : l.nextLease ≤ l'.nextLease) (hpasses : l.passes ≤ l'.passes) :
    l'.Queued accepted begun where
  order := by rw [hrequests, hcommands]; exact h.order
  leases := h.leases
  below := fun order hmem => Nat.lt_of_lt_of_le (h.below order hmem) hnext
  line := fun hwaiting => Nat.lt_of_lt_of_le (h.line (hrequests ▸ hwaiting)) hpasses

/-- A request is accepted. -/
theorem request (h : l.Queued accepted begun) {order : BackupOrder}
    (hnumber : order.lease.number = l.nextLease) :
    ((l.lend order.lease).queue (.requestBackup order)).Queued (accepted ++ [order])
      (begun ++ []) where
  order := by simp [h.order, queue, lend, Command.request?]
  leases := nodup_concat_next h.leases h.below hnumber
  below := by
    intro other hmem
    show other.lease.number < l.nextLease + 1
    rcases List.mem_append.1 hmem with hmem | hmem
    · have := h.below other hmem
      omega
    · rw [List.mem_singleton.1 hmem]
      omega
  line := h.line

end Queued

theorem Deed.queued {l l' : Ledger} {hand hand' : List Lease} {gain : Gain}
    {accepted : List BackupOrder} {begun : List (Nat × BackupOrder)}
    (hdeed : Deed l hand l' hand' gain) (h : l.Queued accepted begun) :
    l'.Queued (accepted ++ gain.accepted) (begun ++ gain.begun) := by
  cases hdeed with
  | settle _ _ | giveBack _ | nextRestore _ | wipe =>
    simp only [List.append_nil]
    exact h.frame rfl rfl (Nat.le_refl _) (Nat.le_refl _)
  | lend _ | full _ _ _ | clear _ =>
    simp only [List.append_nil]
    exact h.frame rfl rfl (Nat.le_succ _) (Nat.le_refl _)
  | drain _ _ _ =>
    simp only [List.append_nil]
    exact h.frame rfl rfl (Nat.le_succ _) (Nat.le_succ _)
  | submit _ _ =>
    simp only [List.append_nil]
    refine h.frame rfl ?_ (Nat.le_succ _) (Nat.le_refl _)
    simp [queue, Ledger.lend, Command.request?, List.filterMap_cons]
  | hold hcommands | restore hcommands =>
    simp only [List.append_nil]
    refine h.frame rfl ?_ (Nat.le_refl _) (Nat.le_refl _)
    simp [hcommands, enter, Command.request?, List.filterMap_cons]
  | request _ hnumber => exact h.request hnumber
  | wait hcommands hpasses =>
    simp only [List.append_nil]
    exact
      { h with
        order := by simp [h.order, hcommands, Command.request?]
        line := fun _ => hpasses }
  | serve hcommands hpasses _ =>
    -- nobody waits while no pass runs
    have hnobody : l.requests = [] := by
      by_contra hwaiting
      have := h.line hwaiting
      omega
    simp only [List.append_nil]
    exact
      { h with
        order := by
          simp [h.order, hcommands, hnobody, Command.request?, startPass, enter, withKeys]
        line := fun _ => Nat.succ_pos _ }
  | hear hcommands hrequests =>
    simp only [List.append_nil]
    exact
      { h with
        order := by simp [h.order, hcommands, Command.request?, List.filterMap_cons]
        line := fun hwaiting => absurd hrequests hwaiting }
  | next hcommands hrequests _ =>
    simp only [List.append_nil]
    exact
      { h with
        order := by
          simp [h.order, hcommands, hrequests, Command.request?, List.filterMap_cons, startPass,
            enter, withKeys]
        line := fun _ => Nat.succ_pos _ }

/-- A turn does not touch the line. -/
theorem Turn.queued {l l' : Ledger} {e : Seat} {greeted : List String} {said : List Device.Notice}
    {accepted : List BackupOrder} {begun : List (Nat × BackupOrder)}
    (hturn : Turn l e greeted said l') (h : l.Queued accepted begun) :
    l'.Queued accepted begun := by
  obtain ⟨hcommands, hrequests, -, hpasses, hnext, -, -⟩ := hturn.frame
  refine h.frame hrequests ?_ hnext (Nat.le_of_eq hpasses.symm)
  rcases hcommands with hsame | hend
  · rw [hsame]
  · rw [hend, List.filterMap_append]
    exact List.append_nil _

/-! ## Answers -/

/-- What observers have heard: the results of a pass while it runs, and its end after them. -/
structure Answered (l : Ledger) (begun : List (Nat × BackupOrder))
    (heard : List (Nat × Device.Notice)) : Prop where
  numbers : (begun.map (·.1)).Nodup
  below : ∀ pass ∈ begun, pass.1 < l.nextNumber
  heardBelow : ∀ entry ∈ heard, entry.1 < l.nextNumber
  tasks : ∀ pass ∈ begun, ∀ e ∈ l.seats, e.number = pass.1 →
    e.job.kind = .keyValue ∧ e.job.observer = pass.2.observer
  answers : ∀ pass ∈ begun, ∃ results status, Device.AreResults pass.2.observer results ∧
    heardBy heard pass.1 =
      results ++ if pass.1 ∈ l.seats.map (·.number) then []
        else System.finishedNotice pass.2.observer status

namespace Answered

variable {l l' : Ledger} {begun : List (Nat × BackupOrder)} {heard : List (Nat × Device.Notice)}

/-- The tasks are the same, in whatever order. -/
theorem reorder (h : l.Answered begun heard) (hperm : l.seats.Perm l'.seats)
    (hnext : l.nextNumber ≤ l'.nextNumber) : l'.Answered begun heard where
  numbers := h.numbers
  below := fun pass hmem => Nat.lt_of_lt_of_le (h.below pass hmem) hnext
  heardBelow := fun entry hmem => Nat.lt_of_lt_of_le (h.heardBelow entry hmem) hnext
  tasks := fun pass hmem e he => h.tasks pass hmem e (hperm.mem_iff.2 he)
  answers := by
    intro pass hmem
    obtain ⟨results, status, hresults, hheard⟩ := h.answers pass hmem
    refine ⟨results, status, hresults, ?_⟩
    rwa [if_congr ((hperm.map (·.number)).mem_iff (a := pass.1)) rfl rfl] at hheard

/-- A task begins that is none of the requested passes so far. -/
theorem enter (h : l.Answered begun heard) {e : Seat} (hseats : l'.seats = l.seats ++ [e])
    (hnumber : e.number = l.nextNumber) (hnext : l'.nextNumber = l.nextNumber + 1) :
    l'.Answered begun heard where
  numbers := h.numbers
  below := fun pass hmem => by have := h.below pass hmem; omega
  heardBelow := fun entry hmem => by have := h.heardBelow entry hmem; omega
  tasks := by
    intro pass hmem other hother heq
    rw [hseats, List.mem_append, List.mem_singleton] at hother
    rcases hother with hother | rfl
    · exact h.tasks pass hmem other hother heq
    · have := h.below pass hmem
      omega
  answers := by
    intro pass hmem
    obtain ⟨results, status, hresults, hheard⟩ := h.answers pass hmem
    have hlt := h.below pass hmem
    refine ⟨results, status, hresults, ?_⟩
    have hiff : pass.1 ∈ l'.seats.map (·.number) ↔ pass.1 ∈ l.seats.map (·.number) := by
      rw [hseats, List.map_append, List.mem_append, List.map_singleton, List.mem_singleton]
      exact or_iff_left (by omega)
    rwa [if_congr hiff rfl rfl]

/-- The task of a requested pass begins, and its observer has heard nothing yet. -/
theorem begin_pass (h : l.Answered begun heard) {e : Seat} {order : BackupOrder}
    (hseats : l'.seats = l.seats ++ [e]) (hnumber : e.number = l.nextNumber)
    (hnext : l'.nextNumber = l.nextNumber + 1) (hkind : e.job.kind = .keyValue)
    (hobserver : e.job.observer = order.observer) (hold : ∀ e ∈ l.seats, e.number < l.nextNumber) :
    l'.Answered (begun ++ [(l.nextNumber, order)]) heard := by
  have henter := h.enter hseats hnumber hnext
  have hcases : ∀ pass ∈ begun ++ [(l.nextNumber, order)],
      pass ∈ begun ∨ pass = (l.nextNumber, order) := by
    intro pass hmem
    rwa [List.mem_append, List.mem_singleton] at hmem
  refine ⟨nodup_concat_next h.numbers h.below rfl, ?_, henter.heardBelow, ?_, ?_⟩
  · intro pass hmem
    rcases hcases pass hmem with hmem | rfl
    · exact henter.below pass hmem
    · rw [hnext]
      exact Nat.lt_succ_self _
  · intro pass hmem other hother heq
    rcases hcases pass hmem with hmem | rfl
    · exact henter.tasks pass hmem other hother heq
    · rw [hseats, List.mem_append, List.mem_singleton] at hother
      rcases hother with hother | rfl
      · have := hold other hother
        omega
      · exact ⟨hkind, hobserver⟩
  · intro pass hmem
    rcases hcases pass hmem with hmem | rfl
    · exact henter.answers pass hmem
    · have hpresent : l.nextNumber ∈ l'.seats.map (·.number) := by
        rw [hseats, ← hnumber]
        exact List.mem_map_of_mem (List.mem_append_right _ (List.mem_singleton_self e))
      refine ⟨[], .success, fun _ hmem => absurd hmem List.not_mem_nil, ?_⟩
      rw [if_pos hpresent]
      exact heardBy_other fun entry hentry => Nat.ne_of_lt (h.heardBelow entry hentry)

/-- A task has told something, and it goes on or ends. -/
theorem tell {e : Seat} {said : List Device.Notice} (h : l.Answered begun heard)
    (hmem : e ∈ l.seats) (hnext : l.nextNumber ≤ l'.nextNumber)
    (hbelow : e.number < l.nextNumber)
    (hothers : ∀ number, number ≠ e.number →
      (number ∈ l'.seats.map (·.number) ↔ number ∈ l.seats.map (·.number)))
    (htasks : ∀ other ∈ l'.seats, other ∈ l.seats ∨
      other.number = e.number ∧ other.job.kind = e.job.kind ∧ other.job.observer = e.job.observer)
    (hsaid : ∃ results status, e.Reports results ∧
      said = results ++ if e.number ∈ l'.seats.map (·.number) then []
        else System.finishedNotice e.job.observer status) :
    l'.Answered begun (heard ++ said.map fun notice => (e.number, notice)) where
  numbers := h.numbers
  below := fun pass hmem => Nat.lt_of_lt_of_le (h.below pass hmem) hnext
  heardBelow := by
    intro entry hentry
    rcases List.mem_append.1 hentry with hentry | hentry
    · exact Nat.lt_of_lt_of_le (h.heardBelow entry hentry) hnext
    · obtain ⟨notice, -, rfl⟩ := List.mem_map.1 hentry
      exact Nat.lt_of_lt_of_le hbelow hnext
  tasks := by
    intro pass hpass other hother heq
    rcases htasks other hother with hold | ⟨hnumber, hkind, hobserver⟩
    · exact h.tasks pass hpass other hold heq
    · rw [hkind, hobserver]
      exact h.tasks pass hpass e hmem (hnumber.symm.trans heq)
  answers := by
    intro pass hpass
    obtain ⟨results, status, hresults, hheard⟩ := h.answers pass hpass
    rw [heardBy_append]
    by_cases hself : pass.1 = e.number
    · -- the pass whose task made the step was still running
      obtain ⟨results', status', hreports, hsaid⟩ := hsaid
      have hobserver := (h.tasks pass hpass e hmem hself.symm).2
      rw [if_pos (hself ▸ List.mem_map_of_mem hmem), List.append_nil] at hheard
      rw [Seat.Reports, hobserver] at hreports
      rw [hobserver] at hsaid
      refine ⟨results ++ results', status', ?_, ?_⟩
      · intro notice hnotice
        rcases List.mem_append.1 hnotice with hnotice | hnotice
        · exact hresults notice hnotice
        · exact hreports notice hnotice
      · rw [hheard, hself, heardBy_self, List.append_assoc, ← hsaid]
    · have hsilent : heardBy (said.map fun notice => (e.number, notice)) pass.1 = [] := by
        refine heardBy_other fun entry hentry => ?_
        obtain ⟨notice, -, rfl⟩ := List.mem_map.1 hentry
        exact fun heq => hself heq.symm
      refine ⟨results, status, hresults, ?_⟩
      rw [hsilent, List.append_nil, hheard, if_congr (hothers pass.1 hself) rfl rfl]

/-- A task has told results and goes on. -/
theorem goOn {e e' : Seat} {said : List Device.Notice} (h : l.Answered begun heard)
    (hmem : e ∈ l.seats) (hbelow : e.number < l.nextNumber)
    (hseats : l'.seats = (l.reseat e').seats) (hnext : l.nextNumber ≤ l'.nextNumber)
    (hnumber : e'.number = e.number) (hkind : e'.job.kind = e.job.kind)
    (hobserver : e'.job.observer = e.job.observer) (hreports : e.Reports said) :
    l'.Answered begun (heard ++ said.map fun notice => (e.number, notice)) := by
  have hnumbers : l'.seats.map (·.number) = l.seats.map (·.number) := by
    rw [hseats, reseat_numbers]
  refine h.tell hmem hnext hbelow (fun number _ => by rw [hnumbers]) (fun other hother => ?_)
    ⟨said, .success, hreports, ?_⟩
  · rw [hseats] at hother
    obtain ⟨old, hold, rfl⟩ := List.mem_map.1 hother
    split
    · exact .inr ⟨hnumber, hkind, hobserver⟩
    · exact .inl hold
  · rw [hnumbers, if_pos (List.mem_map_of_mem hmem), List.append_nil]

end Answered

/-- **A deed answers nobody**, and a pass that begins in it has not answered yet. -/
theorem Deed.answered {l l' : Ledger} {hand hand' : List Lease} {gain : Gain}
    {begun : List (Nat × BackupOrder)} {heard : List (Nat × Device.Notice)}
    (hdeed : Deed l hand l' hand' gain) (hold : ∀ e ∈ l.seats, e.number < l.nextNumber)
    (h : l.Answered begun heard) : l'.Answered (begun ++ gain.begun) heard := by
  cases hdeed with
  | settle _ hperm =>
    rw [List.append_nil]
    exact h.reorder hperm (Nat.le_refl _)
  | lend _ | giveBack _ | request _ _ | submit _ _ | wait _ _ | hear _ _ | hold _ =>
    rw [List.append_nil]
    exact h.reorder (.refl _) (Nat.le_refl _)
  | serve _ _ _ | next _ _ _ => exact h.begin_pass rfl rfl rfl rfl rfl hold
  | restore _ | nextRestore _ | drain _ _ _ | full _ _ _ | wipe | clear _ =>
    rw [List.append_nil]
    exact h.enter rfl rfl rfl

/-- **A turn tells results, and the end of its task when that has come.** -/
theorem Turn.answered {l l' : Ledger} {e : Seat} {greeted : List String}
    {said : List Device.Notice} {begun : List (Nat × BackupOrder)}
    {heard : List (Nat × Device.Notice)} (hturn : Turn l e greeted said l') (hmem : e ∈ l.seats)
    (hbelow : e.number < l.nextNumber) (h : l.Answered begun heard) :
    l'.Answered begun (heard ++ said.map fun notice => (e.number, notice)) := by
  obtain ⟨-, -, -, -, -, hnext, -⟩ := hturn.frame
  rcases hturn.outcome with ⟨e', halike, hreports, hseats⟩ |
    ⟨results, status, hreports, hsaid, -, hseats⟩
  · exact h.goOn hmem hbelow hseats hnext halike.number halike.kind halike.observer hreports
  · refine h.tell hmem hnext hbelow (fun number hne => ?_) (fun other hother => ?_)
      ⟨results, status, hreports, ?_⟩
    · rw [hseats]
      simp only [List.mem_map, List.mem_filter, decide_eq_true_eq]
      constructor
      · rintro ⟨other, ⟨hother, -⟩, rfl⟩
        exact ⟨other, hother, rfl⟩
      · rintro ⟨other, hother, rfl⟩
        exact ⟨other, ⟨hother, hne⟩, rfl⟩
    · rw [hseats] at hother
      exact .inl (List.mem_filter.1 hother).1
    · rw [hsaid, hseats, if_neg]
      simp

end Ledger

/-! ## Ends -/

namespace Ledger

theorem Deed.told {l l' : Ledger} {hand hand' : List Lease} {gain : Gain}
    (hdeed : Deed l hand l' hand' gain) : l'.told = l.told := by
  cases hdeed <;> rfl

/-- Only tasks tell the end of a pass. -/
theorem Move.ends {l l' : Ledger} {hand hand' : List Lease} {gain : Gain}
    (hmove : Move l hand l' hand' gain) :
    l'.told.filter Device.Notice.isEnd = l.told.filter Device.Notice.isEnd := by
  obtain ⟨k, observer, said, hresults, hdeed⟩ := hmove
  have hnone : said.filter Device.Notice.isEnd = [] := by
    refine List.filter_eq_nil_iff.2 fun notice hmem => ?_
    obtain ⟨id, package, status, rfl, -⟩ := hresults notice hmem
    exact Bool.false_ne_true
  rw [hdeed.told]
  show (l.told ++ said).filter _ = _
  rw [List.filter_append, hnone, List.append_nil]

end Ledger

namespace Ledger

variable {l l' : Ledger} {accepted : List BackupOrder} {begun : List (Nat × BackupOrder)}
  {heard : List (Nat × Device.Notice)}

/-- Requested backups are in line, and answered as far as they have come. -/
structure Served (l : Ledger) (accepted : List BackupOrder) (begun : List (Nat × BackupOrder))
    (heard : List (Nat × Device.Notice)) : Prop where
  queued : l.Queued accepted begun
  answered : l.Answered begun heard
  ends : l.told.filter Device.Notice.isEnd = (heard.map (·.2)).filter Device.Notice.isEnd

theorem Move.served {hand hand' : List Lease} {gain : Gain} (hmove : Move l hand l' hand' gain)
    (hbelow : ∀ e ∈ l.seats, e.number < l.nextNumber) (h : l.Served accepted begun heard) :
    l'.Served (accepted ++ gain.accepted) (begun ++ gain.begun) heard := by
  have hends := hmove.ends
  obtain ⟨k, -, said, -, hdeed⟩ := hmove
  have hqueued : (l.later k said).Queued accepted begun :=
    h.queued.frame rfl rfl (Nat.le_refl _) (Nat.le_refl _)
  have hanswered : (l.later k said).Answered begun heard :=
    h.answered.reorder (.refl _) (Nat.le_add_right _ _)
  have hbelow' : ∀ e ∈ (l.later k said).seats, e.number < (l.later k said).nextNumber :=
    fun e hmem => Nat.lt_of_lt_of_le (hbelow e hmem) (Nat.le_add_right _ _)
  exact ⟨hdeed.queued hqueued, hdeed.answered hbelow' hanswered, hends.trans h.ends⟩

theorem Turn.served {e : Seat} {greeted : List String} {said : List Device.Notice}
    (hturn : Turn l e greeted said l') (hmem : e ∈ l.seats) (hbelow : e.number < l.nextNumber)
    (h : l.Served accepted begun heard) :
    l'.Served accepted begun (heard ++ said.map fun notice => (e.number, notice)) := by
  refine ⟨hturn.queued h.queued, hturn.answered hmem hbelow h.answered, ?_⟩
  rw [hturn.told, List.filter_append, h.ends, List.map_append, List.filter_append, List.map_map]
  simp [Function.comp_def]

theorem blank_served : blank.Served [] [] [] where
  queued := ⟨rfl, List.nodup_nil, fun _ h => absurd h List.not_mem_nil, fun h => absurd rfl h⟩
  answered := ⟨List.nodup_nil, fun _ h => absurd h List.not_mem_nil,
    fun _ h => absurd h List.not_mem_nil, fun _ h => absurd h List.not_mem_nil,
    fun _ h => absurd h List.not_mem_nil⟩
  ends := rfl

end Ledger

namespace World

variable {w w' : World}

/-- Requested backups are in line, and answered as far as they have come. -/
def Served (w : World) : Prop := w.system.ledger.Served w.accepted w.begun w.heard

theorem Change.served (hchange : w.Change w') (hs : w.Sound) (h : w.Served) : w'.Served := by
  unfold Served
  cases hchange with
  | move hmove haccepted hbegun hheard _ =>
    rw [haccepted, hbegun, hheard]
    exact hmove.served hs.below h
  | turn hmem hturn _ haccepted hbegun hheard _ =>
    have hseat := List.mem_map_of_mem (f := Task.seat) hmem
    rw [haccepted, hbegun, hheard]
    exact hturn.served hseat (hs.below _ hseat) h

theorem opened_served {settings : Settings} {disk : Disk} {device : Device} {s : System}
    (hstart : System.start settings disk device.fresh = .ok s) : (opened s).Served := by
  have hblank : (opened s).system.ledger = Ledger.blank := System.start_ledger hstart
  rw [Served, hblank]
  exact Ledger.blank_served

/-! ## Passes that run -/

/-- The key-value passes that have not announced their end, drained or requested. -/
def passes (w : World) : List Task :=
  w.system.engine.tasks.filter fun t => t.job.kind = .keyValue ∧ t.stage.isClosing = false

/-- Whether the task of a number is still on its way. -/
def runs (w : World) (number : Nat) : Prop := number ∈ w.system.engine.tasks.map (·.number)

instance (w : World) (number : Nat) : Decidable (w.runs number) :=
  inferInstanceAs (Decidable (_ ∈ _))

theorem runs_iff (number : Nat) :
    number ∈ w.system.ledger.seats.map (·.number) ↔ w.runs number := by
  show number ∈ (w.system.engine.tasks.map Task.seat).map (·.number) ↔ _
  rw [List.map_map]
  rfl

/-- The counter of passes counts those that have not announced their end and those whose end is
queued. -/
theorem passes_counted (hs : w.Sound) :
    w.system.engine.runningPasses =
      w.passes.length + w.system.engine.inbox.countP Command.isPassEnd := by
  have hseats : w.system.ledger.seats.countP Seat.isPass = w.passes.length := by
    show (w.system.engine.tasks.map Task.seat).countP Seat.isPass = _
    rw [List.countP_map, passes, ← List.countP_eq_length_filter]
    refine List.countP_congr fun t _ => ?_
    simp [Seat.isPass, Task.seat]
  have hinbox : w.system.ledger.commands.countP Command.isPassEnd =
      w.system.engine.inbox.countP Command.isPassEnd := by
    show (w.system.engine.inbox.filter Command.counts).countP Command.isPassEnd = _
    rw [List.countP_filter]
    refine List.countP_congr fun command _ => ?_
    cases command <;> simp [Command.isPassEnd, Command.counts]
  have hpasses := hs.passes
  rwa [hseats, hinbox] at hpasses

theorem passes_le_one (hs : w.Sound) : w.passes.length ≤ 1 := by
  have hsingle : w.system.engine.runningPasses ≤ 1 := hs.single
  have hcount := passes_counted hs
  omega

/-- Whoever waits, waits for a pass that has not announced its end or whose end is queued. -/
theorem Served.waiting (h : w.Served) (hs : w.Sound)
    (hwaiting : w.system.engine.waitingRequests ≠ []) :
    w.passes ≠ [] ∨ .passFinished ∈ w.system.engine.inbox := by
  have hpos : 0 < w.system.engine.runningPasses := h.queued.line hwaiting
  have hcount := passes_counted hs
  rcases Nat.eq_zero_or_pos w.passes.length with hnone | hsome
  · right
    obtain ⟨command, hmem, hend⟩ := List.countP_pos_iff.1
      (show 0 < w.system.engine.inbox.countP Command.isPassEnd by omega)
    cases command with
    | passFinished => exact hmem
    | _ => cases hend
  · exact .inl (List.length_pos_iff.1 hsome)

/-- A request that is answered with success is accepted. -/
theorem request_accepted {caller : Caller} {packages : List String}
    {observer : Option String} {nonIncremental : Bool}
    (hsuccess : (w.system.requestBackup caller packages observer nonIncremental).1 = .success) :
    ∃ order : BackupOrder, order.observer = observer ∧
      (w.happen (.call (.requestBackup caller packages observer nonIncremental))).accepted =
        w.accepted ++ [order] := by
  rcases @System.requestBackup_move w.system w.hand caller packages observer nonIncremental with
    ⟨hrefused, -⟩ | ⟨order, hobserver, -, hlast, -⟩ | ⟨-, haborted, -⟩
  · exact absurd hsuccess hrefused
  · refine ⟨order, hobserver, ?_⟩
    show w.accepted ++ Call.accepts w.system _ = _
    rw [Call.accepts_eq hsuccess hlast]
  · cases haborted.symm.trans hsuccess

/-- What was accepted has begun, waits, or is queued. -/
theorem Served.order (h : w.Served) :
    w.accepted = w.begun.map (·.2) ++ w.system.engine.waitingRequests ++
      w.system.engine.inbox.filterMap Command.request? := by
  have horder := h.queued.order
  rwa [w.system.commands_filterMap Command.request?_of_not_counts] at horder

/-- What the observer of a requested pass has heard. -/
theorem Served.answer (h : w.Served) {pass : Nat × BackupOrder} (hpass : pass ∈ w.begun) :
    ∃ results status, Device.AreResults pass.2.observer results ∧
      heardBy w.heard pass.1 =
        results ++ if w.runs pass.1 then [] else System.finishedNotice pass.2.observer status := by
  obtain ⟨results, status, hresults, hheard⟩ := h.answered.answers pass hpass
  refine ⟨results, status, hresults, ?_⟩
  rwa [if_congr (runs_iff pass.1) rfl rfl] at hheard

/-- The task of a requested pass is a key-value task. -/
theorem Served.mem_tasks (h : w.Served) {pass : Nat × BackupOrder} (hpass : pass ∈ w.begun)
    (hruns : w.runs pass.1) : ∃ t ∈ w.system.engine.tasks, t.job.kind = .keyValue := by
  obtain ⟨t, ht, hnumber⟩ := List.mem_map.1 hruns
  obtain ⟨hkind, -⟩ := h.answered.tasks pass hpass t.seat (List.mem_map_of_mem ht) hnumber
  exact ⟨t, ht, hkind⟩

/-- **One pass at a time, first come first served, answered once.** After every run without a
shutdown at most one key-value pass has not announced its end, and the counter of passes counts it
and the announcements that the loop has not heard. A request that is answered with success is
accepted. The requested backups that were accepted are those that began, in the order of acceptance,
then those that wait, then those that are queued; no request occurs twice, and each that began has a
task of its own. While that task is on its way its observer has heard results only, afterwards the
results and then the end, once; ends come from nobody else. With no key-value task left and no
command queued, every accepted request has begun and is over. Whoever waits, waits for a pass that
has not announced its end or whose end is queued. -/
theorem requests_served {settings : Settings} {disk : Disk} {device : Device} {s : System}
    (hstart : System.start settings disk device.fresh = .ok s) (events : List Event) :
    let w := (opened s).run events
    let e := w.system.engine
    (w.passes.length ≤ 1 ∧
        e.runningPasses = w.passes.length + e.inbox.countP Command.isPassEnd) ∧
      (∀ caller packages observer nonIncremental,
        (w.system.requestBackup caller packages observer nonIncremental).1 = .success →
          ∃ order : BackupOrder, order.observer = observer ∧
            (w.happen (.call (.requestBackup caller packages observer nonIncremental))).accepted =
              w.accepted ++ [order]) ∧
      (w.accepted =
          w.begun.map (·.2) ++ e.waitingRequests ++ e.inbox.filterMap Command.request? ∧
        (w.accepted.map (·.lease.number)).Nodup ∧ (w.begun.map (·.1)).Nodup) ∧
      ((∀ pass ∈ w.begun, ∃ results status, Device.AreResults pass.2.observer results ∧
          heardBy w.heard pass.1 =
            results ++ if w.runs pass.1 then [] else System.finishedNotice pass.2.observer status) ∧
        w.system.ledger.told.filter Device.Notice.isEnd =
          (w.heard.map (·.2)).filter Device.Notice.isEnd) ∧
      ((∀ t ∈ e.tasks, t.job.kind ≠ .keyValue) → e.inbox = [] →
        w.begun.map (·.2) = w.accepted ∧ ∀ pass ∈ w.begun, ¬ w.runs pass.1) ∧
      (e.waitingRequests ≠ [] → w.passes ≠ [] ∨ .passFinished ∈ e.inbox) := by
  intro w e
  obtain ⟨hs, h⟩ : w.Sound ∧ w.Served :=
    run_invariant (fun _ _ hs hchange h => hchange.served hs h) events (opened_sound hstart)
      (opened_served hstart)
  refine ⟨⟨passes_le_one hs, passes_counted hs⟩, fun _ _ _ _ => request_accepted,
    ⟨h.order, h.queued.leases, h.answered.numbers⟩,
    ⟨fun pass hpass => h.answer hpass, h.ends⟩, fun htasks hinbox => ⟨?_, ?_⟩, h.waiting hs⟩
  · have hnobody : e.waitingRequests = [] := by
      by_contra hwaiting
      rcases h.waiting hs hwaiting with hrunning | hqueued
      · obtain ⟨t, ht⟩ := List.exists_mem_of_ne_nil _ hrunning
        obtain ⟨hmem, hpass⟩ := List.mem_filter.1 ht
        exact htasks t hmem (of_decide_eq_true hpass).1
      · exact absurd (hinbox ▸ hqueued) List.not_mem_nil
    have horder := h.order
    rw [show w.system.engine.waitingRequests = [] from hnobody,
      show w.system.engine.inbox = [] from hinbox] at horder
    simpa using horder.symm
  · intro pass hpass hruns
    obtain ⟨t, ht, hkind⟩ := h.mem_tasks hpass hruns
    exact htasks t ht hkind

theorem requests_served_backupOfOne :
    ∃ s, System.start {} {} deviceOfOne.fresh = .ok s ∧
      let w := (opened s).run backupOfOne
      w.accepted.length = 1 ∧ w.begun.map (·.1) = [0] ∧ ¬ w.runs 0 ∧
        ∃ results status, Device.AreResults (some "observer") results ∧
          heardBy w.heard 0 = results ++ [.finished "observer" status] := by
  obtain ⟨s, hstart, hcheck⟩ := @start_check {} {} deviceOfOne.fresh (fun s =>
    let w := (opened s).run backupOfOne
    w.system.engine.tasks.isEmpty && w.system.engine.inbox.isEmpty && w.accepted.length == 1 &&
      w.begun.map (fun pass => (pass.1, pass.2.observer)) == [(0, some "observer")])
    (by decide +kernel)
  simp only [Bool.and_eq_true, List.isEmpty_iff, beq_iff_eq] at hcheck
  obtain ⟨⟨⟨htasks, hinbox⟩, haccepted⟩, hbegun⟩ := hcheck
  obtain ⟨pass, hpass, hfields⟩ := List.map_eq_singleton_iff.1 hbegun
  obtain ⟨hnumber, hobserver⟩ := Prod.mk.inj hfields
  obtain ⟨-, -, -, ⟨hanswers, -⟩, hquiet, -⟩ := requests_served hstart backupOfOne
  have hnobody : ∀ t ∈ ((opened s).run backupOfOne).system.engine.tasks,
      t.job.kind ≠ .keyValue := by
    intro t ht
    rw [htasks] at ht
    exact absurd ht List.not_mem_nil
  have hover := (hquiet hnobody hinbox).2 pass
    (by rw [hpass]; exact List.mem_singleton_self _)
  obtain ⟨results, status, hresults, hheard⟩ := hanswers pass
    (by rw [hpass]; exact List.mem_singleton_self _)
  rw [if_neg hover, hnumber, hobserver] at hheard
  rw [hobserver] at hresults
  rw [hnumber] at hover
  exact ⟨s, hstart, haccepted, by rw [hpass]; simp [hnumber], hover, results, status, hresults,
    hheard⟩

/-- Two requests for one package; the first pass has announced its end, and no task has made a step
since. -/
def announcedOfTwo : List Event :=
  [.command, .call (.registerTransport ⟨"local", "vault/Local", "local"⟩), .select "local", .land 0,
    .call (.setEnabled true), .call (.setProvisioned true),
    .call (.requestBackup .system ["app"] (some "first") false), .command] ++
    List.replicate 10 (.task 0) ++
    [.call (.requestBackup .system ["app"] (some "second") false)]

/-- A pass announces its end before it tells its observer, and the loop may act in between. When it
has heard the announcement and a request is queued behind, the next pass is on its way beside the
first. With nothing queued, no pass counts as running and no command is queued, and still the
observer has not heard the end. -/
theorem next_overtakes_end :
    ∃ s, System.start {} {} deviceOfOne.fresh = .ok s ∧
      let w := (opened s).run (announcedOfTwo ++ [.command, .command])
      let w' := (opened s).run (announcedOfTwo.dropLast ++ [.command])
      (w.begun.map (·.2.observer) = [some "first", some "second"] ∧
        (w.system.engine.tasks.countP fun t => t.job.kind = .keyValue) = 2 ∧
        (∀ pass ∈ w.begun, w.runs pass.1) ∧
        w.heard.map (·.2) = [.result "first" "app" .success]) ∧
      w'.system.engine.runningPasses = 0 ∧ w'.system.engine.inbox.length = 0 ∧
        w'.accepted.map (·.observer) = [some "first"] ∧
        w'.heard.map (·.2) = [.result "first" "app" .success] := by
  obtain ⟨s, hstart, hcheck⟩ := @start_check {} {} deviceOfOne.fresh (fun s =>
    let w := (opened s).run (announcedOfTwo ++ [.command, .command])
    let w' := (opened s).run (announcedOfTwo.dropLast ++ [.command])
    decide ((w.begun.map (·.2.observer) = [some "first", some "second"] ∧
        (w.system.engine.tasks.countP fun t => t.job.kind = .keyValue) = 2 ∧
        (∀ pass ∈ w.begun, w.runs pass.1) ∧
        w.heard.map (·.2) = [.result "first" "app" .success]) ∧
      w'.system.engine.runningPasses = 0 ∧ w'.system.engine.inbox.length = 0 ∧
        w'.accepted.map (·.observer) = [some "first"] ∧
        w'.heard.map (·.2) = [.result "first" "app" .success])) (by decide +kernel)
  exact ⟨s, hstart, of_decide_eq_true hcheck⟩

end World

end Holdfast
