import Holdfast.Proofs.Engine.Move
import Mathlib.Data.List.Perm.Basic

/-!
# The books balance

What was taken and not given back belongs to somebody who will give it back. Every deed and
every turn of a task keeps this so.

- `Ledger.held`: the leases in the hands of tasks, of those who wait and of queued commands;
- `Ledger.Sound`: the balance of leases, tokens, wake locks, passes and agents;
- `Ledger.Move.sound`, `Ledger.Turn.sound`: **the balance is kept** by everything that happens.
-/

namespace Holdfast

/-- The next number is a new one. -/
theorem nodup_cons_next {α : Type} {number : α → Nat} {items : List α} {item : α} {next : Nat}
    (h : (items.map number).Nodup) (hbelow : ∀ other ∈ items, number other < next)
    (hnext : number item = next) : ((item :: items).map number).Nodup := by
  rw [List.map_cons, List.nodup_cons]
  refine ⟨fun hmem => ?_, h⟩
  obtain ⟨other, hother, heq⟩ := List.mem_map.1 hmem
  have := hbelow other hother
  omega

theorem nodup_concat_next {α : Type} {number : α → Nat} {items : List α} {item : α} {next : Nat}
    (h : (items.map number).Nodup) (hbelow : ∀ other ∈ items, number other < next)
    (hnext : number item = next) : ((items ++ [item]).map number).Nodup :=
  ((List.perm_append_singleton item items).map number).nodup_iff.2
    (nodup_cons_next h hbelow hnext)

/-- One item, and all others by their numbers. -/
theorem perm_cons_filter {α : Type} {number : α → Nat} {items : List α} {item : α}
    (hnodup : (items.map number).Nodup) (hmem : item ∈ items) :
    items.Perm (item :: items.filter fun other => number other ≠ number item) := by
  induction items with
  | nil => cases hmem
  | cons first items ih =>
    rw [List.map_cons, List.nodup_cons] at hnodup
    rcases List.mem_cons.1 hmem with rfl | hmem
    · have hothers : items.filter (fun other => number other ≠ number item) = items := by
        refine List.filter_eq_self.2 fun other hother => ?_
        have hne : number other ≠ number item := fun heq =>
          hnodup.1 (heq ▸ List.mem_map_of_mem hother)
        simpa using hne
      rw [List.filter_cons_of_neg (by simp), hothers]
    · have hne : number first ≠ number item := fun heq =>
        hnodup.1 (heq ▸ List.mem_map_of_mem hmem)
      rw [List.filter_cons_of_pos (by simpa using hne)]
      exact ((ih hnodup.2 hmem).cons first).trans (.swap _ _ _)

/-- One item among the others: what is left of the list, and what comes of the list when the item is
replaced or dropped. -/
theorem exists_rest {α : Type} {number : α → Nat} {items : List α} {item : α}
    (hnodup : (items.map number).Nodup) (hmem : item ∈ items) :
    ∃ rest, items.Perm (item :: rest) ∧
      (∀ item', number item' = number item →
        (items.map fun other => if number other = number item' then item' else other).Perm
          (item' :: rest)) ∧
      (items.filter fun other => number other ≠ number item).Perm rest := by
  have hfilter := perm_cons_filter hnodup hmem
  obtain ⟨before, after, rfl⟩ := List.append_of_mem hmem
  have hother : ∀ other ∈ before ++ after, number other ≠ number item := by
    have hnodup' := (List.perm_middle.map number).nodup_iff.1 hnodup
    rw [List.map_cons, List.nodup_cons] at hnodup'
    exact fun other hmem heq => hnodup'.1 (heq ▸ List.mem_map_of_mem hmem)
  refine ⟨before ++ after, List.perm_middle, fun item' hnumber => ?_,
    (hfilter.symm.trans List.perm_middle).cons_inv⟩
  have hsame : ∀ others : List α, others ⊆ before ++ after →
      (others.map fun other => if number other = number item' then item' else other) = others := by
    intro others hsubset
    conv_rhs => rw [← List.map_id' others]
    refine List.map_congr_left fun other hmem => if_neg ?_
    rw [hnumber]
    exact hother other (hsubset hmem)
  rw [List.map_append, List.map_cons, if_pos hnumber.symm, hsame before (by simp),
    hsame after (by simp)]
  exact List.perm_middle

/-- The leases that are out are those of a list, and each number was handed out once. -/
structure Lent (leases : List Lease) (next : Nat) (out : List Lease) : Prop where
  perm : leases.Perm out
  nodup : (leases.map (·.number)).Nodup
  below : ∀ lease ∈ leases, lease.number < next

namespace Lent

variable {leases out out' : List Lease} {next : Nat} {lease : Lease}

theorem congr (h : Lent leases next out) (hperm : out.Perm out') : Lent leases next out' :=
  ⟨h.perm.trans hperm, h.nodup, h.below⟩

theorem lend (h : Lent leases next out) (hnumber : lease.number = next) :
    Lent (lease :: leases) (next + 1) (lease :: out) := by
  refine ⟨h.perm.cons lease, nodup_cons_next h.nodup h.below hnumber, ?_⟩
  intro other hmem
  rcases List.mem_cons.1 hmem with rfl | hmem
  · omega
  · have := h.below other hmem
    omega

theorem reclaim (h : Lent leases next (lease :: out)) :
    Lent (leases.filter fun other => other.number ≠ lease.number) next out := by
  have hmem : lease ∈ leases := h.perm.mem_iff.2 List.mem_cons_self
  exact
    { perm := ((perm_cons_filter h.nodup hmem).symm.trans h.perm).cons_inv
      nodup := h.nodup.sublist (List.filter_sublist.map _)
      below := fun other hother => h.below other (List.mem_filter.1 hother).1 }

end Lent

/-- The lease that a command carries. -/
def Command.lease? : Command → Option Lease
  | .requestBackup order => some order.lease
  | .startRestore order => some order.lease
  | _ => none

theorem Command.lease?_of_not_counts (command : Command) (h : command.counts = false) :
    command.lease? = none := by
  cases command <;> first | rfl | cases h

/-- Whether a command says that a key-value pass ended. -/
def Command.isPassEnd : Command → Bool
  | .passFinished => true
  | _ => false

namespace Seat

/-- Whether a task is a key-value pass that has not announced its end. -/
def isPass (e : Seat) : Bool := e.job.kind == .keyValue && !e.stage.isClosing

/-- Whether a task is a scheduled full backup that has not given up its place. -/
def isFull (e : Seat) : Bool := e.job.kind == .full && !e.stage.isLeaving

/-- A task that is not near its end counts by its kind. -/
theorem isOpen_spec {e : Seat} (h : e.stage.isOpen = true) :
    e.isPass = (e.job.kind == .keyValue) ∧ e.isFull = (e.job.kind == .full) := by
  unfold isPass isFull
  cases hstage : e.stage <;>
    simp [hstage, Stage.isOpen, Stage.isBetween, Stage.isClosing, Stage.isLeaving] at h ⊢

/-- The tokens that are in the table on behalf of a task. -/
def keys (e : Seat) : List OpToken := e.passKey.toList ++ (e.working.map (·.2)).toList

end Seat

/-- A pass that is done with its packages has everything left except for an agent. -/
theorem Seat.Closes.stands {e e' : Seat} {status : Status} (h : e.Closes status e')
    (hkind : e.job.kind = .keyValue ∨ e.job.kind = .full) :
    e'.Fit ∧ e'.isAwake = true ∧ e'.working = none ∧ e'.stage.isLeaving = false ∧
      e'.isPass = false := by
  refine ⟨⟨fun hwipe => ?_, fun _ _ => h.kind ▸ hkind, ?_, ?_⟩, ?_, ?_, ?_, ?_⟩
  · rw [h.kind] at hwipe
    rcases hkind with hkind | hkind <;> cases hwipe.symm.trans hkind
  all_goals
    simp [Seat.isAwake, Seat.working, Seat.isPass, Stage.isLeaving, Stage.isClosing, h.stage]

namespace Ledger

/-- The leases that somebody inside the engine has to give back. -/
def held (l : Ledger) : List Lease :=
  l.seats.filterMap (·.lease) ++ l.requests.map (·.lease) ++ l.restores.map (·.lease) ++
    l.commands.filterMap Command.lease?

/-- The books balance: `hand` are the leases of calls in progress, `bound` the packages whose
agents were bound. -/
structure Sound (l : Ledger) (hand : List Lease) (bound : List String) : Prop where
  lent : Lent l.leases l.nextLease (l.held ++ hand)
  numbers : (l.seats.map (·.number)).Nodup
  below : ∀ e ∈ l.seats, e.number < l.nextNumber
  fit : ∀ e ∈ l.seats, e.Fit
  keys : l.keys ⊆ l.seats.flatMap Seat.keys
  wakes : l.acquired = l.released + l.seats.countP Seat.isAwake
  passes : l.passes = l.seats.countP Seat.isPass + l.commands.countP Command.isPassEnd
  single : l.passes ≤ 1
  fullCount : l.seats.countP Seat.isFull = l.full.toList.length
  fullToken : ∀ e ∈ l.seats, e.isFull = true → e.token = l.full
  agents : bound.Perm (l.unbound ++ l.seats.filterMap (fun e => e.working.map (·.1)))
  looping : l.looping = true
  delayed : l.delayed = []

namespace Sound

variable {l : Ledger} {hand hand' : List Lease} {bound : List String}

theorem congr_hand (h : l.Sound hand bound) (hperm : hand.Perm hand') : l.Sound hand' bound :=
  { h with lent := h.lent.congr (hperm.append_left _) }

theorem later (h : l.Sound hand bound) (k : Nat) (said : List Device.Notice) :
    (l.later k said).Sound hand bound :=
  { h with below := fun e hmem => Nat.lt_of_lt_of_le (h.below e hmem) (Nat.le_add_right _ _) }

theorem withKeys (h : l.Sound hand bound) {keys : List OpToken} (hkeys : keys ⊆ l.keys) :
    (l.withKeys keys).Sound hand bound :=
  { h with keys := List.Subset.trans hkeys h.keys }

/-- The order of the tasks does not matter. -/
theorem reorder (h : l.Sound hand bound) {seats : List Seat} (hperm : l.seats.Perm seats) :
    { l with seats }.Sound hand bound where
  lent := h.lent.congr (((((hperm.filterMap _).append_right _).append_right _).append_right
    _).append_right _)
  numbers := (hperm.map _).nodup_iff.1 h.numbers
  below := fun e hmem => h.below e (hperm.mem_iff.2 hmem)
  fit := fun e hmem => h.fit e (hperm.mem_iff.2 hmem)
  keys := fun key hmem => (hperm.flatMap_right _).mem_iff.1 (h.keys hmem)
  wakes := by rw [← hperm.countP_eq]; exact h.wakes
  passes := by rw [← hperm.countP_eq]; exact h.passes
  single := h.single
  fullCount := by rw [← hperm.countP_eq]; exact h.fullCount
  fullToken := fun e hmem => h.fullToken e (hperm.mem_iff.2 hmem)
  agents := h.agents.trans ((hperm.filterMap _).append_left _)
  looping := h.looping
  delayed := h.delayed

/-! ## Leases change hands -/

theorem lend (h : l.Sound hand bound) {lease : Lease} (hnumber : lease.number = l.nextLease) :
    (l.lend lease).Sound (lease :: hand) bound :=
  { h with lent := (h.lent.lend hnumber).congr List.perm_middle.symm }

theorem reclaim {lease : Option Lease} (h : l.Sound (lease.toList ++ hand) bound) :
    (l.reclaim lease).Sound hand bound := by
  cases lease with
  | none => exact h
  | some lease => exact { h with lent := (h.lent.congr List.perm_middle).reclaim }

/-- A lease goes into a command. -/
theorem queue {command : Command} {lease : Lease} (h : l.Sound (lease :: hand) bound)
    (hlease : command.lease? = some lease) (hend : command.isPassEnd = false) :
    (l.queue command).Sound hand bound :=
  { h with
    lent := by
      refine h.lent.congr (List.perm_iff_count.2 fun x => ?_)
      simp only [held, Ledger.queue, List.filterMap_append, List.filterMap_cons, hlease,
        List.filterMap_nil, List.count_append, List.count_cons, List.count_nil]
      omega
    passes := by
      show _ = _ + (l.commands ++ [command]).countP Command.isPassEnd
      rw [List.countP_append, List.countP_singleton, hend]
      exact h.passes }

/-- A lease comes out of a command. -/
theorem take {command : Command} {lease : Lease} {rest : List Command} (h : l.Sound hand bound)
    (hcommands : l.commands = command :: rest) (hlease : command.lease? = some lease)
    (hend : command.isPassEnd = false) :
    { l with commands := rest }.Sound (lease :: hand) bound :=
  { h with
    lent := by
      refine h.lent.congr (List.perm_iff_count.2 fun x => ?_)
      simp only [held, hcommands, List.filterMap_cons, hlease, List.count_append, List.count_cons]
      omega
    passes := by
      have hpasses := h.passes
      rwa [hcommands, List.countP_cons_of_neg (by simp [hend])] at hpasses }

/-- A requested backup with its lease gets in line. -/
theorem await {order : BackupOrder} (h : l.Sound (order.lease :: hand) bound) :
    { l with requests := l.requests ++ [order] }.Sound hand bound :=
  { h with
    lent := by
      refine h.lent.congr (List.perm_iff_count.2 fun x => ?_)
      simp only [held, List.map_append, List.map_cons, List.map_nil, List.count_append,
        List.count_cons, List.count_nil]
      omega }

/-- A requested backup with its lease leaves the line. -/
theorem call {order : BackupOrder} {waiting : List BackupOrder} (h : l.Sound hand bound)
    (hrequests : l.requests = order :: waiting) :
    { l with requests := waiting }.Sound (order.lease :: hand) bound :=
  { h with
    lent := by
      refine h.lent.congr (List.perm_iff_count.2 fun x => ?_)
      simp only [held, hrequests, List.map_cons, List.count_append, List.count_cons]
      omega }

theorem awaitRestore {order : RestoreOrder} (h : l.Sound (order.lease :: hand) bound) :
    { l with restores := l.restores ++ [order] }.Sound hand bound :=
  { h with
    lent := by
      refine h.lent.congr (List.perm_iff_count.2 fun x => ?_)
      simp only [held, List.map_append, List.map_cons, List.map_nil, List.count_append,
        List.count_cons, List.count_nil]
      omega }

theorem callRestore {order : RestoreOrder} {waiting : List RestoreOrder} (h : l.Sound hand bound)
    (hrestores : l.restores = order :: waiting) :
    { l with restores := waiting }.Sound (order.lease :: hand) bound :=
  { h with
    lent := by
      refine h.lent.congr (List.perm_iff_count.2 fun x => ?_)
      simp only [held, hrestores, List.map_cons, List.count_append, List.count_cons]
      omega }

/-- The end of a pass is heard. -/
theorem hear {rest : List Command} (h : l.Sound hand bound)
    (hcommands : l.commands = .passFinished :: rest) :
    { l with commands := rest, passes := l.passes - 1 }.Sound hand bound :=
  { h with
    lent := by
      refine h.lent.congr (List.perm_iff_count.2 fun x => ?_)
      simp only [held, hcommands, List.filterMap_cons, Command.lease?]
    passes := by
      have hpasses := h.passes
      rw [hcommands, List.countP_cons_of_pos rfl] at hpasses
      show l.passes - 1 = l.seats.countP Seat.isPass + rest.countP Command.isPassEnd
      omega
    single := Nat.le_trans (Nat.sub_le _ _) h.single }

/-! ## Tasks begin -/

/-- A task begins with a lease from somebody's hands. Tokens, passes and wake locks depend on its
kind. -/
theorem enter {job : Job} (lease : Option Lease) {token : Option OpToken} {keys : List OpToken}
    {passes acquired : Nat} {full : Option OpToken} (h : l.Sound (lease.toList ++ hand) bound)
    (hfit : job.kind = .wipe → lease = none)
    (hkeys : keys ⊆ (Seat.mk l.nextNumber job .opening lease token).keys ++ l.keys)
    (hpasses : passes = l.passes + if job.kind = .keyValue then 1 else 0) (hsingle : passes ≤ 1)
    (hacquired : acquired = l.acquired + if job.kind = .full then 1 else 0)
    (hfull : (job.kind ≠ .full ∧ full = l.full) ∨
      (job.kind = .full ∧ l.full = none ∧ token.isSome = true ∧ full = token)) :
    ({ l with keys, passes, acquired, full }.enter job lease token).Sound hand bound := by
  refine reorder (l := { l with
    keys, passes, acquired, full
    nextNumber := l.nextNumber + 1
    seats := ⟨l.nextNumber, job, .opening, lease, token⟩ :: l.seats }) ?_
    (List.perm_append_singleton _ _).symm
  exact
    { h with
      lent := by
        refine h.lent.congr (List.perm_iff_count.2 fun x => ?_)
        -- the lease passes from the hand to the entry
        cases lease <;>
          simp only [held, List.filterMap_cons, Option.toList, List.nil_append, List.cons_append,
            List.count_append, List.count_cons]
        omega
      numbers := nodup_cons_next h.numbers h.below rfl
      below := by
        intro e hmem
        rcases List.mem_cons.1 hmem with rfl | hmem
        · exact Nat.lt_succ_self _
        · exact Nat.lt_succ_of_lt (h.below e hmem)
      fit := by
        intro e hmem
        rcases List.mem_cons.1 hmem with rfl | hmem
        · exact .of_stage (.inr (.inl rfl)) fun hkind => .inl ⟨hfit hkind, .inl rfl⟩
        · exact h.fit e hmem
      keys := by
        intro key hmem
        rw [List.flatMap_cons]
        rcases List.mem_append.1 (hkeys hmem) with hmem | hmem
        · exact List.mem_append_left _ hmem
        · exact List.mem_append_right _ (h.keys hmem)
      wakes := by
        have hwakes := h.wakes
        show acquired = l.released + List.countP Seat.isAwake (_ :: l.seats)
        rw [List.countP_cons]
        simp only [Seat.isAwake, beq_iff_eq]
        omega
      passes := by
        have hold := h.passes
        show passes = List.countP Seat.isPass (_ :: l.seats) + _
        rw [List.countP_cons, (Seat.isOpen_spec rfl).1]
        simp only [beq_iff_eq]
        omega
      single := hsingle
      fullCount := by
        have hold := h.fullCount
        show List.countP Seat.isFull (_ :: l.seats) = full.toList.length
        rw [List.countP_cons, (Seat.isOpen_spec rfl).2]
        simp only [beq_iff_eq]
        -- the slot stays as it is, or it was free and is taken
        rcases hfull with ⟨hkind, rfl⟩ | ⟨hkind, hnone, hsome, rfl⟩
        · rw [if_neg hkind]
          exact hold
        · obtain ⟨token, rfl⟩ := Option.isSome_iff_exists.1 hsome
          rw [hnone] at hold
          rw [if_pos hkind, hold]
          rfl
      fullToken := by
        intro e hmem hisFull
        rcases hfull with ⟨hkind, rfl⟩ | ⟨hkind, hnone, hsome, rfl⟩
        · rcases List.mem_cons.1 hmem with rfl | hmem
          · exact absurd (by simpa [Seat.isFull, Stage.isLeaving] using hisFull) hkind
          · exact h.fullToken e hmem hisFull
        · rcases List.mem_cons.1 hmem with rfl | hmem
          · rfl
          · have hzero : l.seats.countP Seat.isFull = 0 := by
              rw [h.fullCount, hnone]
              rfl
            exact absurd hisFull (by simpa using List.countP_eq_zero.1 hzero e hmem)
      agents := h.agents }

theorem startPass {order : BackupOrder} {drained : Option Drained} {token : OpToken}
    {keys : List OpToken} (h : l.Sound (order.lease :: hand) bound) (hpasses : l.passes = 0)
    (hkeys : keys ⊆ token :: l.keys) :
    ((l.withKeys keys).startPass order drained token).Sound hand bound :=
  h.enter (some order.lease) (by simp [Job.kind]) hkeys rfl
    (Nat.le_of_eq (congrArg (· + 1) hpasses)) rfl (.inl ⟨by simp [Job.kind], rfl⟩)

/-- A task without a token begins. -/
theorem enterPlain {job : Job} (lease : Option Lease) (h : l.Sound (lease.toList ++ hand) bound)
    (hpass : job.kind ≠ .keyValue) (hfull : job.kind ≠ .full)
    (hfit : job.kind = .wipe → lease = none) : (l.enter job lease none).Sound hand bound :=
  h.enter lease hfit (List.subset_append_right _ _) (by rw [if_neg hpass]; rfl) h.single
    (by rw [if_neg hfull]; rfl) (.inl ⟨hfull, rfl⟩)

end Sound

/-- **Deeds keep the balance.** -/
theorem Deed.sound {l l' : Ledger} {hand hand' : List Lease} {gain : Gain} {bound : List String}
    (hdeed : Deed l hand l' hand' gain) (h : l.Sound hand bound) : l'.Sound hand' bound := by
  cases hdeed with
  | settle hkeys hperm hhand => exact ((h.withKeys hkeys).reorder hperm).congr_hand hhand
  | lend hnumber => exact h.lend hnumber
  | giveBack hhand => exact @Sound.reclaim l _ bound (some _) (h.congr_hand hhand)
  | request _ hnumber => exact (h.lend hnumber).queue rfl rfl
  | submit _ hnumber => exact (h.lend hnumber).queue rfl rfl
  | wait hcommands _ => exact (h.take hcommands rfl rfl).await
  | serve hcommands hpasses hkeys => exact (h.take hcommands rfl rfl).startPass hpasses hkeys
  | hear hcommands _ => exact h.hear hcommands
  | next hcommands hrequests hkeys =>
    refine ((h.hear hcommands).call hrequests).startPass ?_ hkeys
    exact Nat.sub_eq_zero_of_le h.single
  | hold hcommands => exact (h.take hcommands rfl rfl).awaitRestore
  | restore hcommands =>
    exact (h.take hcommands rfl rfl).enterPlain (some _) (by simp [Job.kind])
      (by simp [Job.kind]) (by simp [Job.kind])
  | nextRestore hrestores =>
    exact (h.callRestore hrestores).enterPlain (some _) (by simp [Job.kind])
      (by simp [Job.kind]) (by simp [Job.kind])
  | drain hnumber hpasses hkeys => exact (h.lend hnumber).startPass hpasses hkeys
  | full hnumber hfull hkeys =>
    exact (h.lend hnumber).enter (some _) (by simp [Job.kind]) hkeys rfl h.single rfl
      (.inr ⟨rfl, hfull, rfl, rfl⟩)
  | wipe => exact h.enterPlain none (by simp [Job.kind]) (by simp [Job.kind]) fun _ => rfl
  | clear hnumber =>
    exact (h.lend hnumber).enterPlain (some _) (by simp [Job.kind]) (by simp [Job.kind])
      (by simp [Job.kind])

theorem Move.sound {l l' : Ledger} {hand hand' : List Lease} {gain : Gain} {bound : List String}
    (hmove : Move l hand l' hand' gain) (h : l.Sound hand bound) : l'.Sound hand' bound := by
  obtain ⟨k, -, said, -, hdeed⟩ := hmove
  exact hdeed.sound (h.later k said)

/-- Only a shutdown asks the loop to stop. -/
theorem Move.lasting {l l' : Ledger} {hand hand' : List Lease} {gain : Gain}
    (hmove : Move l hand l' hand' gain) (h : Command.shutdown ∉ l.commands) :
    Command.shutdown ∉ l'.commands := by
  obtain ⟨k, -, said, -, hdeed⟩ := hmove
  have hrest : ∀ {command rest}, (l.later k said).commands = command :: rest →
      Command.shutdown ∉ rest :=
    fun hcommands hmem => h (show _ ∈ (l.later k said).commands from
      hcommands ▸ List.mem_cons_of_mem _ hmem)
  cases hdeed with
  | settle _ _ _ | lend _ | giveBack _ | nextRestore _ | drain _ _ _ | full _ _ _ | wipe
  | clear _ =>
    exact h
  | wait hcommands _ | serve hcommands _ _ | hear hcommands _ | next hcommands _ _
  | hold hcommands | restore hcommands => exact hrest hcommands
  | request _ _ | submit _ _ =>
    intro hmem
    rcases List.mem_append.1 hmem with hold | hnew
    · exact h hold
    · cases List.mem_singleton.1 hnew

/-! ## Tasks make their steps -/

namespace Sound

variable {l : Ledger} {hand hand' : List Lease} {bound : List String} {e e' : Seat}
  {rest : List Seat} {keys : List OpToken} {acquired : Nat} {unbound : List String}

/-- A task's entry is replaced. In doing so a pass may announce its end, and a full backup may give
up its place. -/
theorem replace (h : { l with seats := e :: rest }.Sound hand bound) (e' : Seat)
    (ends : List Command) (full : Option OpToken) (keys : List OpToken) (acquired : Nat)
    (unbound bound' : List String) (hnumber : e'.number = e.number) (htoken : e'.token = e.token)
    (hfit : e'.Fit)
    (hhand : (e.lease.toList ++ hand).Perm (e'.lease.toList ++ hand'))
    (hkeys : keys ⊆ e'.keys ++ rest.flatMap Seat.keys)
    (hwakes : acquired = l.released + (e' :: rest).countP Seat.isAwake)
    (hagents : bound'.Perm (unbound ++ (e' :: rest).filterMap (fun e => e.working.map (·.1))))
    (hends : ends.filterMap Command.lease? = [])
    (hpass : ends.countP Command.isPassEnd + (if e'.isPass then 1 else 0) =
      if e.isPass then 1 else 0)
    (hfull : (e'.isFull = e.isFull ∧ full = l.full) ∨
      (e'.isFull = false ∧ e.isFull = true ∧ full = none)) :
    { l with seats := e' :: rest, commands := l.commands ++ ends, full, keys, acquired,
             unbound }.Sound hand' bound' := by
  have hlease : ∀ (e : Seat) (x : Lease), ((e :: rest).filterMap (·.lease)).count x =
      e.lease.toList.count x + (rest.filterMap (·.lease)).count x := by
    intro e x
    cases hlease : e.lease <;> simp [hlease, List.count_cons, Nat.add_comm]
  have hcount := h.fullCount
  have hlength : l.full.toList.length ≤ 1 := by cases l.full <;> simp
  simp only [List.countP_cons] at hcount
  exact
    { h with
      lent := by
        refine h.lent.congr (List.perm_iff_count.2 fun x => ?_)
        have hcount := List.perm_iff_count.1 hhand x
        simp only [List.count_append] at hcount
        simp only [held, List.filterMap_append, hends, List.append_nil, List.count_append, hlease]
        omega
      numbers := by
        show ((e' :: rest).map (·.number)).Nodup
        rw [List.map_cons, hnumber]
        exact h.numbers
      below := by
        intro other hmem
        rcases List.mem_cons.1 hmem with rfl | hmem
        · rw [hnumber]
          exact h.below e List.mem_cons_self
        · exact h.below other (List.mem_cons_of_mem _ hmem)
      fit := by
        intro other hmem
        rcases List.mem_cons.1 hmem with rfl | hmem
        · exact hfit
        · exact h.fit other (List.mem_cons_of_mem _ hmem)
      keys := hkeys
      wakes := hwakes
      passes := by
        have hpasses := h.passes
        show l.passes = (e' :: rest).countP Seat.isPass + (l.commands ++ ends).countP _
        simp only [List.countP_cons, List.countP_append] at hpasses ⊢
        omega
      fullCount := by
        show (e' :: rest).countP Seat.isFull = full.toList.length
        rw [List.countP_cons]
        rcases hfull with ⟨hsame, rfl⟩ | ⟨hgone, hheld, rfl⟩
        · rwa [hsame]
        · rw [if_pos hheld] at hcount
          rw [hgone, if_neg Bool.false_ne_true]
          show _ = 0
          omega
      fullToken := by
        intro other hmem hisFull
        show other.token = full
        rcases hfull with ⟨hsame, rfl⟩ | ⟨hgone, hheld, rfl⟩
        · rcases List.mem_cons.1 hmem with rfl | hmem
          · rw [htoken]
            exact h.fullToken e List.mem_cons_self (hsame ▸ hisFull)
          · exact h.fullToken other (List.mem_cons_of_mem _ hmem) hisFull
        · -- nobody else holds the place
          rcases List.mem_cons.1 hmem with rfl | hmem
          · cases hgone.symm.trans hisFull
          · have hpos : 0 < rest.countP Seat.isFull := List.countP_pos_iff.2 ⟨other, hmem, hisFull⟩
            rw [if_pos hheld] at hcount
            omega
      agents := hagents }

/-- A task's entry is dropped, and its lease is left in somebody's hands. -/
theorem remove {released : Nat} (h : { l with seats := e :: rest }.Sound hand bound)
    (hpass : e.isPass = false) (hfull : e.isFull = false)
    (hkeys : keys ⊆ rest.flatMap Seat.keys)
    (hwakes : acquired = released + rest.countP Seat.isAwake)
    (hagents : bound'.Perm (unbound ++ rest.filterMap (fun e => e.working.map (·.1)))) :
    { l with seats := rest, keys, acquired, released, unbound }.Sound (e.lease.toList ++ hand)
      bound' :=
  { h with
    lent := by
      refine h.lent.congr (List.perm_iff_count.2 fun x => ?_)
      cases hlease : e.lease <;>
        simp only [held, List.filterMap_cons, hlease, Option.toList, List.nil_append,
          List.count_append, List.count_cons, List.count_nil]
      omega
    numbers := (List.nodup_cons.1 h.numbers).2
    below := fun other hmem => h.below other (List.mem_cons_of_mem _ hmem)
    fit := fun other hmem => h.fit other (List.mem_cons_of_mem _ hmem)
    keys := hkeys
    wakes := hwakes
    passes := by
      have hpasses := h.passes
      rwa [List.countP_cons_of_neg (by simp [hpass])] at hpasses
    fullCount := by
      have hcount := h.fullCount
      rwa [List.countP_cons_of_neg (by simp [hfull])] at hcount
    fullToken := fun other hmem => h.fullToken other (List.mem_cons_of_mem _ hmem)
    agents := hagents }

/-- What a task holds that has begun and has no agent: the wake lock and its own token. -/
theorem idle (h : { l with seats := e :: rest }.Sound hand bound) (hawake : e.isAwake = true)
    (hworking : e.working = none) :
    l.keys ⊆ e.passKey.toList ++ rest.flatMap Seat.keys ∧
      l.acquired = l.released + 1 + rest.countP Seat.isAwake ∧
      bound.Perm (l.unbound ++ rest.filterMap (fun e => e.working.map (·.1))) := by
  have hkeys : l.keys ⊆ (e :: rest).flatMap Seat.keys := h.keys
  have hwakes : l.acquired = l.released + (e :: rest).countP Seat.isAwake := h.wakes
  have hagents : bound.Perm (l.unbound ++ (e :: rest).filterMap (fun e => e.working.map (·.1))) :=
    h.agents
  simp only [List.flatMap_cons, Seat.keys, hworking, Option.map_none, Option.toList_none,
    List.append_nil] at hkeys
  rw [List.countP_cons_of_pos hawake] at hwakes
  rw [List.filterMap_cons, hworking] at hagents
  exact ⟨hkeys, by omega, hagents⟩

/-- What a task holds when its step has begun: the wake lock, its own token and no agent. -/
theorem arrive (h : { l with seats := e :: rest }.Sound hand bound)
    (hopen : e.stage.isOpen = true) :
    (l.arrive e).keys ⊆ e.passKey.toList ++ rest.flatMap Seat.keys ∧
      (l.arrive e).acquired = l.released + 1 + rest.countP Seat.isAwake ∧
      bound.Perm ((l.arrive e).unbound ++ rest.filterMap (fun e => e.working.map (·.1))) := by
  have hkeys : l.keys ⊆ (e :: rest).flatMap Seat.keys := h.keys
  have hwakes : l.acquired = l.released + (e :: rest).countP Seat.isAwake := h.wakes
  have hagents : bound.Perm (l.unbound ++ (e :: rest).filterMap (fun e => e.working.map (·.1))) :=
    h.agents
  cases hstage : e.stage with
  -- the token of the agent is struck off, and the agent is unbound
  | working v token =>
    have hworking : e.working = some (v.package.name, token) := by
      simp only [Seat.working, hstage]
    have hawake : e.isAwake = true := by simp only [Seat.isAwake, hstage]
    rw [List.flatMap_cons] at hkeys
    rw [List.countP_cons_of_pos hawake] at hwakes
    simp only [Ledger.arrive, hstage]
    refine ⟨fun key hmem => ?_, ?_, ?_⟩
    · obtain ⟨hmem, hne⟩ := List.mem_filter.1 hmem
      rcases List.mem_append.1 (hkeys hmem) with hmem | hmem
      · rcases List.mem_append.1 hmem with hmem | hmem
        · exact List.mem_append_left _ hmem
        · simp only [hworking, Option.map_some, Option.toList_some, List.mem_singleton] at hmem
          simp [hmem] at hne
      · exact List.mem_append_right _ hmem
    · show l.acquired = _
      omega
    · rw [List.filterMap_cons, hworking] at hagents
      refine hagents.trans ?_
      show (l.unbound ++ v.package.name :: _).Perm (l.unbound ++ [v.package.name] ++ _)
      rw [List.append_assoc]
      exact .refl _
  -- all but full backups acquire the wake lock now
  | opening =>
    have hworking : e.working = none := by simp only [Seat.working, hstage]
    have hsame : (l.arrive e).keys = l.keys ∧ (l.arrive e).unbound = l.unbound := by
      simp only [Ledger.arrive, hstage]
      split <;> exact ⟨rfl, rfl⟩
    rw [hsame.1, hsame.2]
    simp only [List.flatMap_cons, Seat.keys, hworking, Option.map_none, Option.toList_none,
      List.append_nil] at hkeys
    rw [List.filterMap_cons, hworking] at hagents
    refine ⟨hkeys, ?_, hagents⟩
    simp only [List.countP_cons, Seat.isAwake, hstage, beq_iff_eq] at hwakes
    simp only [Ledger.arrive, hstage]
    split
    · rename_i hkind
      rw [if_pos hkind] at hwakes
      omega
    · rename_i hkind
      rw [if_neg hkind] at hwakes
      show l.acquired + 1 = _
      omega
  | choosing | queued _ _ | binding _ _ | calling _ =>
    have hidle := h.idle (by simp only [Seat.isAwake, hstage]) (by simp only [Seat.working, hstage])
    simpa only [Ledger.arrive, hstage] using hidle
  | prepared _ _ | starting _ _ | closing _ | leaving | fallen =>
    rw [hstage] at hopen
    cases hopen

end Sound

theorem arrive_eq (l : Ledger) (e : Seat) :
    ∃ keys acquired unbound, l.arrive e = { l with keys, acquired, unbound } := by
  unfold arrive
  split
  · split <;> exact ⟨_, _, _, rfl⟩
  · exact ⟨_, _, _, rfl⟩
  · exact ⟨_, _, _, rfl⟩

theorem finish_eq (l : Ledger) (e : Seat) :
    l.finish e =
      ({ l with
        keys := (l.forget e.passKey).keys
        released := l.released + 1 }.reclaim e.lease).unseat e.number := by
  unfold finish
  cases e.passKey <;> rfl

theorem finish_seats (l : Ledger) (e : Seat) :
    (l.finish e).seats = l.seats.filter fun other => other.number ≠ e.number := by
  rw [finish_eq]
  cases e.lease <;> rfl

/-- What a task can change in its step, entries and numbers apart: it may post the end of a pass,
and it borrows a lease. -/
theorem Turn.frame {l l' : Ledger} {e : Seat} {greeted : List String}
    {said : List Device.Notice} (hturn : Turn l e greeted said l') :
    (l'.commands = l.commands ∨ l'.commands = l.commands ++ [.passFinished]) ∧
      l'.requests = l.requests ∧ l'.restores = l.restores ∧ l'.passes = l.passes ∧
      l.nextLease ≤ l'.nextLease ∧ l.nextNumber ≤ l'.nextNumber ∧ l'.told = l.told ++ said := by
  -- what is given back touches none of these
  have hreclaim : ∀ (l : Ledger) lease, ∃ leases, l.reclaim lease = { l with leases } := by
    rintro l (_ | lease) <;> exact ⟨_, rfl⟩
  have hfinish : ∀ l : Ledger, ∃ leases keys released seats,
      l.finish e = { l with leases, keys, released, seats } := by
    intro l
    rw [finish_eq]
    obtain ⟨_, hreclaim⟩ := hreclaim _ e.lease
    rw [hreclaim]
    exact ⟨_, _, _, _, rfl⟩
  obtain ⟨keys, acquired, unbound, harrive⟩ := arrive_eq l e
  cases hturn with
  | proceed _ hproceeds =>
    rw [harrive] at hproceeds
    cases hproceeds with
    | go k _ _ | close k _ _ _ =>
      exact ⟨.inl rfl, rfl, rfl, rfl, Nat.le_refl _, Nat.le_add_right _ _, rfl⟩
    | announce k _ _ _ =>
      unfold post
      split
      · exact ⟨.inr rfl, rfl, rfl, rfl, Nat.le_refl _, Nat.le_add_right _ _, rfl⟩
      · exact ⟨.inl rfl, rfl, rfl, rfl, Nat.le_refl _, Nat.le_add_right _ _, rfl⟩
    | fall k _ _ _ _ =>
      obtain ⟨_, hreclaim⟩ := hreclaim ({ l with keys, acquired, unbound }.later k said) e.lease
      rw [hreclaim]
      exact ⟨.inl rfl, rfl, rfl, rfl, Nat.le_refl _, Nat.le_add_right _ _, rfl⟩
    | finish k status _ _ _ =>
      obtain ⟨_, _, _, _, hfinish⟩ := hfinish ({ l with keys, acquired, unbound }.later k _)
      rw [hfinish]
      exact ⟨.inl rfl, rfl, rfl, rfl, Nat.le_refl _, Nat.le_add_right _ _, rfl⟩
  | prepare _ _ | equip _ _ _ | vacate _ _ =>
    exact ⟨.inl rfl, rfl, rfl, rfl, Nat.le_refl _, Nat.le_refl _, (List.append_nil _).symm⟩
  | borrow _ _ _ _ =>
    exact ⟨.inl rfl, rfl, rfl, rfl, Nat.le_succ _, Nat.le_refl _, (List.append_nil _).symm⟩
  | giveBack k _ _ _ =>
    obtain ⟨_, hreclaim⟩ := hreclaim (l.later k said) e.lease
    rw [hreclaim]
    exact ⟨.inl rfl, rfl, rfl, rfl, Nat.le_refl _, Nat.le_add_right _ _, rfl⟩
  | depart _ =>
    obtain ⟨_, _, _, _, hfinish⟩ := hfinish (l.later 0 _)
    rw [hfinish]
    exact ⟨.inl rfl, rfl, rfl, rfl, Nat.le_refl _, Nat.le_add_right _ _, rfl⟩

/-- No task asks the loop to stop. -/
theorem Turn.lasting {l l' : Ledger} {e : Seat} {greeted : List String}
    {said : List Device.Notice} (hturn : Turn l e greeted said l')
    (h : Command.shutdown ∉ l.commands) : Command.shutdown ∉ l'.commands := by
  rcases hturn.frame.1 with hsame | hend
  · rwa [hsame]
  · rw [hend, List.mem_append, not_or]
    exact ⟨h, by simp⟩

/-- What a turn comes to for the task that makes it: it has told results and has another entry, or
it has told its end, with the status that it announced, and has none. -/
theorem Turn.outcome {l l' : Ledger} {e : Seat} {greeted : List String}
    {said : List Device.Notice} (hturn : Turn l e greeted said l') :
    (∃ e' : Seat, Seat.Alike e { e' with lease := e.lease } ∧ e.Reports said ∧
      l'.seats = (l.reseat e').seats) ∨
      ∃ results status, e.Reports results ∧
        said = results ++ System.finishedNotice e.job.observer status ∧
        (e.job.kind = .keyValue → e.stage = .closing status) ∧
        l'.seats = l.seats.filter fun other => other.number ≠ e.number := by
  have hreclaim : ∀ (l : Ledger) lease e', ((l.reclaim lease).reseat e').seats =
      (l.reseat e').seats := by
    rintro l (_ | lease) e' <;> rfl
  have hmoved : ∀ (l₁ : Ledger) (stage : Stage), l₁.seats = l.seats →
      ∃ e' : Seat, Seat.Alike e { e' with lease := e.lease } ∧ e.Reports [] ∧
        (l₁.reseat { e with stage }).seats = (l.reseat e').seats := by
    intro l₁ stage hsame
    exact ⟨{ e with stage }, ⟨rfl, rfl, rfl, rfl, rfl⟩, e.reports_nil, by simp only [reseat, hsame]⟩
  obtain ⟨keys, acquired, unbound, harrive⟩ := arrive_eq l e
  cases hturn with
  | proceed _ hproceeds =>
    rw [harrive] at hproceeds
    cases hproceeds with
    | go k h hreports => exact .inl ⟨_, ⟨h.number, rfl, h.token, h.kind, h.observer⟩, hreports, rfl⟩
    | close k _ h hreports =>
      exact .inl ⟨_, ⟨h.number, rfl, h.token, h.kind, h.observer⟩, hreports, rfl⟩
    | announce k _ h hreports =>
      refine .inl ⟨_, ⟨h.number, rfl, h.token, h.kind, h.observer⟩, hreports, ?_⟩
      unfold post
      split <;> rfl
    | fall k _ h _ hreports =>
      exact .inl ⟨_, ⟨h.number, rfl, h.token, h.kind, h.observer⟩, hreports, hreclaim _ _ _⟩
    | finish k status hkeyValue _ hreports =>
      exact .inr ⟨_, status, hreports, rfl, fun hkind => absurd hkind hkeyValue, finish_seats _ e⟩
  | prepare _ _ | equip _ _ _ | vacate _ _ => exact .inl (hmoved _ _ rfl)
  | borrow _ _ _ h =>
    exact .inl ⟨_, ⟨h.number, rfl, h.token, h.kind, h.observer⟩, e.reports_nil, rfl⟩
  | giveBack k _ h hreports =>
    exact .inl ⟨_, ⟨h.number, rfl, h.token, h.kind, h.observer⟩, hreports, hreclaim _ _ _⟩
  | depart hdeparts =>
    refine .inr ⟨[], _, e.reports_nil, rfl, fun hkind => ?_, finish_seats _ e⟩
    cases hdeparts with
    | keyValue _ hstage => exact hstage
    | full hfull _ => cases hkind.symm.trans hfull

/-- No task begins in a turn. -/
theorem Turn.numbers {l l' : Ledger} {e : Seat} {greeted : List String}
    {said : List Device.Notice} (hturn : Turn l e greeted said l') :
    l'.seats.map (·.number) ⊆ l.seats.map (·.number) := by
  rcases hturn.outcome with ⟨e', -, -, hseats⟩ | ⟨-, -, -, -, -, hseats⟩
  · rw [hseats, reseat_numbers]
    exact List.Subset.refl _
  · rw [hseats]
    exact (List.filter_sublist.map _).subset

/-- Between two steps a task that has begun is awake and has no agent at work. -/
theorem isBetween_spec {e : Seat} (h : e.stage.isBetween = true) :
    e.isAwake = true ∧ e.working = none := by
  unfold Seat.isAwake Seat.working
  cases hstage : e.stage <;> simp [hstage, Stage.isBetween] at h ⊢

namespace Sound

variable {l : Ledger} {hand hand' : List Lease} {bound : List String} {e e' : Seat}
  {rest : List Seat}

/-- A step goes on to another stage. -/
theorem go {lease : Option Lease} (h : { l with seats := e :: rest }.Sound hand bound)
    (hopen : e.stage.isOpen = true) (hcontinues : Seat.Continues { e with lease } e')
    (hhand : (e.lease.toList ++ hand).Perm (lease.toList ++ hand')) :
    { l.arrive e with seats := e' :: rest }.Sound hand' bound := by
  obtain ⟨hkeys, hwakes, hagents⟩ := h.arrive hopen
  obtain ⟨hawake, hworking⟩ := isBetween_spec hcontinues.between
  obtain ⟨hpass, hfull⟩ := Seat.isOpen_spec hopen
  obtain ⟨hpass', hfull'⟩ := Seat.isOpen_spec (Stage.isOpen_of_between hcontinues.between)
  rw [hcontinues.kind] at hpass' hfull'
  have hkey : e'.passKey = e.passKey := by
    rw [Seat.passKey, Seat.passKey, hcontinues.kind, hcontinues.token]
  obtain ⟨keys, acquired, unbound, heq⟩ := arrive_eq l e
  simp only [heq] at hkeys hwakes hagents ⊢
  have hreplaced := h.replace e' [] l.full keys acquired unbound bound hcontinues.number
    hcontinues.token hcontinues.fit (by rw [hcontinues.lease]; exact hhand)
    (by rw [Seat.keys, hkey, hworking]; simpa using hkeys)
    (by rw [List.countP_cons_of_pos hawake]; omega)
    (by rwa [List.filterMap_cons, hworking]) rfl (by rw [hpass, hpass']; exact Nat.zero_add _)
    (.inl ⟨hfull'.trans hfull.symm, rfl⟩)
  rwa [List.append_nil] at hreplaced

/-- A step brings a pass near its end, with the lease in its hands or in somebody else's. -/
theorem windDown (h : { l with seats := e :: rest }.Sound hand bound) (ends : List Command)
    (lease : Option Lease) (hopen : e.stage.isOpen = true)
    (halike : Seat.Alike { e with lease } e') (hfit : e'.Fit)
    (hhand : (e.lease.toList ++ hand).Perm (lease.toList ++ hand'))
    (hawake : e'.isAwake = true) (hworking : e'.working = none)
    (hleaving : e'.stage.isLeaving = false) (hends : ends.filterMap Command.lease? = [])
    (hpass : ends.countP Command.isPassEnd + (if e'.isPass then 1 else 0) =
      if e.isPass then 1 else 0) :
    { l.arrive e with seats := e' :: rest, commands := l.commands ++ ends }.Sound hand' bound := by
  obtain ⟨hkeys, hwakes, hagents⟩ := h.arrive hopen
  have hfull : e'.isFull = e.isFull := by
    rw [(Seat.isOpen_spec hopen).2, Seat.isFull, halike.kind]
    simp [hleaving]
  have hkey : e'.passKey = e.passKey := by
    rw [Seat.passKey, Seat.passKey, halike.kind, halike.token]
  obtain ⟨keys, acquired, unbound, heq⟩ := arrive_eq l e
  simp only [heq] at hkeys hwakes hagents ⊢
  exact h.replace e' ends l.full keys acquired unbound bound halike.number halike.token hfit
    (by rw [halike.lease]; exact hhand) (by rw [Seat.keys, hkey, hworking]; simpa using hkeys)
    (by rw [List.countP_cons_of_pos hawake]; omega)
    (by rwa [List.filterMap_cons, hworking]) hends hpass (.inl ⟨hfull, rfl⟩)

/-- The wait for an agent is registered. -/
theorem prepare {v : Visit} {ticket : Nat} {token : OpToken} {keys : List OpToken}
    (h : { l with seats := e :: rest }.Sound hand bound) (hstage : e.stage = .binding v ticket)
    (hkeys : keys ⊆ token :: l.keys) :
    { l.withKeys keys with seats := { e with stage := .prepared v token } :: rest }.Sound hand
      (bound ++ [v.package.name]) := by
  have hwipe : e.job.kind ≠ .wipe := by
    intro hkind
    rcases (h.fit e List.mem_cons_self).wipe hkind with ⟨-, h | h⟩ | ⟨call, h⟩
    all_goals
      rw [hstage] at h
      cases h
  obtain ⟨hold, hwakes, hagents⟩ := h.idle (by simp only [Seat.isAwake, hstage])
    (by simp only [Seat.working, hstage])
  have hreplaced := h.replace { e with stage := .prepared v token } [] l.full keys l.acquired
    l.unbound (bound ++ [v.package.name]) rfl rfl
    (.of_stage (.inr (.inr rfl)) fun hkind => absurd hkind hwipe) (.refl _)
    (fun key hmem => ?_) ?_ ?_ rfl ?_ (.inl ⟨?_, rfl⟩)
  · rwa [List.append_nil] at hreplaced
  · have hown : (Seat.mk e.number e.job (.prepared v token) e.lease e.token).keys =
        e.passKey.toList ++ [token] := rfl
    rw [hown]
    rcases List.mem_cons.1 (hkeys hmem) with rfl | hmem
    · simp
    · rcases List.mem_append.1 (hold hmem) with hmem | hmem
      · exact List.mem_append_left _ (List.mem_append_left _ hmem)
      · exact List.mem_append_right _ hmem
  · rw [List.countP_cons_of_pos rfl]
    omega
  · show (bound ++ [v.package.name]).Perm (l.unbound ++ v.package.name :: rest.filterMap _)
    refine (hagents.append_right _).trans (List.perm_iff_count.2 fun x => ?_)
    simp only [List.count_append, List.count_cons, List.count_nil]
    omega
  · simp [Seat.isPass, Stage.isClosing, hstage]
  · simp [Seat.isFull, Stage.isLeaving, hstage]

/-- An agent is being given work. -/
theorem equip {v : Visit} {token : OpToken} {stage : Stage} {keys : List OpToken}
    (h : { l with seats := e :: rest }.Sound hand bound)
    (hstage : e.stage = .prepared v token ∨ e.stage = .starting v token)
    (hnext : stage = .starting v token ∨ stage = .working v token) (hkeys : keys ⊆ l.keys) :
    { l.withKeys keys with seats := { e with stage } :: rest }.Sound hand bound := by
  have hwipe : e.job.kind ≠ .wipe := by
    intro hkind
    rcases (h.fit e List.mem_cons_self).wipe hkind with ⟨-, h | h⟩ | ⟨call, h⟩
    all_goals
      rcases hstage with hstage | hstage <;> cases hstage.symm.trans h
  -- the agent, the wake lock and the operation stay with the task
  have hsame : ({ e with stage } : Seat).keys = e.keys ∧
      ({ e with stage } : Seat).working = e.working ∧
      ({ e with stage } : Seat).isAwake = e.isAwake ∧ ({ e with stage } : Seat).isPass = e.isPass ∧
      ({ e with stage } : Seat).isFull = e.isFull := by
    rcases hstage with hstage | hstage <;> rcases hnext with rfl | rfl <;>
      simp [Seat.keys, Seat.passKey, Seat.working, Seat.isAwake, Seat.isPass, Seat.isFull,
        Stage.isClosing, Stage.isLeaving, hstage]
  obtain ⟨hown, hworking, hawake, hpass, hfull⟩ := hsame
  have hreplaced := h.replace { e with stage } [] l.full keys l.acquired l.unbound bound rfl rfl
    (.of_stage (.inr (.inr ?_)) fun hkind => absurd hkind hwipe) (.refl _) ?_ ?_ ?_ rfl ?_
    (.inl ⟨hfull, rfl⟩)
  · rwa [List.append_nil] at hreplaced
  · rcases hnext with rfl | rfl <;> rfl
  · rw [hown]
    exact List.Subset.trans hkeys h.keys
  · rw [List.countP_cons, hawake, ← List.countP_cons]
    exact h.wakes
  · have hagents := h.agents
    rw [List.filterMap_cons] at hagents ⊢
    rwa [hworking]
  · rw [hpass]
    exact Nat.zero_add _

/-- A full backup gives up its place. -/
theorem vacate {status : Status} (h : { l with seats := e :: rest }.Sound hand bound)
    (hkind : e.job.kind = .full) (hstage : e.stage = .closing status) :
    { l.endFull e.token with seats := { e with stage := .leaving } :: rest }.Sound hand bound := by
  have hisFull : e.isFull = true := by simp [Seat.isFull, Stage.isLeaving, hkind, hstage]
  have htoken : e.token = l.full := h.fullToken e List.mem_cons_self hisFull
  obtain ⟨hkeys, hwakes, hagents⟩ := h.idle (by simp only [Seat.isAwake, hstage])
    (by simp only [Seat.working, hstage])
  have hfit : ({ e with stage := .leaving } : Seat).Fit :=
    ⟨by simp [hkind], by simp, fun _ => hkind, by simp⟩
  have hreplaced := h.replace { e with stage := .leaving } [] none l.keys l.acquired l.unbound bound
    rfl rfl hfit (.refl _) ?_ ?_ hagents rfl ?_
    (.inr ⟨by simp [Seat.isFull, Stage.isLeaving], hisFull, rfl⟩)
  · rw [List.append_nil] at hreplaced
    rwa [endFull, if_pos htoken.symm]
  · rw [show (Seat.mk e.number e.job .leaving e.lease e.token).keys = e.passKey.toList ++ []
      from rfl, List.append_nil]
    exact hkeys
  · rw [List.countP_cons_of_pos rfl]
    omega
  · simp [Seat.isPass, hkind]

/-- A task ends. -/
theorem finish {keys : List OpToken} {acquired : Nat} {unbound : List String}
    (h : { l with seats := e :: rest }.Sound hand bound) (hpass : e.isPass = false)
    (hfull : e.isFull = false)
    (hkeys : keys ⊆ e.passKey.toList ++ rest.flatMap Seat.keys)
    (hwakes : acquired = l.released + 1 + rest.countP Seat.isAwake)
    (hagents : bound.Perm (unbound ++ rest.filterMap (fun e => e.working.map (·.1))))
    (k : Nat) (said : List Device.Notice)
    (hrest : (l.seats.filter fun other => other.number ≠ e.number).Perm rest) :
    (({ l with keys, acquired, unbound }.later k said).finish e).Sound hand bound := by
  have hforget : ({ l with keys }.forget e.passKey).keys ⊆ rest.flatMap Seat.keys := by
    intro key hmem
    cases hkey : e.passKey with
    | none =>
      rw [hkey] at hkeys hmem
      exact hkeys hmem
    | some token =>
      rw [hkey] at hkeys hmem
      obtain ⟨hmem, hne⟩ := List.mem_filter.1 hmem
      rcases List.mem_cons.1 (hkeys hmem) with rfl | hmem
      · simp at hne
      · exact hmem
  have hremoved := h.remove hpass hfull hforget hwakes hagents
  have hdone := ((hremoved.later k said).reorder hrest.symm).reclaim
  rw [finish_eq]
  cases hlease : e.lease <;> cases hkey : e.passKey <;> rw [hlease, hkey] at hdone <;> exact hdone

end Sound

/-- **Turns keep the balance**, and note which agents were bound. -/
theorem Turn.sound {l l' : Ledger} {e : Seat} {greeted : List String} {said : List Device.Notice}
    {hand : List Lease} {bound : List String} (hturn : Turn l e greeted said l')
    (h : l.Sound hand bound) (hmem : e ∈ l.seats) : l'.Sound hand (bound ++ greeted) := by
  -- the balance does not depend on the order of the tasks, so this one can come first
  obtain ⟨rest, hperm, hreseat, hunseat⟩ := exists_rest h.numbers hmem
  have hsplit : { l with seats := e :: rest }.Sound hand bound := h.reorder hperm
  obtain ⟨keys, acquired, unbound, harrive⟩ := arrive_eq l e
  cases hturn with
  | proceed hopen hproceeds =>
    rw [List.append_nil]
    cases hproceeds with
    | go k hcontinues _ =>
      have hgo := (hsplit.go hopen hcontinues (.refl _)).later k said
      rw [harrive] at hgo ⊢
      exact hgo.reorder (hreseat _ hcontinues.number).symm
    -- a pass: the command that it posts takes over its count
    | announce k hkind hcloses hreports =>
      obtain ⟨hfit, hawake, hworking, hleaving, hover⟩ := hcloses.stands (.inl hkind)
      have hclosed := (hsplit.windDown [.passFinished] e.lease hopen hcloses.toAlike hfit (.refl _)
        hawake hworking hleaving rfl (by
          rw [(Seat.isOpen_spec hopen).1, hkind, hover]
          rfl)).later k said
      rw [harrive] at hclosed ⊢
      have hlooping : ({ l with keys, acquired, unbound }.later k said).looping = true := h.looping
      rw [post_looping hlooping]
      exact hclosed.reorder (hreseat _ hcloses.number).symm
    -- a full backup: the slot is still its own
    | close k hkind hcloses hreports =>
      obtain ⟨hfit, hawake, hworking, hleaving, hover⟩ := hcloses.stands (.inr hkind)
      have hclosed := (hsplit.windDown [] e.lease hopen hcloses.toAlike hfit (.refl _) hawake
        hworking hleaving rfl (by
          rw [(Seat.isOpen_spec hopen).1, hkind, hover]
          rfl)).later k said
      rw [harrive] at hclosed ⊢
      rw [List.append_nil] at hclosed
      exact hclosed.reorder (hreseat _ hcloses.number).symm
    -- a task that breaks down gives back its lease, and its other debts stay on the books
    | fall k hkind halike hstage hreports =>
      rename_i e'
      have hfit : e'.Fit := by
        refine ⟨?_, ?_, ?_, fun _ => ⟨halike.kind.trans hkind, halike.lease⟩⟩ <;>
          simp [halike.kind, hstage, hkind]
      have hfallen := (hsplit.windDown [] none hopen halike hfit (.refl (e.lease.toList ++ hand))
        (by simp only [Seat.isAwake, hstage]) (by simp only [Seat.working, hstage])
        (by rw [hstage]; rfl) rfl (by
          rw [(Seat.isOpen_spec hopen).1, hkind]
          simp [Seat.isPass, halike.kind, hkind])).later k said
      rw [harrive] at hfallen ⊢
      rw [List.append_nil] at hfallen
      have hdone := (hfallen.reorder (hreseat _ halike.number).symm).reclaim
      cases hlease : e.lease <;> rw [hlease] at hdone <;> exact hdone
    | finish k status hkeyValue hfull _ =>
      obtain ⟨hkeys, hwakes, hagents⟩ := hsplit.arrive hopen
      obtain ⟨hpass, hisFull⟩ := Seat.isOpen_spec hopen
      rw [harrive] at hkeys hwakes hagents ⊢
      exact hsplit.finish (by simp [hpass, hkeyValue]) (by simp [hisFull, hfull]) hkeys hwakes
        hagents k _ hunseat
  | prepare hstage hkeys =>
    rename_i v _ token _
    exact (hsplit.prepare hstage hkeys).reorder
      (hreseat { e with stage := .prepared v token } rfl).symm
  | equip hstage hnext hkeys =>
    rename_i stage _
    rw [List.append_nil]
    exact (hsplit.equip hstage hnext hkeys).reorder (hreseat { e with stage } rfl).symm
  | borrow hlease hstage hnumber hcontinues =>
    rename_i lease
    rw [List.append_nil]
    -- the lease is in the hand of the step until the entry has it
    have hlent : { l.lend lease with seats := e :: rest }.Sound (lease :: hand) bound :=
      hsplit.lend hnumber
    have hhand : (e.lease.toList ++ lease :: hand).Perm ((some lease).toList ++ hand) := by
      rw [hlease]
      exact .refl _
    have hgo := hlent.go (congrArg Stage.isOpen hstage) hcontinues hhand
    have hsame := arrive_between (l.lend lease) (congrArg Stage.isBetween hstage)
    rw [hsame] at hgo
    exact hgo.reorder (hreseat _ hcontinues.number).symm
  | giveBack k hstage hcontinues _ =>
    rw [List.append_nil]
    have hgo := hsplit.go (congrArg Stage.isOpen hstage) hcontinues (.refl _)
    have hsame := arrive_between l (congrArg Stage.isBetween hstage)
    rw [hsame] at hgo
    have hdone := ((hgo.later k said).reorder (hreseat _ hcontinues.number).symm).reclaim
    cases hlease : e.lease <;> rw [hlease] at hdone <;> exact hdone
  | vacate hkind hstage =>
    rw [List.append_nil]
    exact (hsplit.vacate hkind hstage).reorder (hreseat { e with stage := .leaving } rfl).symm
  | depart hdeparts =>
    rw [List.append_nil]
    have hstands : e.isAwake = true ∧ e.working = none ∧ e.isPass = false ∧ e.isFull = false := by
      cases hdeparts with
      | keyValue hkind hstage =>
        simp [Seat.isAwake, Seat.working, Seat.isPass, Seat.isFull, Stage.isClosing, hkind, hstage]
      | full hkind hstage =>
        simp [Seat.isAwake, Seat.working, Seat.isPass, Seat.isFull, Stage.isLeaving, hkind, hstage]
    obtain ⟨hawake, hworking, hpass, hfull⟩ := hstands
    obtain ⟨hkeys, hwakes, hagents⟩ := hsplit.idle hawake hworking
    exact hsplit.finish hpass hfull hkeys hwakes hagents 0 _ hunseat

end Ledger

end Holdfast
