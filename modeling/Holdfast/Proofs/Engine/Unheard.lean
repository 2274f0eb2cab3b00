import Holdfast.Proofs.Engine.Orders
import Holdfast.Proofs.Engine.Requests

/-!
# Engines whose loop has stopped

When the loop has stopped, tasks still make their steps and callers still call, but nothing that is
posted is heard. To the books this is as if the loop ran and never took a command again: what nobody
hears stays queued for ever, and what would be given back when it is taken stays out.

- `Ledger.paused`: the books of a stopped engine, read in this way;
- `Ledger.Phase`: which commands are queued then: those behind the shutdown, and the ends of passes
  that came later;
- `Audit.Change`: what an incident can do to books that are read in this way;
- `World.meet_change`: **every incident is of this kind**, whether the loop runs, stops or has
  stopped;
- `World.live_audited`: the books balance after every run in which the loop may stop, and requested
  backups are in line and answered as far as they have come.
-/

namespace Holdfast

namespace Ledger

variable {l l' : Ledger} {hand hand' : List Lease} {gain : Gain} {unheard : List Command}

/-- The books as if the loop ran, with commands queued that it does not take. -/
def paused (l : Ledger) (unheard : List Command) : Ledger :=
  { l with looping := true, commands := unheard }

theorem paused_commands (hloop : l.looping = true) : l.paused l.commands = l := by
  rw [paused, ← hloop]

/-- The loop has stopped, and its inbox is gone. -/
structure Deaf (l : Ledger) : Prop where
  looping : l.looping = false
  commands : l.commands = []

/-- What happens to a stopped engine could happen to one that runs and leaves its inbox alone. -/
theorem Deed.paused (hdeed : Deed l hand l' hand' gain) (hdeaf : l.Deaf) (unheard : List Command) :
    l'.Deaf ∧ Deed (l.paused unheard) hand (l'.paused unheard) hand' gain := by
  obtain ⟨hloop, hnone⟩ := hdeaf
  cases hdeed with
  | settle hkeys hperm hhand => exact ⟨⟨hloop, hnone⟩, .settle hkeys hperm hhand⟩
  | lend hnumber => exact ⟨⟨hloop, hnone⟩, .lend hnumber⟩
  | giveBack hhand => exact ⟨⟨hloop, hnone⟩, .giveBack hhand⟩
  | nextRestore hrestores => exact ⟨⟨hloop, hnone⟩, @Deed.nextRestore (l.paused _) _ _ _ hrestores⟩
  | drain hnumber hpasses hkeys =>
    exact ⟨⟨hloop, hnone⟩, @Deed.drain (l.paused _) _ _ _ _ _ hnumber hpasses hkeys⟩
  | full hnumber hfull hkeys =>
    exact ⟨⟨hloop, hnone⟩, @Deed.full (l.paused _) _ _ _ _ _ _ hnumber hfull hkeys⟩
  | wipe => exact ⟨⟨hloop, hnone⟩, @Deed.wipe (l.paused _) _ _ _ _⟩
  | clear hnumber => exact ⟨⟨hloop, hnone⟩, @Deed.clear (l.paused _) _ _ _ hnumber⟩
  -- nothing can be handed to the loop, and there is nothing that it could take
  | request hrunning _ | submit hrunning _ => cases hloop.symm.trans hrunning
  | wait hcommands _ | serve hcommands _ _ | hear hcommands _ | next hcommands _ _
  | hold hcommands | restore hcommands => cases hnone.symm.trans hcommands

/-- Leases that callers hold besides make no difference. -/
theorem Deed.framed (hdeed : Deed l hand l' hand' gain) (strays : List Lease) :
    Deed l (hand ++ strays) l' (hand' ++ strays) gain := by
  cases hdeed with
  | settle hkeys hperm hhand => exact .settle hkeys hperm (hhand.append_right strays)
  | lend hnumber => exact .lend hnumber
  | giveBack hhand => exact .giveBack (hhand.append_right strays)
  | request hloop hnumber => exact .request hloop hnumber
  | submit hloop hnumber => exact .submit hloop hnumber
  | wait hcommands hpasses => exact .wait hcommands hpasses
  | serve hcommands hpasses hkeys => exact .serve hcommands hpasses hkeys
  | hear hcommands hrequests => exact .hear hcommands hrequests
  | next hcommands hrequests hkeys => exact .next hcommands hrequests hkeys
  | hold hcommands => exact .hold hcommands
  | restore hcommands => exact .restore hcommands
  | nextRestore hrestores => exact .nextRestore hrestores
  | drain hnumber hpasses hkeys => exact .drain hnumber hpasses hkeys
  | full hnumber hfull hkeys => exact .full hnumber hfull hkeys
  | wipe => exact .wipe
  | clear hnumber => exact .clear hnumber

theorem Deed.looping (hdeed : Deed l hand l' hand' gain) : l'.looping = l.looping := by
  cases hdeed <;> rfl

namespace Move

theorem paused (hmove : Move l hand l' hand' gain) (hdeaf : l.Deaf) (unheard : List Command) :
    l'.Deaf ∧ Move (l.paused unheard) hand (l'.paused unheard) hand' gain := by
  obtain ⟨k, observer, said, hresults, hdeed⟩ := hmove
  obtain ⟨hdeaf', hdeed'⟩ := hdeed.paused ⟨hdeaf.looping, hdeaf.commands⟩ unheard
  exact ⟨hdeaf', k, observer, said, hresults, hdeed'⟩

theorem framed (hmove : Move l hand l' hand' gain) (strays : List Lease) :
    Move l (hand ++ strays) l' (hand' ++ strays) gain := by
  obtain ⟨k, observer, said, hresults, hdeed⟩ := hmove
  exact ⟨k, observer, said, hresults, hdeed.framed strays⟩

theorem looping (hmove : Move l hand l' hand' gain) : l'.looping = l.looping := by
  obtain ⟨k, -, said, -, hdeed⟩ := hmove
  exact hdeed.looping

end Move

theorem arrive_paused (l : Ledger) (e : Seat) (unheard : List Command) :
    (l.paused unheard).arrive e = (l.arrive e).paused unheard := by
  unfold arrive
  split
  · split <;> rfl
  · rfl
  · rfl

theorem reclaim_paused (l : Ledger) (lease : Option Lease) (unheard : List Command) :
    (l.paused unheard).reclaim lease = (l.reclaim lease).paused unheard := by
  cases lease <;> rfl

/-- A task of a stopped engine ends. -/
theorem finish_paused (l : Ledger) (e : Seat) (unheard : List Command) :
    (l.paused unheard).finish e = (l.finish e).paused unheard := by
  rw [finish_eq, finish_eq]
  cases e.lease <;> cases e.passKey <;> rfl

theorem Deaf.arrive (h : l.Deaf) (e : Seat) : (l.arrive e).Deaf := by
  obtain ⟨keys, acquired, unbound, harrive⟩ := arrive_eq l e
  rw [harrive]
  exact ⟨h.looping, h.commands⟩

theorem Deaf.later (h : l.Deaf) (k : Nat) (said : List Device.Notice) : (l.later k said).Deaf :=
  ⟨h.looping, h.commands⟩

theorem Deaf.reclaim (h : l.Deaf) (lease : Option Lease) : (l.reclaim lease).Deaf := by
  cases lease <;> exact ⟨h.looping, h.commands⟩

theorem Deaf.finish (h : l.Deaf) (e : Seat) : (l.finish e).Deaf := by
  rw [finish_eq]
  cases e.lease <;> exact ⟨h.looping, h.commands⟩

theorem Turn.looping {e : Seat} {greeted : List String} {said : List Device.Notice}
    (hturn : Turn l e greeted said l') : l'.looping = l.looping := by
  obtain ⟨keys, acquired, unbound, harrive⟩ := arrive_eq l e
  cases hturn with
  | proceed _ hproceeds =>
    rw [harrive] at hproceeds
    cases hproceeds with
    | go | close => rfl
    | announce =>
      unfold post
      split <;> rfl
    | fall => cases e.lease <;> rfl
    | finish =>
      rw [finish_eq]
      cases e.lease <;> rfl
  | prepare | equip | borrow | vacate => rfl
  | giveBack => cases e.lease <;> rfl
  | depart =>
    rw [finish_eq]
    cases e.lease <;> rfl

/-- How a step goes on in a stopped engine. Where a running loop would be posted the end of a pass,
that is one more command that nobody hears. -/
theorem Proceeds.paused {e : Seat} {said : List Device.Notice} (hproceeds : Proceeds l e said l')
    (hdeaf : l.Deaf) (unheard : List Command) :
    l'.Deaf ∧ ∃ ends, Proceeds (l.paused unheard) e said
      (l'.paused (unheard ++ List.replicate ends .passFinished)) := by
  have hloop := hdeaf.looping
  have hnone := hdeaf.commands
  have hstays : Proceeds (l.paused unheard) e said (l'.paused unheard) →
      ∃ ends, Proceeds (l.paused unheard) e said
        (l'.paused (unheard ++ List.replicate ends .passFinished)) := by
    intro h
    refine ⟨0, ?_⟩
    rw [List.replicate_zero, List.append_nil]
    exact h
  cases hproceeds with
  | go k hcontinues hreports => exact ⟨⟨hloop, hnone⟩, hstays (.go k hcontinues hreports)⟩
  | @announce e' said status k hkind hcloses hreports =>
    have hlost : (l.later k said).post .passFinished = l.later k said :=
      if_neg (by rw [later, hloop]; exact Bool.false_ne_true)
    rw [hlost]
    exact ⟨⟨hloop, hnone⟩, 1, .announce k hkind hcloses hreports⟩
  | close k hkind hcloses hreports =>
    exact ⟨⟨hloop, hnone⟩, hstays (.close k hkind hcloses hreports)⟩
  | @fall e' said k hkind halike hstage hreports =>
    have hdeaf' := (hdeaf.later k said).reclaim e.lease
    refine ⟨⟨hdeaf'.looping, hdeaf'.commands⟩, hstays ?_⟩
    have hfall := @Proceeds.fall (l.paused unheard) e e' said k hkind halike hstage hreports
    rwa [show (l.paused unheard).later k said = (l.later k said).paused unheard from rfl,
      reclaim_paused] at hfall
  | @finish results k status hkeyValue hfull hreports =>
    refine ⟨(hdeaf.later _ _).finish e, hstays ?_⟩
    rw [← finish_paused]
    exact .finish k status hkeyValue hfull hreports

/-- A task of a stopped engine makes a step. -/
theorem Turn.paused {e : Seat} {greeted : List String} {said : List Device.Notice}
    (hturn : Turn l e greeted said l') (hdeaf : l.Deaf) (unheard : List Command) :
    l'.Deaf ∧ ∃ ends, Turn (l.paused unheard) e greeted said
      (l'.paused (unheard ++ List.replicate ends .passFinished)) := by
  have hstays : Turn (l.paused unheard) e greeted said (l'.paused unheard) →
      ∃ ends, Turn (l.paused unheard) e greeted said
        (l'.paused (unheard ++ List.replicate ends .passFinished)) := by
    intro h
    refine ⟨0, ?_⟩
    rw [List.replicate_zero, List.append_nil]
    exact h
  have hsame : ∀ {l₁ : Ledger}, l₁.looping = l.looping → l₁.commands = l.commands → l₁.Deaf :=
    fun hloop hnone => ⟨hloop.trans hdeaf.looping, hnone.trans hdeaf.commands⟩
  cases hturn with
  | proceed hopen hproceeds =>
    obtain ⟨hdeaf', ends, hpaused⟩ := hproceeds.paused (hdeaf.arrive e) unheard
    exact ⟨hdeaf', ends, .proceed hopen (l.arrive_paused e unheard ▸ hpaused)⟩
  | prepare hstage hkeys =>
    exact ⟨hsame rfl rfl, hstays (@Turn.prepare (l.paused _) _ _ _ _ _ hstage hkeys)⟩
  | equip hbefore hafter hkeys =>
    exact ⟨hsame rfl rfl, hstays (@Turn.equip (l.paused _) _ _ _ _ _ hbefore hafter hkeys)⟩
  | borrow hlease hstage hnumber hcontinues =>
    exact ⟨hsame rfl rfl,
      hstays (@Turn.borrow (l.paused _) _ _ _ hlease hstage hnumber hcontinues)⟩
  | @giveBack e' said call k hstage hcontinues hreports =>
    have hdeaf' := (hdeaf.later k said).reclaim e.lease
    refine ⟨⟨hdeaf'.looping, hdeaf'.commands⟩, hstays ?_⟩
    have hturn := @Turn.giveBack (l.paused unheard) e e' said call k hstage hcontinues hreports
    rwa [show (l.paused unheard).later k said = (l.later k said).paused unheard from rfl,
      reclaim_paused] at hturn
  | vacate hkind hstage =>
    exact ⟨hsame rfl rfl, hstays (@Turn.vacate (l.paused _) _ _ hkind hstage)⟩
  | depart hdeparts =>
    refine ⟨(hdeaf.later _ _).finish e, hstays ?_⟩
    rw [← finish_paused]
    exact @Turn.depart (l.paused _) _ _ hdeparts

/-- Where the loop stands: it runs, or it has stopped, forfeiting what was queued. What nobody has
heard yet are the commands that are queued, or those that were forfeited and then the ends of
passes. -/
inductive Phase (l : Ledger) : List Command → List Command → Prop where
  | running : l.looping = true → Phase l [] l.commands
  | stopped {forfeited : List Command} (ends : Nat) : l.Deaf →
    Phase l forfeited (forfeited.filter Command.counts ++ List.replicate ends .passFinished)

namespace Phase

variable {forfeited : List Command}

theorem move (h : l.Phase forfeited unheard) (hmove : Move l hand l' hand' gain) :
    ∃ unheard', l'.Phase forfeited unheard' ∧
      Move (l.paused unheard) hand (l'.paused unheard') hand' gain := by
  cases h with
  | running hloop =>
    have hloop' := hmove.looping.trans hloop
    refine ⟨_, .running hloop', ?_⟩
    rw [paused_commands hloop, paused_commands hloop']
    exact hmove
  | stopped ends hdeaf =>
    obtain ⟨hdeaf', hmove'⟩ := hmove.paused hdeaf _
    exact ⟨_, .stopped ends hdeaf', hmove'⟩

theorem turn {e : Seat} {greeted : List String} {said : List Device.Notice}
    (h : l.Phase forfeited unheard) (hturn : Turn l e greeted said l') :
    ∃ unheard', l'.Phase forfeited unheard' ∧
      Turn (l.paused unheard) e greeted said (l'.paused unheard') := by
  cases h with
  | running hloop =>
    have hloop' := hturn.looping.trans hloop
    refine ⟨_, .running hloop', ?_⟩
    rw [paused_commands hloop, paused_commands hloop']
    exact hturn
  | stopped ends hdeaf =>
    obtain ⟨hdeaf', ends', hturn'⟩ := hturn.paused hdeaf _
    refine ⟨_, .stopped (ends + ends') hdeaf', ?_⟩
    rw [List.replicate_add, ← List.append_assoc]
    exact hturn'

/-- What is read off the commands that nobody has heard. -/
theorem filterMap {α : Type} (h : l.Phase forfeited unheard) {f : Command → Option α}
    (hcounts : ∀ command, command.counts = false → f command = none)
    (hend : f .passFinished = none) :
    unheard.filterMap f = l.commands.filterMap f ++ forfeited.filterMap f := by
  cases h with
  | running _ => exact (List.append_nil _).symm
  | stopped ends hdeaf =>
    -- neither the ends of passes nor what does not count carry anything
    have hends : (List.replicate ends Command.passFinished).filterMap f = [] :=
      List.filterMap_eq_nil_iff.2 fun command hmem => List.eq_of_mem_replicate hmem ▸ hend
    rw [List.filterMap_append, hends, List.append_nil, hdeaf.commands, List.filterMap_filter]
    refine List.filterMap_congr fun command _ => ?_
    cases hcommand : command.counts with
    | true => rfl
    | false =>
      rw [hcounts command hcommand]
      rfl

end Phase

/-! ## Commands that carry nothing -/

/-- Other commands with the same leases and the same ends of passes. -/
theorem Sound.recall {bound : List String} {commands : List Command} (h : l.Sound hand bound)
    (hleases : commands.filterMap Command.lease? = l.commands.filterMap Command.lease?)
    (hends : commands.countP Command.isPassEnd = l.commands.countP Command.isPassEnd) :
    { l with commands }.Sound hand bound :=
  { h with
    lent := by
      have hlent := h.lent
      rwa [held, ← hleases] at hlent
    passes := hends ▸ h.passes }

/-- Other commands with the same requests. -/
theorem Served.recall {accepted : List BackupOrder} {begun : List (Nat × BackupOrder)}
    {heard : List (Nat × Device.Notice)} {commands : List Command}
    (h : l.Served accepted begun heard)
    (hrequests : commands.filterMap Command.request? = l.commands.filterMap Command.request?) :
    { l with commands }.Served accepted begun heard where
  queued := h.queued.frame rfl hrequests (Nat.le_refl _) (Nat.le_refl _)
  answered := h.answered.reorder (.refl _) (Nat.le_refl _)
  ends := h.ends

end Ledger

/-! ## Books that are read in this way -/

/-- The books of an engine that may have stopped, with the leases that callers hold or have left to
nobody, and with what was observed so far. -/
structure Audit where
  ledger : Ledger
  hand : List Lease
  accepted : List BackupOrder
  begun : List (Nat × BackupOrder)
  heard : List (Nat × Device.Notice)
  bound : List String

namespace Audit

/-- What an incident can do. -/
inductive Change (a a' : Audit) : Prop where
  | move {hand' : List Lease} {gain : Ledger.Gain} :
    Ledger.Move a.ledger a.hand a'.ledger hand' gain → hand'.Perm a'.hand →
    a'.accepted = a.accepted ++ gain.accepted → a'.begun = a.begun ++ gain.begun →
    a'.heard = a.heard → a'.bound = a.bound → Change a a'
  /-- A task makes a step. -/
  | turn {e : Seat} {greeted : List String} {said : List Device.Notice} :
    e ∈ a.ledger.seats → Ledger.Turn a.ledger e greeted said a'.ledger →
    a'.hand = a.hand → a'.accepted = a.accepted → a'.begun = a.begun →
    a'.heard = a.heard ++ said.map (fun notice => (e.number, notice)) →
    a'.bound = a.bound ++ greeted → Change a a'
  /-- The loop is asked to stop. -/
  | ask : a' = { a with ledger := a.ledger.queue .shutdown } → Change a a'
  /-- The loop stops. -/
  | stop {rest : List Command} :
    a.ledger.commands = .shutdown :: rest →
    a' = { a with ledger := { a.ledger with commands := rest } } → Change a a'

/-- The books balance, and requested backups are in line and answered as far as they have come. -/
structure Kept (a : Audit) : Prop where
  sound : a.ledger.Sound a.hand a.bound
  served : a.ledger.Served a.accepted a.begun a.heard

/-- **An incident keeps the balance.** -/
theorem Change.kept {a a' : Audit} (hchange : a.Change a') (h : a.Kept) : a'.Kept := by
  obtain ⟨hsound, hserved⟩ := h
  cases hchange with
  | move hmove hperm haccepted hbegun hheard hbound =>
    refine ⟨hbound ▸ (hmove.sound hsound).congr_hand hperm, ?_⟩
    rw [haccepted, hbegun, hheard]
    exact hmove.served hsound.below hserved
  | turn hmem hturn hhand haccepted hbegun hheard hbound =>
    refine ⟨?_, ?_⟩
    · rw [hhand, hbound]
      exact hturn.sound hsound hmem
    · rw [haccepted, hbegun, hheard]
      exact hturn.served hmem (hsound.below _ hmem) hserved
  | ask heq =>
    subst heq
    exact ⟨hsound.recall (by simp [Command.lease?]) (by simp [Command.isPassEnd]),
      hserved.recall (by simp [Command.request?])⟩
  | stop hcommands heq =>
    subst heq
    exact ⟨hsound.recall (by rw [hcommands]; rfl)
        (by rw [hcommands, List.countP_cons_of_neg Bool.false_ne_true]),
      hserved.recall (by rw [hcommands]; rfl)⟩

end Audit

namespace World

variable {w : World} {forfeited unheard : List Command} {strays : List Lease}

/-- The books of a world, read as those of an engine whose loop runs. -/
def audit (w : World) (unheard : List Command) (strays : List Lease) : Audit where
  ledger := w.system.ledger.paused unheard
  hand := w.hand ++ strays
  accepted := w.accepted
  begun := w.begun
  heard := w.heard
  bound := w.bound

theorem steady_of_kept (h : (w.audit unheard strays).Kept) : w.Steady where
  distinct := h.sound.numbers
  delayed := h.sound.delayed
  single := h.sound.single
  below := h.sound.below
  fit := h.sound.fit

/-- The leases that a call leaves to nobody, because it is refused for want of the loop. -/
def strands (w : World) : Incident → List Lease
  | .event (.call c) =>
    if c.isRefused w.system then
      (c.make w.system).engine.transports.leases.filter fun lease =>
        w.system.engine.transports.nextLease ≤ lease.number
    else []
  | _ => []

/-- The one lease that is left is a new one. -/
theorem strands_eq {c : Call} {hand : List Lease} {lease : Lease}
    (hrefused : c.isRefused w.system = true)
    (hleaves : w.system.Leaves hand lease (c.make w.system))
    (hbelow : ∀ other ∈ w.system.engine.transports.leases,
      other.number < w.system.engine.transports.nextLease) :
    w.strands (.event (.call c)) = [lease] := by
  have hnumber : w.system.engine.transports.nextLease ≤ lease.number :=
    Nat.le_of_eq hleaves.number.symm
  have hold : w.system.engine.transports.leases.filter
      (fun other => w.system.engine.transports.nextLease ≤ other.number) = [] := by
    refine List.filter_eq_nil_iff.2 fun other hmem => ?_
    have := hbelow other hmem
    simp only [decide_eq_true_eq]
    omega
  rw [strands, if_pos hrefused, hleaves.leases, List.filter_cons_of_pos (by simpa using hnumber),
    hold]

/-! ## Incidents -/

/-- An event in which the loop neither stops nor is missed. -/
theorem Change.audit {w' : World} (hchange : w.Change w')
    (hphase : w.system.ledger.Phase forfeited unheard) (strays : List Lease) :
    ∃ unheard', w'.system.ledger.Phase forfeited unheard' ∧
      (w.audit unheard strays).Change (w'.audit unheard' strays) := by
  cases hchange with
  | move hmove haccepted hbegun hheard hbound =>
    obtain ⟨unheard', hphase', hmove'⟩ := hphase.move hmove
    exact ⟨unheard', hphase',
      .move (hmove'.framed strays) (.refl _) haccepted hbegun hheard hbound⟩
  | turn hmem hturn hhand haccepted hbegun hheard hbound =>
    obtain ⟨unheard', hphase', hturn'⟩ := hphase.turn hturn
    exact ⟨unheard', hphase', .turn (List.mem_map_of_mem hmem) hturn'
      (congrArg (· ++ strays) hhand) haccepted hbegun hheard hbound⟩

theorem Ordinary.aside {event : Event} (h : w.Ordinary event) :
    w.forfeits (.event event) = [] ∧ w.strands (.event event) = [] := by
  cases event with
  | command =>
    refine ⟨?_, rfl⟩
    simp only [forfeits]
    split
    · rename_i rest hinbox
      refine absurd ?_ h
      rw [hinbox]
      rfl
    · rfl
  | call c =>
    have hgiven : c.isRefused w.system = false := h
    exact ⟨rfl, by rw [strands, hgiven]; rfl⟩
  | _ => exact ⟨rfl, rfl⟩

/-- No pass begins where the tasks stay the same. -/
theorem become_same (hsteady : w.Steady) {s : System}
    (hseats : s.ledger.seats = w.system.ledger.seats) : w.become s = { w with system := s } := by
  have hnone : w.system.ledger.newPasses s.ledger = [] :=
    Ledger.newPasses_old (hseats ▸ hsteady.below)
  rw [become, hnone, List.append_nil]

/-- The loop is asked to stop. -/
theorem shutdown_audit (hsteady : w.Steady) (hphase : w.system.ledger.Phase forfeited unheard)
    (strays : List Lease) :
    ∃ unheard', (w.meet .shutdown).system.ledger.Phase forfeited unheard' ∧
      (w.audit unheard strays).Change ((w.meet .shutdown).audit unheard' strays) := by
  have hledger : w.system.shutdown.2.ledger = w.system.ledger.post .shutdown := by
    rw [System.shutdown, System.send_snd, w.system.post_counts rfl]
  have hseats : w.system.shutdown.2.ledger.seats = w.system.ledger.seats := by
    rw [hledger]
    unfold Ledger.post
    split <;> rfl
  show ∃ unheard', (w.become w.system.shutdown.2).system.ledger.Phase _ _ ∧
    Audit.Change _ ((w.become w.system.shutdown.2).audit unheard' strays)
  rw [become_same hsteady hseats]
  cases hphase with
  | running hloop =>
    rw [Ledger.post, if_pos hloop] at hledger
    refine ⟨_, .running ?_, .ask ?_⟩
    · rw [hledger]
      exact hloop
    · rw [audit, audit, hledger]
      rfl
  | stopped ends hdeaf =>
    -- the loop has stopped before, so this is refused and nothing happens
    rw [Ledger.post, if_neg (Bool.eq_false_iff.1 hdeaf.looping)] at hledger
    refine ⟨_, .stopped ends ?_, @Audit.Change.move _ _ _ {} ?_ (.refl _) (List.append_nil _).symm
      (List.append_nil _).symm rfl rfl⟩
    · rwa [hledger]
    · rw [audit, audit, hledger]
      exact .refl

/-- The loop stops. -/
theorem stop_audit (hsteady : w.Steady) {rest : List Command}
    (hinbox : w.system.engine.inbox = .shutdown :: rest)
    (hphase : w.system.ledger.Phase forfeited unheard) (strays : List Lease) :
    ∃ unheard', (w.meet (.event .command)).system.ledger.Phase (forfeited ++ rest) unheard' ∧
      (w.audit unheard strays).Change ((w.meet (.event .command)).audit unheard' strays) := by
  obtain ⟨s, hstep, hledger⟩ : ∃ s, w.meet (.event .command) = w.become s ∧
      s.ledger = { w.system.ledger with looping := false, commands := [] } := by
    refine ⟨(w.system.onEngine fun e => { e with inbox := rest }).stopLoop, ?_, rfl⟩
    simp only [meet, happen, hinbox]
    rfl
  have hcommands : w.system.ledger.commands = .shutdown :: rest.filter Command.counts := by
    show w.system.engine.inbox.filter Command.counts = _
    rw [hinbox]
    rfl
  have hseats : s.ledger.seats = w.system.ledger.seats := by rw [hledger]
  rw [hstep, become_same hsteady hseats]
  cases hphase with
  | running hloop =>
    have hdeaf : s.ledger.Deaf := by
      rw [hledger]
      exact ⟨rfl, rfl⟩
    have hstopped := @Ledger.Phase.stopped s.ledger rest 0 hdeaf
    rw [List.replicate_zero, List.append_nil] at hstopped
    refine ⟨_, hstopped, .stop hcommands ?_⟩
    rw [audit, audit, hledger]
    rfl
  | stopped ends hdeaf => cases hcommands.symm.trans hdeaf.commands

/-- A call is refused because the loop has stopped. -/
theorem refused_audit (hk : (w.audit unheard strays).Kept) {c : Call}
    (hrefused : c.isRefused w.system = true)
    (hphase : w.system.ledger.Phase forfeited unheard) :
    ∃ unheard', (w.meet (.event (.call c))).system.ledger.Phase forfeited unheard' ∧
      (w.audit unheard strays).Change
        ((w.meet (.event (.call c))).audit unheard' (strays ++ w.strands (.event (.call c)))) := by
  obtain ⟨haccepts, lease, hleaves⟩ := System.refused_leaves hrefused w.hand
  have hbelow : ∀ other ∈ w.system.engine.transports.leases,
      other.number < w.system.engine.transports.nextLease := hk.sound.lent.below
  obtain ⟨unheard', hphase', hmove⟩ := hphase.move hleaves.move
  rw [strands_eq hrefused hleaves hbelow]
  -- the caller takes the lease, and it goes from its hand to those that nobody has
  refine ⟨unheard', hphase', .move (hmove.framed strays) ?_ ?_ ?_ rfl rfl⟩
  · show (lease :: w.hand ++ strays).Perm (w.hand ++ (strays ++ [lease]))
    rw [← List.append_assoc]
    exact (List.perm_append_singleton lease _).symm
  · show w.accepted ++ c.accepts w.system = w.accepted ++ []
    rw [haccepts]
  · show w.begun ++ w.system.ledger.newPasses (c.make w.system).ledger = w.begun ++ []
    rw [hleaves.move.newPasses hk.sound.below]

/-- **Every incident is a move, a turn of one task, or the loop's stop**, to books that are read as
those of an engine whose loop runs. -/
theorem meet_change (hk : (w.audit unheard strays).Kept)
    (hphase : w.system.ledger.Phase forfeited unheard) (i : Incident) :
    ∃ unheard', (w.meet i).system.ledger.Phase (forfeited ++ w.forfeits i) unheard' ∧
      (w.audit unheard strays).Change ((w.meet i).audit unheard' (strays ++ w.strands i)) := by
  have hsteady : w.Steady := steady_of_kept hk
  cases i with
  | shutdown =>
    have hchange := shutdown_audit hsteady hphase strays
    simpa only [forfeits, strands, List.append_nil] using hchange
  | event event =>
    by_cases hordinary : w.Ordinary event
    · obtain ⟨hforfeits, hstrands⟩ := hordinary.aside
      rw [hforfeits, hstrands, List.append_nil, List.append_nil]
      exact (hsteady.change hordinary).audit hphase strays
    · cases event with
      | command =>
        obtain ⟨rest, hinbox⟩ := List.head?_eq_some_iff.1 (not_not.1 hordinary)
        have hforfeits : w.forfeits (.event .command) = rest := by simp only [forfeits, hinbox]
        have hchange := stop_audit hsteady hinbox hphase strays
        rw [hforfeits]
        simpa only [strands, List.append_nil] using hchange
      | call c =>
        have hrefused : c.isRefused w.system = true := by simpa [Ordinary] using hordinary
        have hchange := refused_audit hk hrefused hphase
        simpa only [forfeits, List.append_nil] using hchange
      | _ => exact absurd trivial hordinary

/-! ## Runs -/

/-- What can be seen along a run in which the loop may stop. -/
def across {α : Type} (observe : World → Incident → List α) (w : World) : List Incident → List α
  | [] => []
  | i :: incidents => observe w i ++ (w.meet i).across observe incidents

/-- **The books balance after every run**, and requested backups are in line and answered as far as
they have come, when what was queued behind the shutdown and the ends of passes after it count as
queued, and the leases that calls left to nobody count as theirs. -/
theorem live_audited (hk : (w.audit unheard strays).Kept)
    (hphase : w.system.ledger.Phase forfeited unheard) (incidents : List Incident) :
    ∃ unheard',
      (w.live incidents).system.ledger.Phase (forfeited ++ w.across forfeits incidents) unheard' ∧
      ((w.live incidents).audit unheard' (strays ++ w.across strands incidents)).Kept := by
  induction incidents generalizing w forfeited unheard strays with
  | nil =>
    refine ⟨unheard, ?_, ?_⟩
    · rw [across, List.append_nil]
      exact hphase
    · rw [across, List.append_nil]
      exact hk
  | cons i incidents ih =>
    obtain ⟨unheard₁, hphase₁, hchange⟩ := meet_change hk hphase i
    have hrun := ih (hchange.kept hk) hphase₁
    rw [List.append_assoc, List.append_assoc] at hrun
    exact hrun

theorem opened_audited {settings : Settings} {disk : Disk} {device : Device} {s : System}
    (hstart : System.start settings disk device.fresh = .ok s) :
    (opened s).system.ledger.Phase [] [] ∧ ((opened s).audit [] []).Kept := by
  have hblank : (opened s).system.ledger = Ledger.blank := System.start_ledger hstart
  have haudit : (opened s).audit [] [] = ⟨Ledger.blank, [], [], [], [], []⟩ := by
    rw [audit, hblank]
    rfl
  rw [hblank, haudit]
  exact ⟨.running rfl, Ledger.blank_sound, Ledger.blank_served⟩

end World

end Holdfast
