import Holdfast.Proofs.Engine.Restores

/-!
# Where restores are

A restore that was handed in is queued, waits or runs, until its task ends it or the loop stops
before it was taken.

- `Desk.orders`: the restores that are queued, wait or run, with what each thing that is done at the
  desk does to them, as a permutation;
- `World.forfeits`: the commands that the loop leaves behind when it stops;
- `World.Matter.orders`: **only a call brings in a restore**;
- `World.Matter.promises`: **the installer is told, or still to be told, of every installation it
  asked about**, unless the restore was left behind when the loop stopped.
-/

namespace Holdfast

namespace Desk

/-- The restores that are queued, wait or run. -/
def orders (d : Desk) : List RestoreOrder := d.queued ++ d.waiting ++ d.running.map (·.2)

variable {d d' : Desk}

theorem Aside.orders (h : d.Aside d') : d'.orders = d.orders := by
  rw [Desk.orders, Desk.orders, h.queued, h.waiting, h.running]

theorem receive_orders (d : Desk) (order : RestoreOrder) :
    (d.receive order).orders.Perm (order :: d.orders) := by
  classical
  refine List.perm_iff_count.2 fun x => ?_
  unfold receive
  split <;>
    simp only [orders, queued, enter, List.map_append, List.map_cons, List.map_nil,
      List.count_append, List.count_cons, List.count_nil] <;>
    omega

theorem advance_orders (d : Desk) : d.advance.orders.Perm d.orders := by
  classical
  refine List.perm_iff_count.2 fun x => ?_
  unfold advance
  split
  · rfl
  · rename_i hline
    simp only [orders, queued, enter, hline, List.map_append, List.map_cons, List.map_nil,
      List.count_append, List.count_cons, List.count_nil]
    omega

/-- The loop takes a command and goes on. -/
theorem take_orders {command : Command} {rest : List Command} (hmail : d.mail = command :: rest)
    (hstop : command ≠ .shutdown) : (d.take command).orders.Perm d.orders := by
  have htail : command.restore? = none → { d with mail := d.mail.tail }.orders = d.orders := by
    intro hnone
    simp only [orders, queued, hmail, List.tail_cons, List.filterMap_cons, hnone]
  cases command with
  | startRestore order =>
    obtain ⟨d₁, htimed, heq⟩ := start_frame { d with mail := d.mail.tail } order
    have hqueued : d.orders = order :: { d with mail := d.mail.tail }.orders := by
      simp only [orders, queued, hmail, List.tail_cons, List.filterMap_cons, Command.restore?]
      rfl
    show (start _ order).orders.Perm _
    rw [heq, hqueued, ← htimed.aside.orders]
    exact d₁.receive_orders order
  | restoreFinished session =>
    obtain ⟨d₁, htimed, heq⟩ := finished_frame { d with mail := d.mail.tail } session
    show (finished _ session).orders.Perm _
    rw [heq, ← htail rfl, ← htimed.aside.orders]
    exact d₁.advance_orders
  | sessionTimeout session => rw [(timeout_aside hmail).orders]
  | shutdown => exact absurd rfl hstop
  | _ =>
    show List.Perm { d with mail := d.mail.tail }.orders _
    rw [htail rfl]

/-- The loop stops, and what is queued behind the shutdown is lost. -/
theorem stop_orders {rest : List Command} (hmail : d.mail = .shutdown :: rest) :
    ((d.take .shutdown).orders ++ rest.filterMap Command.restore?).Perm d.orders := by
  have hqueued : d.queued = rest.filterMap Command.restore? := by
    rw [queued, hmail]
    rfl
  show (d.waiting ++ d.running.map (·.2) ++ rest.filterMap Command.restore?).Perm _
  rw [orders, hqueued, List.append_assoc (rest.filterMap Command.restore?)]
  exact List.perm_append_comm

theorem post_orders (d : Desk) (command : Command) :
    (d.post command).orders.Perm
      (d.orders ++ if d.looping then command.restore?.toList else []) := by
  unfold post
  split
  · have hqueued : ([command].filter (!·.isQuiet)).filterMap Command.restore? =
        command.restore?.toList := by
      cases command <;> rfl
    classical
    refine List.perm_iff_count.2 fun x => ?_
    simp only [orders, queued, List.filterMap_append, hqueued, List.count_append]
    omega
  · rw [List.append_nil]

/-- A restore that runs comes to its end. -/
theorem finish_orders {number : Nat} {order : RestoreOrder} (started : Bool)
    (hmem : (number, order) ∈ d.running) (hnodup : (d.running.map (·.1)).Nodup) :
    d.orders.Perm (order :: (d.finish number order started).orders) := by
  obtain ⟨_, _, heq⟩ := d.finish_frame number order started
  have hqueued : (d.finish number order started).queued = d.queued := by
    rw [heq]
    show (if d.looping then d.mail ++ [.restoreFinished order.session]
      else d.mail).filterMap Command.restore? = _
    split
    · simp [queued, Command.restore?]
    · rfl
  have hrunning : (d.running.map (·.2)).Perm
      (order :: (d.running.filter fun entry => entry.1 ≠ number).map (·.2)) :=
    (perm_cons_filter hnodup hmem).map Prod.snd
  rw [orders, orders, hqueued, heq]
  exact (hrunning.append_left _).trans List.perm_middle

end Desk

theorem System.Shows.orders {s : System} {kept : List Command} {d : Desk} (h : s.Shows kept d) :
    s.desk.orders.Perm d.orders := by
  rw [h.eq]
  exact (h.running.map Prod.snd).append_left _

/-- The installation that an incident asks about. -/
def Incident.asks : Incident → List Int
  | .event (.call (.restoreAtInstall caller _ token)) => if caller.privileged then [token] else []
  | _ => []

namespace World

variable {w : World} {i : Incident} {d : Desk}

/-- The restores that are queued, wait or run. -/
def orders (w : World) : List RestoreOrder :=
  w.queuedRestores ++ w.system.engine.waitingRestores ++ w.restores.map (·.2)

theorem orders_eq (w : World) : w.orders = w.system.desk.orders := by
  rw [orders, ← queued_eq]
  rfl

/-- The commands that the loop leaves behind when it stops, which are those behind the shutdown. -/
def forfeits (w : World) : Incident → List Command
  | .event .command =>
    match w.system.engine.inbox with
    | .shutdown :: rest => rest
    | _ => []
  | _ => []

/-- A restore that is queued, waits or runs did so before, or was asked for. -/
theorem Matter.orders {order : RestoreOrder} (hmatter : w.Matter i d) (hs : w.system.Numbered)
    (h : w.system.desk.Tended) (hmem : order ∈ d.orders) :
    order ∈ w.system.desk.orders ∨ ∃ c, i = .event (.call c) ∧ c.Submits w.system order := by
  -- restores move from one station to the next, and only a call brings in a new one
  cases hmatter with
  | calm _ | tick | skip _ _ => exact .inl hmem
  | ring => exact .inl (h.ring_aside.orders ▸ hmem)
  | @take command rest hinbox hquiet =>
    have hmail := mail_cons hinbox hquiet
    by_cases hstop : command = .shutdown
    · subst hstop
      exact .inl ((Desk.stop_orders hmail).subset (List.mem_append_left _ hmem))
    · exact .inl ((Desk.take_orders hmail hstop).subset hmem)
  | opens _ _ _ => exact .inl ((Desk.opens_timed _).aside.orders ▸ hmem)
  | renew _ => exact .inl ((Desk.arm_timed _ _).aside.orders ▸ hmem)
  | close _ => exact .inl ((Desk.close_timed _ _).aside.orders ▸ hmem)
  | @submit c other hsubmits =>
    rcases List.mem_append.1 ((w.system.desk.post_orders _).subset hmem) with hold | hnew
    · exact .inl hold
    · split at hnew
      · cases List.mem_singleton.1 hnew
        exact .inr ⟨c, rfl, hsubmits⟩
      · cases hnew
  | @finish number other started hend =>
    have hfinish := Desk.finish_orders started (ending_mem hend) (running_nodup hs)
    exact .inl (hfinish.mem_iff.2 (List.mem_cons_of_mem _ hmem))
  | stop =>
    rcases List.mem_append.1 ((w.system.desk.post_orders _).subset hmem) with hold | hnew
    · exact .inl hold
    · split at hnew <;> cases hnew

end World

namespace Desk

variable {d d' : Desk}

/-- The installations about which the installer was told or is still to be told. -/
def promised (d : Desk) : List Int :=
  d.installed.map (·.1) ++ d.orders.filterMap (·.installToken)

theorem promised_perm (hinstalled : d'.installed = d.installed)
    (horders : d'.orders.Perm d.orders) : d'.promised.Perm d.promised := by
  rw [promised, promised, hinstalled]
  exact (horders.filterMap _).append_left _

theorem Timed.promised (h : d.Timed d') : d'.promised.Perm d.promised :=
  promised_perm (Prod.mk.inj h.records).1 (.of_eq h.aside.orders)

theorem take_promised {command : Command} {rest : List Command} (hmail : d.mail = command :: rest)
    (hstop : command ≠ .shutdown) : (d.take command).promised.Perm d.promised :=
  promised_perm (Prod.mk.inj (d.take_records command)).1 (take_orders hmail hstop)

end Desk

namespace World

variable {w : World} {i : Incident} {d : Desk}

/-- **The installer was told, or is still to be told, of every installation it asked about**, unless
the loop has just left the restore behind. -/
theorem Matter.promises (hmatter : w.Matter i d) (hs : w.system.Numbered)
    (h : w.system.desk.Tended) :
    (d.promised ++ ((w.forfeits i).filterMap Command.restore?).filterMap (·.installToken)).Perm
      (w.system.desk.promised ++ i.asks) := by
  have haside : w.forfeits i = [] → i.asks = [] → d.promised.Perm w.system.desk.promised →
      (d.promised ++ ((w.forfeits i).filterMap Command.restore?).filterMap (·.installToken)).Perm
        (w.system.desk.promised ++ i.asks) := by
    intro hforfeits hasks hperm
    rw [hforfeits, hasks, List.filterMap_nil, List.filterMap_nil, List.append_nil, List.append_nil]
    exact hperm
  cases hmatter with
  | calm hminor =>
    refine haside ?_ ?_ (.refl _)
    · unfold forfeits
      split
      · split
        · rename_i hinbox
          simp [Concerns, hinbox, Command.isQuiet] at hminor
        · rfl
      · rfl
    · unfold Incident.asks
      split
      · rename_i caller _ _
        have hcaller : caller.privileged = false := by simpa [Concerns] using hminor
        rw [hcaller]
        rfl
      · rfl
  | tick => exact haside rfl rfl (.refl _)
  | ring => exact haside rfl rfl (Desk.promised_perm rfl (.of_eq h.ring_aside.orders))
  | @take command rest hinbox hquiet =>
    have hmail := mail_cons hinbox hquiet
    by_cases hstop : command = .shutdown
    · subst hstop
      have hforfeits : w.forfeits (.event .command) = rest := by simp only [forfeits, hinbox]
      have horders := (Desk.stop_orders hmail).filterMap (·.installToken)
      -- the restores behind the shutdown go from the queue to what is forfeited
      have hlost : (rest.filter (!·.isQuiet)).filterMap Command.restore? =
          rest.filterMap Command.restore? := by
        rw [List.filterMap_filter]
        refine List.filterMap_congr fun command _ => ?_
        cases command <;> rfl
      rw [hlost, List.filterMap_append] at horders
      rw [hforfeits, Desk.promised, Desk.promised, List.append_assoc]
      show List.Perm _ (_ ++ [])
      rw [List.append_nil]
      exact horders.append_left _
    · refine haside ?_ rfl (Desk.take_promised hmail hstop)
      unfold forfeits
      cases command with
      | shutdown => exact absurd rfl hstop
      | _ => simp only [hinbox]
  | opens _ _ _ => exact haside rfl rfl (Desk.opens_timed _).promised
  | renew _ => exact haside rfl rfl (Desk.arm_timed _ _).promised
  | close _ => exact haside rfl rfl (Desk.close_timed _ _).promised
  | @submit c order hsubmits =>
    have hposted : (w.system.desk.post (.startRestore order)).installed =
        w.system.desk.installed := by
      unfold Desk.post
      split <;> rfl
    have horders := (w.system.desk.post_orders (.startRestore order)).filterMap (·.installToken)
    have hasks : (Incident.event (.call c)).asks =
        (if w.system.desk.looping then [order] else []).filterMap (·.installToken) := by
      cases hsubmits with
      | one _ _ | all _ _ =>
        cases w.system.desk.looping <;> rfl
      | install hprivileged hlooping _ =>
        have hlooping' : w.system.desk.looping = true := hlooping
        simp [Incident.asks, hprivileged, hlooping']
    rw [List.filterMap_append] at horders
    show ((w.system.desk.post _).promised ++ []).Perm _
    rw [List.append_nil, hasks, Desk.promised, Desk.promised, hposted, List.append_assoc]
    exact horders.append_left _
  | @skip caller package token hprivileged _ =>
    have hasks : (Incident.event (.call (.restoreAtInstall caller package token))).asks =
        [token] := if_pos hprivileged
    have hold : (w.system.desk.tell token false).orders = w.system.desk.orders := rfl
    show ((w.system.desk.tell token false).promised ++ []).Perm _
    rw [List.append_nil, hasks, Desk.promised, Desk.promised, hold]
    simp only [Desk.tell, List.map_append, List.map_cons, List.map_nil, List.append_assoc]
    exact List.perm_append_comm.append_left _
  | @finish number order started hend =>
    have horders := (Desk.finish_orders started (ending_mem hend)
      (running_nodup hs)).filterMap (·.installToken)
    obtain ⟨_, _, heq⟩ := w.system.desk.finish_frame number order started
    have hinstalled : ((w.system.desk.finish number order started).installed).map (·.1) =
        w.system.desk.installed.map (·.1) ++ order.installToken.toList := by
      rw [heq, List.map_append, List.map_map]
      cases order.installToken <;> rfl
    -- the installation goes from the restores to what the installer was told
    refine haside rfl rfl ?_
    rw [Desk.promised, Desk.promised, hinstalled, List.append_assoc]
    refine List.Perm.append_left _ (.trans ?_ horders.symm)
    rw [List.filterMap_cons]
    cases order.installToken <;> exact .refl _
  | stop =>
    have hposted : (w.system.desk.post .shutdown).installed = w.system.desk.installed := by
      unfold Desk.post
      split <;> rfl
    refine haside rfl rfl (Desk.promised_perm hposted ?_)
    refine (w.system.desk.post_orders .shutdown).trans (.of_eq ?_)
    split <;> exact List.append_nil _

end World

end Holdfast
