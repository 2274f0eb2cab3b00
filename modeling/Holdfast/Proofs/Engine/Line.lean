import Holdfast.Proofs.Engine.Alarms

/-!
# The line of restores

Restores from sessions and from the installer share one line. A restore is queued for the loop, then
waits or begins to run, and the flag of the engine is handed over from one to the next.

- `Desk.InTurn`: **one restore at a time**, which is what the flag stands for;
- `Desk.Flow`: at each station what was there and came in is what went out and is there now;
- `Desk.InTurn.start`, `Desk.InTurn.finished`, `Desk.InTurn.submit`, `Desk.InTurn.finish`: what is
  done at the desk keeps restores in turn and moves them on from station to station.
-/

namespace Holdfast

/-- Whether a command announces the end of a restore. -/
def Command.isRestoreEnd : Command → Bool
  | .restoreFinished _ => true
  | _ => false

namespace Desk

variable {d d' : Desk}

/-! ## One at a time -/

/-- The restores that are queued. -/
def queued (d : Desk) : List RestoreOrder := d.mail.filterMap Command.restore?

/-- The loop runs. The flag is up for exactly one restore, which runs or whose end is queued, and
only then do others wait. -/
structure InTurn (d : Desk) : Prop where
  looping : d.looping = true
  lasting : .shutdown ∉ d.mail
  single : d.running.length + d.mail.countP Command.isRestoreEnd = d.restoring.toNat
  line : d.restoring = false → d.waiting = []

theorem InTurn.running_le_one (h : d.InTurn) : d.running.length ≤ 1 := by
  have hflag := Bool.toNat_le d.restoring
  have hsingle := h.single
  omega

/-- The flag is up while a restore runs, one waits, or the end of one is queued. -/
theorem InTurn.restoring_iff (h : d.InTurn) :
    d.restoring = true ↔ d.running ≠ [] ∨ d.waiting ≠ [] ∨
      ∃ session, .restoreFinished session ∈ d.mail := by
  have hsingle := h.single
  constructor
  · intro hflag
    rw [hflag] at hsingle
    by_cases hrunning : d.running = []
    · refine .inr (.inr ?_)
      rw [hrunning] at hsingle
      obtain ⟨command, hmem, hend⟩ := List.countP_pos_iff.1
        (show 0 < d.mail.countP Command.isRestoreEnd by
          have hone : 0 + d.mail.countP Command.isRestoreEnd = 1 := hsingle
          omega)
      cases command with
      | restoreFinished session => exact ⟨session, hmem⟩
      | _ => cases hend
    · exact .inl hrunning
  · intro hbusy
    by_contra hflag
    have hdown : d.restoring = false := by simpa using hflag
    rw [hdown] at hsingle
    have hnone : d.running.length = 0 ∧ d.mail.countP Command.isRestoreEnd = 0 := by
      have hzero : d.running.length + d.mail.countP Command.isRestoreEnd = 0 := hsingle
      omega
    rcases hbusy with hrunning | hwaiting | ⟨session, hmem⟩
    · exact hrunning (List.length_eq_zero_iff.1 hnone.1)
    · exact hwaiting (h.line hdown)
    · exact absurd rfl (List.countP_eq_zero.1 hnone.2 _ hmem)

/-! ## From station to station -/

/-- What is queued, waits and runs, and what has come in and gone out. -/
structure Flow (d d' : Desk) (submitted processed : List RestoreOrder)
    (begun ended : List (Nat × RestoreOrder)) : Prop where
  queue : d.queued ++ submitted = processed ++ d'.queued
  line : d.waiting ++ processed = begun.map (·.2) ++ d'.waiting
  tasks : ∃ rest, d.running = ended ++ rest ∧ d'.running = rest ++ begun
  fresh : ∀ entry ∈ begun, d.nextNumber ≤ entry.1

/-- The line of restores is as it was. -/
structure Aside (d d' : Desk) : Prop where
  looping : d'.looping = d.looping
  lasting : .shutdown ∈ d'.mail → .shutdown ∈ d.mail
  ends : d'.mail.countP Command.isRestoreEnd = d.mail.countP Command.isRestoreEnd
  queued : d'.queued = d.queued
  restoring : d'.restoring = d.restoring
  waiting : d'.waiting = d.waiting
  running : d'.running = d.running

theorem Aside.inTurn (h : d.Aside d') (hd : d.InTurn) : d'.InTurn where
  looping := h.looping.trans hd.looping
  lasting hmem := hd.lasting (h.lasting hmem)
  single := by
    rw [h.running, h.ends, h.restoring]
    exact hd.single
  line := by
    rw [h.restoring, h.waiting]
    exact hd.line

theorem Aside.flow (h : d.Aside d') : d.Flow d' [] [] [] [] where
  queue := by rw [List.append_nil, List.nil_append, h.queued]
  line := by rw [List.append_nil, List.map_nil, List.nil_append, h.waiting]
  tasks := ⟨d.running, rfl, by rw [h.running, List.append_nil]⟩
  fresh := nofun

theorem Timed.aside (h : d.Timed d') : d.Aside d' := by
  obtain ⟨alarms, session, nextNumber, -, rfl⟩ := h
  exact ⟨rfl, id, rfl, rfl, rfl, rfl, rfl⟩

/-- Alarms are heard, but not as restores. -/
theorem Tended.ring_aside (h : d.Tended) : d.Aside d.ring := by
  have hrung : ∀ command ∈ (d.alarms.filter (fun alarm => alarm.due ≤ d.clock)).filterMap
      (·.action.command?), ∃ session, command = .sessionTimeout session := by
    intro command hmem
    obtain ⟨alarm, halarm, hcommand⟩ := List.mem_filterMap.1 hmem
    obtain ⟨session, haction, -⟩ := h.alarms alarm (List.mem_of_mem_filter halarm)
    rw [haction] at hcommand
    cases hcommand
    exact ⟨session, rfl⟩
  unfold ring
  generalize (d.alarms.filter (fun alarm => alarm.due ≤ d.clock)).filterMap (·.action.command?) =
    rung at hrung
  have hends : rung.countP Command.isRestoreEnd = 0 := by
    refine List.countP_eq_zero.2 fun command hmem => ?_
    obtain ⟨session, rfl⟩ := hrung command hmem
    exact Bool.false_ne_true
  have hqueued : rung.filterMap Command.restore? = [] := by
    refine List.filterMap_eq_nil_iff.2 fun command hmem => ?_
    obtain ⟨session, rfl⟩ := hrung command hmem
    rfl
  cases hlooping : d.looping with
  | false => exact ⟨hlooping.symm, id, rfl, rfl, rfl, rfl, rfl⟩
  | true =>
    refine ⟨hlooping.symm, fun hmem => ?_, ?_, ?_, rfl, rfl, rfl⟩
    · rcases List.mem_append.1 hmem with hold | hnew
      · exact hold
      · obtain ⟨session, hother⟩ := hrung _ hnew
        cases hother
    · show (d.mail ++ rung).countP _ = _
      rw [List.countP_append, hends, Nat.add_zero]
    · show (d.mail ++ rung).filterMap _ = _
      rw [List.filterMap_append, hqueued, List.append_nil]
      rfl

/-! ## The stations one by one -/

/-- The loop takes a restore, which begins to run or waits. -/
theorem InTurn.start (h : d.InTurn) {order : RestoreOrder} {rest : List Command}
    (hmail : d.mail = .startRestore order :: rest) :
    (d.take (.startRestore order)).InTurn ∧
      ∃ begun, d.Flow (d.take (.startRestore order)) [] [order] begun [] := by
  obtain ⟨d₁, ⟨alarms, opened, nextNumber, hnext, rfl⟩, heq⟩ :=
    start_frame { d with mail := rest } order
  have htake : d.take (.startRestore order) =
      { d with mail := rest, alarms, session := opened, nextNumber }.receive order := by
    rw [take, hmail]
    exact heq
  have hsingle := h.single
  have hlasting : .shutdown ∉ rest := fun hmem => h.lasting (hmail ▸ List.mem_cons_of_mem _ hmem)
  have hends : d.mail.countP Command.isRestoreEnd = rest.countP Command.isRestoreEnd := by
    rw [hmail, List.countP_cons_of_neg Bool.false_ne_true]
  have hqueue : d.queued ++ [] = [order] ++ rest.filterMap Command.restore? := by
    rw [List.append_nil, queued, hmail]
    rfl
  rw [hends] at hsingle
  rw [htake, receive]
  cases hflag : d.restoring with
  | true =>
    rw [hflag] at hsingle
    exact ⟨⟨h.looping, hlasting, hsingle, nofun⟩, [], hqueue, rfl,
      ⟨d.running, rfl, (List.append_nil _).symm⟩, nofun⟩
  | false =>
    rw [hflag] at hsingle
    have hnone : d.running = [] := List.length_eq_zero_iff.1 (by
      have hzero : d.running.length + rest.countP Command.isRestoreEnd = 0 := hsingle
      omega)
    refine ⟨⟨h.looping, hlasting, ?_, nofun⟩, [(nextNumber, order)], hqueue, ?_,
      ⟨d.running, rfl, rfl⟩, ?_⟩
    · show (d.running ++ [(nextNumber, order)]).length + rest.countP _ = 1
      rw [hnone] at hsingle ⊢
      simpa using hsingle
    · show d.waiting ++ [order] = [order] ++ d.waiting
      rw [h.line hflag]
      rfl
    · intro entry hmem
      rw [List.mem_singleton.1 hmem]
      exact hnext

/-- The loop takes the end of a restore, and the next one begins to run. -/
theorem InTurn.finished (h : d.InTurn) {session : Option Nat} {rest : List Command}
    (hmail : d.mail = .restoreFinished session :: rest) :
    (d.take (.restoreFinished session)).InTurn ∧
      ∃ begun, d.Flow (d.take (.restoreFinished session)) [] [] begun [] := by
  obtain ⟨d₁, ⟨alarms, opened, nextNumber, hnext, rfl⟩, heq⟩ :=
    finished_frame { d with mail := rest } session
  have htake : d.take (.restoreFinished session) =
      { d with mail := rest, alarms, session := opened, nextNumber }.advance := by
    rw [take, hmail]
    exact heq
  have hlasting : .shutdown ∉ rest := fun hmem => h.lasting (hmail ▸ List.mem_cons_of_mem _ hmem)
  -- the flag was up for the restore whose end this is
  have hover : d.restoring = true ∧ d.running = [] ∧ rest.countP Command.isRestoreEnd = 0 := by
    have hsingle := h.single
    rw [hmail, List.countP_cons_of_pos rfl] at hsingle
    cases hflag : d.restoring with
    | false =>
      rw [hflag] at hsingle
      cases hsingle
    | true =>
      rw [hflag] at hsingle
      have hone : d.running.length + (rest.countP Command.isRestoreEnd + 1) = 1 := hsingle
      exact ⟨rfl, List.length_eq_zero_iff.1 (by omega), by omega⟩
  obtain ⟨hflag, hnone, hends⟩ := hover
  have hqueue : d.queued ++ [] = [] ++ rest.filterMap Command.restore? := by
    rw [List.append_nil, queued, hmail]
    rfl
  rw [htake]
  unfold advance
  split
  · rename_i hline
    have hline : d.waiting = [] := hline
    refine ⟨⟨h.looping, hlasting, ?_, fun _ => hline⟩, [], hqueue, ?_,
      ⟨d.running, rfl, (List.append_nil _).symm⟩, nofun⟩
    · show d.running.length + rest.countP _ = 0
      rw [hnone, hends]
      rfl
    · show d.waiting ++ [] = [] ++ d.waiting
      rw [List.append_nil, List.nil_append]
  · rename_i order waiting hline
    have hline : d.waiting = order :: waiting := hline
    refine ⟨⟨h.looping, hlasting, ?_, ?_⟩, [(nextNumber, order)], hqueue, ?_,
      ⟨d.running, rfl, rfl⟩, ?_⟩
    · show (d.running ++ [(nextNumber, order)]).length + rest.countP _ = d.restoring.toNat
      rw [hnone, hends, hflag]
      rfl
    · intro hdown
      cases hflag.symm.trans hdown
    · show d.waiting ++ [] = [order] ++ waiting
      rw [hline, List.append_nil]
      rfl
    · intro entry hmem
      rw [List.mem_singleton.1 hmem]
      exact hnext

/-- What the installer was told, and the ancestral dataset. -/
def records (d : Desk) : List (Int × Bool) × UInt64 × Option NameSet :=
  (d.installed, d.ancestral, d.ancestralPackages)

theorem Timed.records (h : d.Timed d') : d'.records = d.records := by
  obtain ⟨_, _, _, -, rfl⟩ := h
  rfl

/-- The loop puts nothing on record. -/
theorem take_records (d : Desk) (command : Command) : (d.take command).records = d.records := by
  cases command with
  | startRestore order =>
    obtain ⟨d₁, htimed, heq⟩ := start_frame { d with mail := d.mail.tail } order
    obtain ⟨_, _, _, _, -, hreceive⟩ := receive_frame d₁ order
    have hrecords : (d₁.receive order).records = d₁.records := by rw [hreceive]; rfl
    show (start _ order).records = _
    rw [heq, hrecords, htimed.records]
    rfl
  | restoreFinished session =>
    obtain ⟨d₁, htimed, heq⟩ := finished_frame { d with mail := d.mail.tail } session
    obtain ⟨_, _, _, _, -, hadvance⟩ := advance_frame d₁
    have hrecords : d₁.advance.records = d₁.records := by rw [hadvance]; rfl
    show (finished _ session).records = _
    rw [heq, hrecords, htimed.records]
    rfl
  | sessionTimeout session => exact (close_timed { d with mail := d.mail.tail } session).records
  | _ => rfl

/-- The loop takes a timeout. -/
theorem timeout_aside {session : Nat} {rest : List Command}
    (hmail : d.mail = .sessionTimeout session :: rest) :
    d.Aside (d.take (.sessionTimeout session)) := by
  obtain ⟨alarms, opened, nextNumber, hnext, heq⟩ :=
    close_timed { d with mail := d.mail.tail } session
  have htake : d.take (.sessionTimeout session) =
      { d with mail := d.mail.tail, alarms, session := opened, nextNumber } := heq
  rw [htake]
  refine ⟨rfl, List.mem_of_mem_tail, ?_, ?_, rfl, rfl, rfl⟩
  · show d.mail.tail.countP _ = d.mail.countP _
    rw [hmail, List.countP_cons_of_neg Bool.false_ne_true]
    rfl
  · show d.mail.tail.filterMap _ = d.mail.filterMap _
    rw [hmail]
    rfl

/-- A restore is queued. -/
theorem InTurn.submit (h : d.InTurn) (order : RestoreOrder) :
    (d.post (.startRestore order)).InTurn ∧
      d.Flow (d.post (.startRestore order)) [order] [] [] [] := by
  rw [post, if_pos h.looping]
  refine ⟨⟨h.looping, fun hmem => ?_, ?_, h.line⟩, ?_, List.append_nil _, ⟨d.running, rfl, ?_⟩,
    fun _ hnone => absurd hnone List.not_mem_nil⟩
  · rcases List.mem_append.1 hmem with hold | hnew
    · exact h.lasting hold
    · cases List.mem_singleton.1 hnew
  · show d.running.length + (d.mail ++ [Command.startRestore order]).countP _ = _
    rw [List.countP_append]
    exact h.single
  · show d.queued ++ [order] = [] ++ (d.mail ++ [Command.startRestore order]).filterMap _
    rw [List.filterMap_append]
    rfl
  · exact (List.append_nil _).symm

/-- The task of a restore comes to its end, and the loop will hear of it. -/
theorem InTurn.finish (h : d.InTurn) {number : Nat} {order : RestoreOrder} (started : Bool)
    (hmem : (number, order) ∈ d.running) :
    (d.finish number order started).InTurn ∧
      d.Flow (d.finish number order started) [] [] [] [(number, order)] := by
  have hone : d.running = [(number, order)] := by
    obtain ⟨entry, hentry⟩ := List.length_eq_one_iff.1
      (Nat.le_antisymm h.running_le_one (List.length_pos_of_mem hmem))
    rw [hentry] at hmem
    rw [hentry, List.mem_singleton.1 hmem]
  have hgone : d.running.filter (fun entry => entry.1 ≠ number) = [] := by
    rw [hone]
    simp
  obtain ⟨ancestral, ancestralPackages, heq⟩ := d.finish_frame number order started
  have hsingle := h.single
  rw [heq, hgone, if_pos h.looping]
  refine ⟨⟨h.looping, fun hmem => ?_, ?_, h.line⟩, ?_, ?_, ⟨[], ?_, rfl⟩, nofun⟩
  · rcases List.mem_append.1 hmem with hold | hnew
    · exact h.lasting hold
    · cases List.mem_singleton.1 hnew
  · show 0 + (d.mail ++ [Command.restoreFinished order.session]).countP _ = d.restoring.toNat
    rw [← hsingle, hone, List.countP_append, Nat.zero_add, Nat.add_comm]
    rfl
  · show d.queued ++ [] = [] ++ (d.mail ++ [Command.restoreFinished order.session]).filterMap _
    rw [List.filterMap_append, List.append_nil]
    exact (List.append_nil _).symm
  · show d.waiting ++ [] = [] ++ d.waiting
    rw [List.append_nil, List.nil_append]
  · rw [hone, List.append_nil]

end Desk

end Holdfast
