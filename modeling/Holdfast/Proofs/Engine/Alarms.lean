import Holdfast.Proofs.Engine.Matters

/-!
# The alarm of the open session

The only alarm at the desk of restores is the one that will close the open session for inactivity,
and the session knows its number.

- `Desk.Tended`: this, as an invariant; `World.live_tended` has it after every run;
- `Desk.Tended.arm_open`, `Desk.Tended.disarm_open`, `Desk.Tended.close_open`, …: what the
  operations on timers come to at such a desk.
-/

namespace Holdfast

namespace Desk

variable {d d' : Desk} {opened : OpenSession} {session : Nat}

/-- Every alarm is that of the open session, and numbers handed out are below the next one. -/
structure Tended (d : Desk) : Prop where
  alarms : ∀ alarm ∈ d.alarms, ∃ session, alarm.action = .post (.sessionTimeout session) ∧
    d.session = some ⟨session, some alarm.number⟩
  below : ∀ opened, d.session = some opened → opened.number < d.nextNumber ∧
    ∀ timer, opened.timer = some timer → timer < d.nextNumber

/-! ## Timers at a tended desk -/

/-- A change elsewhere. -/
theorem Tended.of_eq (h : d.Tended) (halarms : d'.alarms = d.alarms)
    (hsession : d'.session = d.session) (hnext : d.nextNumber ≤ d'.nextNumber) : d'.Tended where
  alarms := by
    rw [halarms, hsession]
    exact h.alarms
  below := by
    rw [hsession]
    intro opened hopen
    obtain ⟨hnumber, htimer⟩ := h.below opened hopen
    exact ⟨Nat.lt_of_lt_of_le hnumber hnext,
      fun timer hset => Nat.lt_of_lt_of_le (htimer timer hset) hnext⟩

/-- An alarm is the one that the open session knows of. -/
theorem Tended.number_eq (h : d.Tended) {alarm : Timer} (hmem : alarm ∈ d.alarms)
    (hopen : d.session = some opened) : opened.timer = some alarm.number := by
  obtain ⟨session, -, hsession⟩ := h.alarms alarm hmem
  cases hopen.symm.trans hsession
  rfl

/-- Without a session there is no alarm. -/
theorem Tended.silent (h : d.Tended) (hnone : d.session = none) : d.alarms = [] := by
  refine List.eq_nil_iff_forall_not_mem.2 fun alarm hmem => ?_
  obtain ⟨session, -, hsession⟩ := h.alarms alarm hmem
  cases hnone.symm.trans hsession

/-- The timer of the open session is the only one. -/
theorem Tended.unset_own (h : d.Tended) (hopen : d.session = some opened) :
    d.unset opened.timer = { d with alarms := [] } := by
  cases htimer : opened.timer with
  | none =>
    have hnone : d.alarms = [] := by
      refine List.eq_nil_iff_forall_not_mem.2 fun alarm hmem => ?_
      cases htimer.symm.trans (h.number_eq hmem hopen)
    show d = _
    rw [← hnone]
  | some timer =>
    have hnone : d.alarms.filter (fun alarm => alarm.number ≠ timer) = [] := by
      refine List.filter_eq_nil_iff.2 fun alarm hmem => ?_
      cases htimer.symm.trans (h.number_eq hmem hopen)
      simp
    rw [unset, hnone]

/-- The open session gives up its timer for another one. -/
theorem retime_open (hopen : d.session = some opened) (timer : Option Nat) :
    d.retime opened.number timer =
      { d.unset opened.timer with session := some ⟨opened.number, timer⟩ } := by
  unfold retime
  split
  · rename_i other hother
    cases hopen.symm.trans hother
    rw [if_pos rfl]
  · rename_i hnone
    cases hopen.symm.trans hnone

/-- A session whose restore begins is left without an alarm. -/
theorem Tended.disarm_open (h : d.Tended) (hopen : d.session = some opened) :
    d.retime opened.number none =
      { d with alarms := [], session := some ⟨opened.number, none⟩ } := by
  rw [retime_open hopen, h.unset_own hopen]

/-- A session that has been closed has no timer to give up. -/
theorem disarm_closed (hclosed : d.isSession session = false) : d.retime session none = d := by
  unfold retime
  split
  · rename_i opened hopen
    have hother : opened.number ≠ session := by simpa [isSession, hopen] using hclosed
    rw [if_neg hother]
    rfl
  · rfl

/-- An open session that is armed anew has one alarm, the new one. -/
theorem Tended.arm_open (h : d.Tended) (hopen : d.session = some opened) :
    d.arm opened.number =
      { d with
        alarms := [d.alarm opened.number]
        session := some ⟨opened.number, some d.nextNumber⟩
        nextNumber := d.nextNumber + 1 } := by
  have hunset := congrArg Desk.alarms (h.unset_own hopen)
  have hkept : ∀ more : List Timer, (∀ alarm ∈ more, opened.timer ≠ some alarm.number) →
      ({ d with alarms := d.alarms ++ more, nextNumber := d.nextNumber + 1 }.unset
        opened.timer) = { d with alarms := more, nextNumber := d.nextNumber + 1 } := by
    intro more hmore
    cases htimer : opened.timer with
    | none =>
      rw [htimer] at hunset
      have hnone : d.alarms = [] := hunset
      rw [unset, hnone, List.nil_append]
    | some timer =>
      rw [htimer] at hunset
      have hnone : d.alarms.filter (fun alarm => alarm.number ≠ timer) = [] := hunset
      have hall : more.filter (fun alarm => alarm.number ≠ timer) = more := by
        refine List.filter_eq_self.2 fun alarm hmem => ?_
        have hother : alarm.number ≠ timer := fun heq => hmore alarm hmem (heq ▸ htimer)
        simpa using hother
      rw [unset, List.filter_append, hnone, hall, List.nil_append]
  -- the number of the new alarm is fresh, so stopping the old one spares it
  have hnew : ∀ alarm ∈ [d.alarm opened.number], opened.timer ≠ some alarm.number := by
    intro alarm hmem htimer
    have hbelow := (h.below opened hopen).2 _ htimer
    rw [List.mem_singleton.1 hmem] at hbelow
    exact Nat.lt_irrefl _ hbelow
  have hretime := retime_open
    (d := { d with
      alarms := d.alarms ++ [d.alarm opened.number], nextNumber := d.nextNumber + 1 }) hopen
    (some d.nextNumber)
  rw [arm, hretime, hkept _ hnew]

/-- The new alarm of a session that is not open is stopped at once. -/
theorem Tended.arm_closed (h : d.Tended) (hclosed : d.isSession session = false) :
    d.arm session = { d with nextNumber := d.nextNumber + 1 } := by
  -- only the new alarm has the number that is stopped
  have hkept : (d.alarms ++ [d.alarm session]).filter (fun alarm => alarm.number ≠ d.nextNumber) =
      d.alarms := by
    have hold : d.alarms.filter (fun alarm => alarm.number ≠ d.nextNumber) = d.alarms := by
      refine List.filter_eq_self.2 fun alarm hmem => ?_
      obtain ⟨session, -, hsession⟩ := h.alarms alarm hmem
      have hbelow := (h.below _ hsession).2 _ rfl
      simpa using Nat.ne_of_lt hbelow
    rw [List.filter_append, hold]
    simp [alarm]
  unfold arm retime
  simp only
  split
  · rename_i opened hopen
    have hother : opened.number ≠ session := by simpa [isSession, hopen] using hclosed
    rw [if_neg hother]
    simp only [unset, hkept]
  · simp only [unset, hkept]

/-- The session that is closed takes its alarm with it. -/
theorem Tended.close_open (h : d.Tended) (hopen : d.session = some opened) :
    d.close opened.number = { d with alarms := [], session := none } := by
  unfold Desk.close
  split
  · rename_i other hother
    cases hopen.symm.trans hother
    rw [if_pos rfl, h.unset_own hopen]
  · rename_i hnone
    cases hopen.symm.trans hnone

/-- A session can be closed once. -/
theorem close_closed (hclosed : d.isSession session = false) : d.close session = d := by
  unfold close
  split
  · rename_i opened hopen
    have hother : opened.number ≠ session := by simpa [isSession, hopen] using hclosed
    rw [if_neg hother]
  · rfl

/-- A session is open, or it is not. -/
theorem isSession_cases (d : Desk) (session : Nat) :
    (∃ opened, d.session = some opened ∧ opened.number = session ∧ d.isSession session = true) ∨
      d.isSession session = false := by
  unfold isSession
  cases d.session with
  | none => exact .inr rfl
  | some opened =>
    by_cases hnumber : opened.number = session
    · exact .inl ⟨opened, rfl, hnumber, by simpa using hnumber⟩
    · exact .inr (by simpa using hnumber)

/-! ## Every matter keeps the desk tended -/

/-- The end of a restore, or an answer of a transport, arms a session. It may have been closed
since. -/
theorem Tended.arm (h : d.Tended) (session : Nat) : (d.arm session).Tended := by
  rcases d.isSession_cases session with ⟨opened, hopen, rfl, -⟩ | hclosed
  · rw [h.arm_open hopen]
    refine ⟨fun alarm hmem => ?_, fun other hother => ?_⟩
    · cases List.mem_singleton.1 hmem
      exact ⟨opened.number, rfl, rfl⟩
    · cases hother
      refine ⟨Nat.lt_succ_of_lt (h.below opened hopen).1, fun timer htimer => ?_⟩
      cases htimer
      exact Nat.lt_succ_self _
  · rw [h.arm_closed hclosed]
    exact h.of_eq rfl rfl (Nat.le_succ _)

/-- The beginning of a restore stops the alarm of its session. -/
theorem Tended.disarm (h : d.Tended) (session : Nat) : (d.retime session none).Tended := by
  rcases d.isSession_cases session with ⟨opened, hopen, rfl, -⟩ | hclosed
  · rw [h.disarm_open hopen]
    refine ⟨nofun, fun other hother => ?_⟩
    cases hother
    exact ⟨(h.below opened hopen).1, nofun⟩
  · rwa [disarm_closed hclosed]

/-- A session is closed. -/
theorem Tended.close (h : d.Tended) (session : Nat) : (d.close session).Tended := by
  rcases d.isSession_cases session with ⟨opened, hopen, rfl, -⟩ | hclosed
  · rw [h.close_open hopen]
    exact ⟨nofun, nofun⟩
  · rwa [close_closed hclosed]

/-- A session was opened that has no alarm yet. -/
theorem Tended.begin (h : d.Tended) (hnone : d.session = none) :
    ({ d with session := some ⟨d.nextNumber, none⟩, nextNumber := d.nextNumber + 1 } :
      Desk).Tended := by
  refine ⟨?_, fun opened hopen => ?_⟩
  · show ∀ alarm ∈ d.alarms, _
    rw [h.silent hnone]
    exact nofun
  · cases hopen
    exact ⟨Nat.lt_succ_self _, nofun⟩

/-- A session is opened where none is, and is armed at once. -/
theorem Tended.opens (h : d.Tended) (hnone : d.session = none) : d.opens.Tended :=
  (h.begin hnone).arm _

/-- Orders that begin or wait set no alarm. -/
theorem Tended.receive (h : d.Tended) (order : RestoreOrder) : (d.receive order).Tended := by
  obtain ⟨_, _, _, _, hnext, heq⟩ := receive_frame d order
  rw [heq]
  exact h.of_eq rfl rfl hnext

/-- Neither does the next restore in the line. -/
theorem Tended.advance (h : d.Tended) : d.advance.Tended := by
  obtain ⟨_, _, _, _, hnext, heq⟩ := advance_frame d
  rw [heq]
  exact h.of_eq rfl rfl hnext

/-- The commands that are matters of restores. -/
theorem Tended.handle (h : d.Tended) (command : Command) : (d.handle command).Tended := by
  cases command with
  | startRestore order =>
    show (d.start order).Tended
    unfold start
    cases order.session with
    | none => exact h.receive order
    | some session => exact (h.disarm session).receive order
  | restoreFinished session =>
    show (d.finished session).Tended
    unfold finished
    cases session with
    | none => exact h.advance
    | some session =>
      simp only
      split
      · exact (h.arm session).advance
      · exact h.advance
  | sessionTimeout session => exact h.close session
  | shutdown => exact ⟨h.alarms, h.below⟩
  | _ => exact h

/-- A command that is carried out has left the mail. -/
theorem Tended.take (h : d.Tended) (command : Command) : (d.take command).Tended :=
  Tended.handle (d := { d with mail := d.mail.tail }) ⟨h.alarms, h.below⟩ command

/-- The mail sets no alarm. -/
theorem Tended.post (h : d.Tended) (command : Command) : (d.post command).Tended := by
  unfold Desk.post
  split <;> exact ⟨h.alarms, h.below⟩

/-- A restore that ends posts a command, and that arms the session only when it is carried out. -/
theorem Tended.finish (h : d.Tended) (number : Nat) (order : RestoreOrder) (started : Bool) :
    (d.finish number order started).Tended := by
  obtain ⟨_, _, heq⟩ := d.finish_frame number order started
  rw [heq]
  exact ⟨h.alarms, h.below⟩

end Desk

/-- Every matter of restores keeps the desk tended. -/
theorem World.Matter.tended {w : World} {i : Incident} {d : Desk} (hmatter : w.Matter i d)
    (h : w.system.desk.Tended) : d.Tended := by
  cases hmatter with
  | calm _ => exact h
  | tick => exact ⟨h.alarms, h.below⟩
  | ring => exact ⟨fun alarm hmem => h.alarms alarm (List.mem_of_mem_filter hmem), h.below⟩
  | take _ _ => exact h.take _
  | opens _ _ hnone => exact h.opens hnone
  | renew _ => exact h.arm _
  | close session => exact h.close _
  | submit _ => exact h.post _
  | skip _ _ => exact ⟨h.alarms, h.below⟩
  | finish _ => exact h.finish _ _ _
  | stop => exact h.post _

namespace System.Shows

variable {s : System} {kept : List Command} {d : Desk}

/-- A desk that is shown differs at most in what runs and in the next number. -/
theorem eq (h : s.Shows kept d) :
    s.desk = { d with running := s.desk.running, nextNumber := s.engine.nextNumber } := by
  have heq := congrArg (fun d : Desk =>
    { d with running := s.desk.running, nextNumber := s.engine.nextNumber }) h.desk
  exact heq

/-- So it is tended if the desk that it shows is. -/
theorem tended (h : s.Shows kept d) (hd : d.Tended) : s.desk.Tended := by
  rw [h.eq]
  exact hd.of_eq rfl rfl h.next

end System.Shows

namespace World

variable {w : World}

/-- The desk is tended after every run. -/
theorem live_tended (hs : w.system.Numbered) (h : w.system.desk.Tended)
    (incidents : List Incident) :
    (w.live incidents).system.desk.Tended := by
  induction incidents generalizing w with
  | nil => exact h
  | cons i incidents ih =>
    obtain ⟨d, hmatter, hshows⟩ := meet_matter hs i
    exact ih hshows.numbered (hshows.tended (hmatter.tended h))

/-- At the start there is neither a session nor an alarm. -/
theorem opened_tended {settings : Settings} {disk : Disk} {device : Device} {s : System}
    (hstart : System.start settings disk device.fresh = .ok s) :
    (opened s).system.desk.Tended := by
  show s.desk.Tended
  rw [(System.start_desk hstart).2]
  exact ⟨nofun, nofun⟩

end World

end Holdfast
