import Holdfast.Proofs.Engine.Alarms
import Holdfast.Proofs.Engine.Drained
import Mathlib.Data.List.Induction

/-!
# When a session expires

A session is idle from the moment it was opened, its datasets were listed, or the end of one of its
restores was handled, and until the next restore of it is processed.

- `World.renews`, `World.starts`, `World.idle`: since when a session is idle;
- `World.Vigilant`: the alarm of an idle session is due a whole timeout after it became idle, and a
  session that is not idle has none;
- `World.session_expiry`: **a session is closed for inactivity only by a timer that went off when it
  had been idle for the whole timeout**, and how far this keeps it open during its restores;
- `World.expires_under_restore`: listing its datasets makes a session idle although its restore
  runs, and so it expires.
-/

namespace Holdfast

namespace World

/-! ## Idle sessions -/

/-- The reading of the engine's clock. -/
def clock (w : World) : Nat := w.system.engine.ops.clock

/-- Whether the inactivity of a session is counted anew from an incident: it was opened, its
datasets were listed, or the end of one of its restores was handled. -/
def renews (w : World) (session : Nat) : Incident → Bool
  | .event (.call (.beginSession caller package transport)) =>
    match (w.system.beginSession caller package transport).1 with
    | .ok (some opened) => opened.number == session
    | _ => false
  | .event (.land index) =>
    match w.flights[index]? with
    | some (.sets handle _) => handle.number == session
    | _ => false
  | .event .command =>
    match w.system.engine.inbox.head? with
    | some (.restoreFinished (some ended)) => ended == session
    | _ => false
  | _ => false

/-- Whether the loop takes a restore of a session. -/
def starts (w : World) (session : Nat) : Incident → Bool
  | .event .command =>
    match w.system.engine.inbox.head? with
    | some (.startRestore order) => order.session == some session
    | _ => false
  | _ => false

/-- Since when a session is idle after an incident, if it is. -/
def idleAfter (w : World) (session : Nat) (since : Option Nat) (i : Incident) : Option Nat :=
  if w.renews session i then some w.clock
  else if w.starts session i then none
  else since

/-- Since when a session is idle after a run, if it is. -/
def idle (w : World) (session : Nat) (since : Option Nat) : List Incident → Option Nat
  | [] => since
  | i :: incidents => (w.meet i).idle session (w.idleAfter session since i) incidents

/-- Whether the inactivity of a session is counted anew along a run. -/
def renewed (w : World) (session : Nat) : List Incident → Bool
  | [] => false
  | i :: incidents => w.renews session i || (w.meet i).renewed session incidents

variable {w : World} {session : Nat} {since : Option Nat}

theorem idle_concat (incidents : List Incident) (i : Incident) :
    w.idle session since (incidents ++ [i]) =
      (w.live incidents).idleAfter session (w.idle session since incidents) i := by
  induction incidents generalizing w since with
  | nil => rfl
  | cons first incidents ih => exact ih

/-- A session that is not idle becomes so in no other way. -/
theorem idle_none {incidents : List Incident} (h : w.renewed session incidents = false)
    {before after : List Incident} (hsplit : incidents = before ++ after) :
    w.idle session none before = none := by
  induction before generalizing w incidents with
  | nil => rfl
  | cons i before ih =>
    subst hsplit
    obtain ⟨hfirst, hrest⟩ := Bool.or_eq_false_iff.1 h
    have hsame : w.idleAfter session none i = none := by
      rw [idleAfter, if_neg (Bool.eq_false_iff.1 hfirst)]
      exact ite_self _
    show (w.meet i).idle session (w.idleAfter session none i) before = none
    rw [hsame]
    exact ih hrest rfl

end World

namespace Desk

variable {d : Desk} {session other : Nat}

/-! ## Alarms and sessions -/

theorem isSession_of_alarm (h : d.Tended) {alarm : Timer} (hmem : alarm ∈ d.alarms)
    (haction : alarm.action = .post (.sessionTimeout session)) : d.isSession session = true := by
  obtain ⟨opened, hposts, hsession⟩ := h.alarms alarm hmem
  cases haction.symm.trans hposts
  simp [isSession, hsession]

/-- The alarms after one was set. -/
theorem Tended.arm_alarms (h : d.Tended) {alarm : Timer} (hmem : alarm ∈ (d.arm other).alarms)
    (haction : alarm.action = .post (.sessionTimeout session)) :
    (other = session ∧ alarm.due = d.clock + d.timeout) ∨
      (other ≠ session ∧ alarm ∈ d.alarms) := by
  rcases d.isSession_cases other with ⟨opened, hopen, rfl, -⟩ | hclosed
  · rw [h.arm_open hopen] at hmem
    cases List.mem_singleton.1 hmem
    cases haction
    exact .inl ⟨rfl, rfl⟩
  · rw [h.arm_closed hclosed] at hmem
    refine .inr ⟨?_, hmem⟩
    rintro rfl
    cases hclosed.symm.trans (isSession_of_alarm h hmem haction)

/-- The alarms after those of a session were stopped. -/
theorem Tended.disarm_alarms (h : d.Tended) {alarm : Timer}
    (hmem : alarm ∈ (d.retime other none).alarms)
    (haction : alarm.action = .post (.sessionTimeout session)) :
    other ≠ session ∧ alarm ∈ d.alarms := by
  rcases d.isSession_cases other with ⟨opened, hopen, rfl, -⟩ | hclosed
  · rw [h.disarm_open hopen] at hmem
    cases hmem
  · rw [disarm_closed hclosed] at hmem
    refine ⟨?_, hmem⟩
    rintro rfl
    cases hclosed.symm.trans (isSession_of_alarm h hmem haction)

theorem Tended.close_alarms (h : d.Tended) {alarm : Timer}
    (hmem : alarm ∈ (d.close other).alarms) : alarm ∈ d.alarms := by
  rcases d.isSession_cases other with ⟨opened, hopen, rfl, -⟩ | hclosed
  · rw [h.close_open hopen] at hmem
    cases hmem
  · rwa [close_closed hclosed] at hmem

theorem receive_alarms (d : Desk) (order : RestoreOrder) : (d.receive order).alarms = d.alarms := by
  obtain ⟨_, _, _, _, -, heq⟩ := d.receive_frame order
  rw [heq]

theorem advance_alarms (d : Desk) : d.advance.alarms = d.alarms := by
  obtain ⟨_, _, _, _, -, heq⟩ := d.advance_frame
  rw [heq]

theorem Tended.start_alarms (h : d.Tended) {order : RestoreOrder} {alarm : Timer}
    (hmem : alarm ∈ (d.start order).alarms)
    (haction : alarm.action = .post (.sessionTimeout session)) :
    order.session ≠ some session ∧ alarm ∈ d.alarms := by
  rw [start, receive_alarms] at hmem
  cases hsession : order.session with
  | none =>
    rw [hsession] at hmem
    exact ⟨nofun, hmem⟩
  | some other =>
    rw [hsession] at hmem
    obtain ⟨hother, hold⟩ := h.disarm_alarms hmem haction
    exact ⟨fun hsame => hother (Option.some.inj hsame), hold⟩

theorem Tended.finished_alarms (h : d.Tended) {ended : Option Nat} {alarm : Timer}
    (hmem : alarm ∈ (d.finished ended).alarms)
    (haction : alarm.action = .post (.sessionTimeout session)) :
    (ended = some session ∧ alarm.due = d.clock + d.timeout) ∨
      (ended ≠ some session ∧ alarm ∈ d.alarms) := by
  unfold finished at hmem
  rw [advance_alarms] at hmem
  cases ended with
  | none => exact .inr ⟨nofun, hmem⟩
  | some other =>
    simp only at hmem
    split at hmem
    · rcases h.arm_alarms hmem haction with ⟨rfl, hdue⟩ | ⟨hother, hold⟩
      · exact .inl ⟨rfl, hdue⟩
      · exact .inr ⟨fun hsame => hother (Option.some.inj hsame), hold⟩
    · rename_i hclosed
      refine .inr ⟨fun hsame => hclosed ?_, hmem⟩
      rw [Option.some.inj hsame]
      exact isSession_of_alarm h hmem haction

theorem Tended.arm_isSession (h : d.Tended) :
    (d.arm other).isSession session = d.isSession session := by
  rcases d.isSession_cases other with ⟨opened, hopen, rfl, -⟩ | hclosed
  · rw [h.arm_open hopen]
    simp [isSession, hopen]
  · rw [h.arm_closed hclosed]
    rfl

theorem Tended.disarm_isSession (h : d.Tended) :
    (d.retime other none).isSession session = d.isSession session := by
  rcases d.isSession_cases other with ⟨opened, hopen, rfl, -⟩ | hclosed
  · rw [h.disarm_open hopen]
    simp [isSession, hopen]
  · rw [disarm_closed hclosed]

theorem receive_isSession (d : Desk) (order : RestoreOrder) :
    (d.receive order).isSession session = d.isSession session := by
  obtain ⟨_, _, _, _, -, heq⟩ := d.receive_frame order
  rw [heq]
  rfl

theorem advance_isSession (d : Desk) : d.advance.isSession session = d.isSession session := by
  obtain ⟨_, _, _, _, -, heq⟩ := d.advance_frame
  rw [heq]
  rfl

theorem Tended.start_isSession (h : d.Tended) {order : RestoreOrder} :
    (d.start order).isSession session = d.isSession session := by
  rw [start, receive_isSession]
  cases order.session with
  | none => rfl
  | some other => exact h.disarm_isSession

theorem Tended.finished_isSession (h : d.Tended) {ended : Option Nat} :
    (d.finished ended).isSession session = d.isSession session := by
  unfold finished
  rw [advance_isSession]
  cases ended with
  | none => rfl
  | some other =>
    simp only
    split
    · exact h.arm_isSession
    · rfl

/-- Only the open session is closed. -/
theorem close_isSession (hother : other ≠ session) (hopen : d.isSession session = true) :
    (d.close other).isSession session = true := by
  have hclosed : d.isSession other = false := by
    unfold isSession at hopen ⊢
    cases hsession : d.session with
    | none => rfl
    | some opened =>
      rw [hsession] at hopen
      simp only [beq_iff_eq] at hopen ⊢
      simpa [hopen] using Ne.symm hother
  rwa [close_closed hclosed]

end Desk

namespace World

variable {w : World} {session : Nat} {since : Option Nat} {i : Incident} {d : Desk}

/-! ## What an incident does to alarms -/

/-- What passes the desk by does not make a session idle or busy. -/
theorem calm_idleAfter (hminor : ¬ w.Concerns i) : w.idleAfter session since i = since := by
  have hquiet : w.renews session i = false ∧ w.starts session i = false := by
    cases i with
    | shutdown => exact ⟨rfl, rfl⟩
    | event event =>
      cases event with
      | command =>
        cases hhead : w.system.engine.inbox.head? with
        | none => simp [renews, starts, hhead]
        | some command =>
          have hquiet : command.isQuiet = true := by simpa [Concerns, hhead] using hminor
          cases command with
          | startRestore _ | restoreFinished _ => cases hquiet
          | _ => simp [renews, starts, hhead]
      | land index =>
        refine ⟨?_, rfl⟩
        simp only [renews]
        split
        · rename_i handle lease hflight
          exact absurd ⟨handle, lease, hflight⟩ hminor
        · rfl
      | call c =>
        cases c with
        | beginSession caller package transport =>
          refine ⟨?_, rfl⟩
          simp only [renews]
          split
          · rename_i opened hanswer
            exact absurd ⟨opened, hanswer⟩ hminor
          · rfl
        | _ => exact ⟨rfl, rfl⟩
      | _ => exact ⟨rfl, rfl⟩
  rw [idleAfter, hquiet.1, hquiet.2]
  rfl

/-- The alarms after a command of the loop. -/
theorem take_alarm {command : Command} {rest : List Command}
    (hinbox : w.system.engine.inbox = command :: rest) (hquiet : command.isQuiet = false)
    (h : w.system.desk.Tended) {alarm : Timer}
    (hmem : alarm ∈ (w.system.desk.take command).alarms)
    (haction : alarm.action = .post (.sessionTimeout session)) :
    (alarm ∈ w.system.desk.alarms ∧ w.idleAfter session since (.event .command) = since) ∨
      (w.idleAfter session since (.event .command) = some w.clock ∧
        alarm.due = w.clock + w.system.desk.timeout) := by
  have hhead : w.system.engine.inbox.head? = some command := by rw [hinbox]; rfl
  have htended : ({ w.system.desk with mail := w.system.desk.mail.tail } : Desk).Tended :=
    ⟨h.alarms, h.below⟩
  cases command with
  | startRestore order =>
    obtain ⟨hother, hold⟩ := htended.start_alarms hmem haction
    exact .inl ⟨hold, by simp [idleAfter, renews, starts, hhead, hother]⟩
  | restoreFinished ended =>
    rcases htended.finished_alarms hmem haction with ⟨rfl, hdue⟩ | ⟨hother, hold⟩
    · exact .inr ⟨by simp [idleAfter, renews, hhead], hdue⟩
    · refine .inl ⟨hold, ?_⟩
      cases ended with
      | none => simp [idleAfter, renews, starts, hhead]
      | some ended =>
        have hother : ended ≠ session := fun hsame => hother (congrArg some hsame)
        simp [idleAfter, renews, starts, hhead, hother]
  | sessionTimeout other =>
    exact .inl ⟨htended.close_alarms hmem, by simp [idleAfter, renews, starts, hhead]⟩
  | shutdown => exact .inl ⟨hmem, by simp [idleAfter, renews, starts, hhead]⟩
  | _ => cases hquiet

/-- An alarm after an incident is one that was there before, and the session is as idle as it was,
or the session has just become idle. -/
theorem Matter.alarm (hmatter : w.Matter i d) (h : w.system.desk.Tended) {alarm : Timer}
    (hmem : alarm ∈ d.alarms) (haction : alarm.action = .post (.sessionTimeout session)) :
    (alarm ∈ w.system.desk.alarms ∧ w.idleAfter session since i = since) ∨
      (w.idleAfter session since i = some w.clock ∧
        alarm.due = w.clock + w.system.desk.timeout) := by
  cases hmatter with
  | calm hminor => exact .inl ⟨hmem, calm_idleAfter hminor⟩
  | tick => exact .inl ⟨hmem, rfl⟩
  | ring => exact .inl ⟨List.mem_of_mem_filter hmem, rfl⟩
  | close handle => exact .inl ⟨h.close_alarms hmem, rfl⟩
  | skip _ _ => exact .inl ⟨hmem, rfl⟩
  | @finish number order started _ =>
    obtain ⟨_, _, heq⟩ := w.system.desk.finish_frame number order started
    rw [heq] at hmem
    exact .inl ⟨hmem, rfl⟩
  | stop =>
    refine .inl ⟨?_, rfl⟩
    unfold Desk.post at hmem
    split at hmem <;> exact hmem
  | submit hsubmits =>
    refine .inl ⟨?_, by cases hsubmits <;> rfl⟩
    unfold Desk.post at hmem
    split at hmem <;> exact hmem
  | renew hflight =>
    rename_i index handle lease
    rcases h.arm_alarms hmem haction with ⟨rfl, hdue⟩ | ⟨hother, hold⟩
    · exact .inr ⟨by simp [idleAfter, renews, hflight], hdue⟩
    · exact .inl ⟨hold, by simp [idleAfter, renews, starts, hflight, hother]⟩
  | opens hanswer hnumber hclosed =>
    rcases (h.begin hclosed).arm_alarms hmem haction with ⟨hsame, hdue⟩ | ⟨-, hold⟩
    · have hnumber : _ = session := hnumber.trans hsame
      exact .inr ⟨by simp [idleAfter, renews, hanswer, hnumber], hdue⟩
    · rw [show w.system.desk.alarms = [] from h.silent hclosed] at hold
      cases hold
  | take hinbox hquiet => exact take_alarm hinbox hquiet h hmem haction

/-- A timeout in the mail was there before, or an alarm that was due has gone off. -/
theorem Matter.timeout_mem (hmatter : w.Matter i d) (hmem : .sessionTimeout session ∈ d.mail) :
    .sessionTimeout session ∈ w.system.desk.mail ∨
      (i = .event .timers ∧ ∃ alarm ∈ w.system.desk.alarms,
        alarm.action = .post (.sessionTimeout session) ∧ alarm.due ≤ w.clock) := by
  -- other commands that are posted do not count
  have hpost : ∀ {d : Desk} {command : Command}, .sessionTimeout session ∈ (d.post command).mail →
      .sessionTimeout session ≠ command → .sessionTimeout session ∈ d.mail := by
    intro d command hmem hother
    unfold Desk.post at hmem
    split at hmem
    · rcases List.mem_append.1 hmem with hold | hnew
      · exact hold
      · exact absurd (List.mem_singleton.1 (List.mem_of_mem_filter hnew)) hother
    · exact hmem
  cases hmatter with
  | calm _ | tick | skip _ _ => exact .inl hmem
  | ring =>
    unfold Desk.ring at hmem
    simp only at hmem
    split at hmem
    · rcases List.mem_append.1 hmem with hold | hrung
      · exact .inl hold
      · obtain ⟨alarm, halarm, hcommand⟩ := List.mem_filterMap.1 hrung
        obtain ⟨hset, hdue⟩ := List.mem_filter.1 halarm
        refine .inr ⟨rfl, alarm, hset, ?_, of_decide_eq_true hdue⟩
        cases haction : alarm.action with
        | post command =>
          rw [haction] at hcommand
          cases hcommand
          rfl
        | expireBind ticket =>
          rw [haction] at hcommand
          cases hcommand
    · exact .inl hmem
  | @take command _ _ _ =>
    rcases (w.system.desk.take_frame command).2.2 with hkept | hlost
    · rw [hkept] at hmem
      exact .inl (List.mem_of_mem_tail hmem)
    · rw [hlost] at hmem
      cases hmem
  | opens _ _ _ => exact .inl ((Desk.opens_timed _).mail ▸ hmem)
  | renew _ => exact .inl ((Desk.arm_timed _ _).mail ▸ hmem)
  | close handle => exact .inl ((Desk.close_timed _ _).mail ▸ hmem)
  | submit _ => exact .inl (hpost hmem nofun)
  | stop => exact .inl (hpost hmem nofun)
  | finish _ =>
    rw [Desk.finish_eq] at hmem
    simp only at hmem
    split at hmem
    · rcases List.mem_append.1 hmem with hold | hnew
      · exact .inl hold
      · cases List.mem_singleton.1 hnew
    · exact .inl hmem

/-- The timeout is a setting. -/
theorem Matter.timeout_eq (hmatter : w.Matter i d) : d.timeout = w.system.desk.timeout := by
  cases hmatter with
  | calm _ | tick | ring | skip _ _ => rfl
  | take _ _ => exact (Desk.take_frame _ _).2.1
  | opens _ _ _ => exact (Desk.opens_timed _).timeout
  | renew _ => exact (Desk.arm_timed _ _).timeout
  | close handle => exact (Desk.close_timed _ _).timeout
  | submit _ | stop =>
    unfold Desk.post
    split <;> rfl
  | @finish number order started _ =>
    obtain ⟨_, _, heq⟩ := w.system.desk.finish_frame number order started
    rw [heq]

/-- Only its end and its timeout close a session. -/
theorem Matter.closed (hmatter : w.Matter i d) (h : w.system.desk.Tended)
    (hopen : w.system.desk.isSession session = true) (hclosed : d.isSession session = false) :
    (∃ handle : Session, i = .event (.call (.endSession handle)) ∧ handle.number = session) ∨
      (i = .event .command ∧ .sessionTimeout session ∈ w.system.desk.mail) := by
  have hstays : d.isSession session = w.system.desk.isSession session →
      (∃ handle : Session, i = .event (.call (.endSession handle)) ∧ handle.number = session) ∨
        (i = .event .command ∧ .sessionTimeout session ∈ w.system.desk.mail) := by
    intro hsame
    cases hclosed.symm.trans (hsame.trans hopen)
  have htended : ({ w.system.desk with mail := w.system.desk.mail.tail } : Desk).Tended :=
    ⟨h.alarms, h.below⟩
  cases hmatter with
  | calm _ | tick | ring | skip _ _ => exact hstays rfl
  | opens _ _ hnone =>
    have hnone : w.system.desk.session = none := hnone
    simp [Desk.isSession, hnone] at hopen
  | renew _ => exact hstays h.arm_isSession
  | close handle =>
    by_cases hnumber : handle.number = session
    · exact .inl ⟨handle, rfl, hnumber⟩
    · cases hclosed.symm.trans (Desk.close_isSession hnumber hopen)
  | submit _ | stop =>
    refine hstays ?_
    unfold Desk.post
    split <;> rfl
  | @finish number order started _ =>
    obtain ⟨_, _, heq⟩ := w.system.desk.finish_frame number order started
    refine hstays ?_
    rw [heq]
    rfl
  | @take command rest hinbox hquiet =>
    cases command with
    | startRestore order => exact hstays htended.start_isSession
    | restoreFinished ended => exact hstays htended.finished_isSession
    | sessionTimeout other =>
      by_cases hnumber : other = session
      · subst hnumber
        refine .inr ⟨rfl, ?_⟩
        show _ ∈ w.system.engine.inbox.filter _
        rw [hinbox]
        exact List.mem_filter.2 ⟨List.mem_cons_self, rfl⟩
      · cases hclosed.symm.trans (Desk.close_isSession
          (d := { w.system.desk with mail := w.system.desk.mail.tail }) hnumber hopen)
    | shutdown => exact hstays rfl
    | _ => cases hquiet

/-! ## Runs -/

/-- The alarm of a session is due a whole timeout after the session became idle, and there is none
if the session is not idle. -/
structure Vigilant (w : World) (session : Nat) (since : Option Nat) : Prop where
  numbered : w.system.Numbered
  tended : w.system.desk.Tended
  alarm : ∀ alarm ∈ w.system.desk.alarms, alarm.action = .post (.sessionTimeout session) →
    ∃ start, since = some start ∧ alarm.due = start + w.system.desk.timeout

/-- Along a run a timer went off when a session had been idle for the whole timeout. -/
def RungIn (w : World) (session : Nat) (since : Option Nat) (incidents : List Incident) : Prop :=
  ∃ before after start, incidents = before ++ .event .timers :: after ∧
    w.idle session since before = some start ∧
    start + w.system.desk.timeout ≤ (w.live before).clock

theorem meet_timeout (hs : w.system.Numbered) (i : Incident) :
    (w.meet i).system.desk.timeout = w.system.desk.timeout := by
  obtain ⟨d, hmatter, hshows⟩ := meet_matter hs i
  rw [hshows.eq]
  exact hmatter.timeout_eq

theorem meet_vigilant (h : w.Vigilant session since) (i : Incident) :
    (w.meet i).Vigilant session (w.idleAfter session since i) := by
  obtain ⟨d, hmatter, hshows⟩ := meet_matter h.numbered i
  refine ⟨hshows.numbered, hshows.tended (hmatter.tended h.tended), fun alarm hmem haction => ?_⟩
  have hmem : alarm ∈ d.alarms := by
    rw [hshows.eq] at hmem
    exact hmem
  rw [meet_timeout h.numbered]
  rcases hmatter.alarm h.tended hmem haction with ⟨hold, hsame⟩ | ⟨hidle, hdue⟩
  · rw [hsame]
    exact h.alarm alarm hold haction
  · exact ⟨w.clock, hidle, hdue⟩

/-- **A timeout is queued only by a timer that went off when its session had been idle for the whole
timeout.** -/
theorem live_vigilant (h : w.Vigilant session since)
    (hnone : .sessionTimeout session ∉ w.system.desk.mail) (incidents : List Incident) :
    (w.live incidents).Vigilant session (w.idle session since incidents) ∧
      (w.live incidents).system.desk.timeout = w.system.desk.timeout ∧
      (.sessionTimeout session ∈ (w.live incidents).system.desk.mail →
        w.RungIn session since incidents) := by
  induction incidents using List.reverseRecOn with
  | nil => exact ⟨h, rfl, fun hmem => absurd hmem hnone⟩
  | append_singleton incidents i ih =>
    obtain ⟨hvigilant, htimeout, hrung⟩ := ih
    rw [live_concat, idle_concat]
    refine ⟨meet_vigilant hvigilant i, (meet_timeout hvigilant.numbered i).trans htimeout,
      fun hmem => ?_⟩
    obtain ⟨d, hmatter, hshows⟩ := meet_matter hvigilant.numbered i
    have hmem : .sessionTimeout session ∈ d.mail := by
      rw [hshows.eq] at hmem
      exact hmem
    rcases hmatter.timeout_mem hmem with hold | ⟨rfl, alarm, hset, haction, hdue⟩
    · obtain ⟨before, after, start, hsplit, hidle, helapsed⟩ := hrung hold
      refine ⟨before, after ++ [i], start, ?_, hidle, helapsed⟩
      rw [hsplit, List.append_assoc]
      rfl
    · -- the alarm goes off now
      obtain ⟨start, hidle, hset⟩ := hvigilant.alarm alarm hset haction
      refine ⟨incidents, [], start, rfl, hidle, ?_⟩
      rw [← htimeout, ← hset]
      exact hdue

theorem timeout_mem_inbox :
    .sessionTimeout session ∈ w.system.desk.mail ↔
      .sessionTimeout session ∈ w.system.engine.inbox := by
  show .sessionTimeout session ∈ w.system.engine.inbox.filter _ ↔ _
  rw [List.mem_filter]
  exact and_iff_left rfl

/-- A session whose restore is taken by the loop is not idle. -/
theorem idleAfter_starts (hstarts : w.starts session (.event .command) = true) :
    w.idleAfter session since (.event .command) = none := by
  have hrenews : w.renews session (.event .command) = false := by
    simp only [starts] at hstarts
    split at hstarts
    · rename_i order hhead
      simp [renews, hhead]
    · cases hstarts
  rw [idleAfter, hrenews, hstarts]
  rfl

/-- How a session can be closed. -/
theorem meet_closed (hs : w.system.Numbered) (h : w.system.desk.Tended)
    (hopen : w.system.isSession session = true)
    (hclosed : (w.meet i).system.isSession session = false) :
    (∃ handle : Session, i = .event (.call (.endSession handle)) ∧ handle.number = session) ∨
      (i = .event .command ∧ .sessionTimeout session ∈ w.system.desk.mail) := by
  obtain ⟨d, hmatter, hshows⟩ := meet_matter hs i
  refine hmatter.closed h hopen ?_
  have hsame : (w.meet i).system.isSession session = d.isSession session := by
    show (w.meet i).system.desk.isSession session = _
    rw [hshows.eq]
    rfl
  rw [← hsame]
  exact hclosed

/-- **When a session expires.** In every run, a shutdown included, a session is closed by the call
that ends it, or by the loop on a timeout; and then the timer of that timeout went off when the
session had been idle for the whole timeout: as long before, or longer, it was opened, its datasets
were listed, or the end of one of its restores was handled, and since then none of these has
happened and no restore of it was processed.

So when the loop takes a restore of the session, and no timeout of the session is queued at that
moment, then the session does not expire until its datasets are listed or the end of one of its
restores is handled. -/
theorem session_expiry {settings : Settings} {disk : Disk} {device : Device} {s : System}
    (hstart : System.start settings disk device.fresh = .ok s) (incidents : List Incident)
    (session : Nat) :
    let w₀ := opened s
    let w := w₀.live incidents
    (∀ i, w.system.isSession session = true → (w.meet i).system.isSession session = false →
      (∃ handle : Session, i = .event (.call (.endSession handle)) ∧ handle.number = session) ∨
        (i = .event .command ∧ ∃ before after start,
          incidents = before ++ .event .timers :: after ∧
            w₀.idle session none before = some start ∧
            start + s.engine.settings.restoreTimeout ≤ (w₀.live before).clock)) ∧
      ∀ later, w.starts session (.event .command) = true →
        .sessionTimeout session ∉ w.system.engine.inbox →
        (w.meet (.event .command)).renewed session later = false →
        ∀ i, let w' := (w.meet (.event .command)).live later
          w'.system.isSession session = true → (w'.meet i).system.isSession session = false →
            ∃ handle : Session, i = .event (.call (.endSession handle)) ∧
              handle.number = session := by
  intro w₀ w
  have hclear : w₀.system.desk = w₀.system.desk.cleared := (System.start_desk hstart).2
  have h₀ : w₀.Vigilant session none := by
    refine ⟨(System.start_desk hstart).1, opened_tended hstart, ?_⟩
    rw [hclear]
    exact nofun
  have hnone₀ : .sessionTimeout session ∉ w₀.system.desk.mail := by
    rw [hclear]
    exact List.not_mem_nil
  obtain ⟨hvigilant, -, hrung⟩ := live_vigilant h₀ hnone₀ incidents
  constructor
  · intro i hopen hclosed
    rcases meet_closed hvigilant.numbered hvigilant.tended hopen hclosed with
      hended | ⟨hi, htimeout⟩
    · exact .inl hended
    · exact .inr ⟨hi, hrung htimeout⟩
  · intro later hstarts hqueued hrenewed i w' hopen hclosed
    -- from the moment at which the loop takes the restore the session is not idle
    have hbusy : w.idleAfter session (w₀.idle session none incidents) (.event .command) = none :=
      idleAfter_starts hstarts
    have hvigilant' := meet_vigilant hvigilant (.event .command)
    rw [hbusy] at hvigilant'
    have hnone : .sessionTimeout session ∉ (w.meet (.event .command)).system.desk.mail := by
      obtain ⟨d, hmatter, hshows⟩ := meet_matter hvigilant.numbered (.event .command)
      rw [hshows.eq]
      intro hmem
      rcases hmatter.timeout_mem hmem with hold | ⟨hother, -⟩
      · exact hqueued (timeout_mem_inbox.1 hold)
      · cases hother
    obtain ⟨hlater, -, hrung⟩ := live_vigilant hvigilant' hnone later
    rcases meet_closed hlater.numbered hlater.tended hopen hclosed with hended | ⟨-, htimeout⟩
    · exact hended
    · obtain ⟨before, after, start, hsplit, hidle, -⟩ := hrung htimeout
      cases (idle_none hrenewed hsplit).symm.trans hidle

/-- A session for all packages is opened. -/
def sessionOfAll : List Incident :=
  [.event .command, .event (.call (.registerTransport ⟨"local", "vault/Local", "local"⟩)),
    .event (.select "local"), .event (.land 0), .event (.call (.beginSession .system none none))]

/-- The handle of that session. -/
def handleOfAll : Session := ⟨0, none, "local"⟩

/-- A restore is handed to the loop through that session. -/
def restoreOfAll : List Incident :=
  sessionOfAll ++ [.event (.call (.restoreAll handleOfAll 5 ["app"]))]

/-- A session that nobody uses expires, and one whose restore runs does not. -/
theorem session_expiry_sessionOfAll :
    ∃ s, System.start { restoreTimeout := 1 } {} deviceOfOne.fresh = .ok s ∧
      (∃ before after start,
        sessionOfAll ++ [.event .clock, .event .timers] = before ++ .event .timers :: after ∧
          (opened s).idle 0 none before = some start ∧
          start + 1 ≤ ((opened s).live before).clock) ∧
      ∃ handle : Session, Incident.event (.call (.endSession handleOfAll)) =
        .event (.call (.endSession handle)) ∧ handle.number = 0 := by
  obtain ⟨s, hstart, hcheck⟩ := @start_check { restoreTimeout := 1 } {} deviceOfOne.fresh (fun s =>
    let idle := (opened s).live (sessionOfAll ++ [.event .clock, .event .timers])
    let busy := (opened s).live restoreOfAll
    let later := (busy.meet (.event .command)).live [.event .clock, .event .timers]
    s.engine.settings.restoreTimeout == 1 &&
      (idle.system.isSession 0 && !(idle.meet (.event .command)).system.isSession 0) &&
      (busy.starts 0 (.event .command) && busy.system.engine.inbox.length == 1 &&
        !(busy.meet (.event .command)).renewed 0 [.event .clock, .event .timers]) &&
      (later.system.isSession 0 &&
        !(later.meet (.event (.call (.endSession handleOfAll)))).system.isSession 0))
    (by decide +kernel)
  simp only [Bool.and_eq_true, beq_iff_eq, Bool.not_eq_true'] at hcheck
  obtain ⟨⟨⟨htimeout, hopen, hclosed⟩, ⟨hstarts, hone⟩, hrenewed⟩, hstill, hended⟩ := hcheck
  -- the restore is the only command
  have hnone : .sessionTimeout 0 ∉ ((opened s).live restoreOfAll).system.engine.inbox := by
    generalize (opened s).live restoreOfAll = w at hstarts hone
    obtain ⟨command, hinbox⟩ := List.length_eq_one_iff.1 hone
    intro hmem
    rw [hinbox] at hmem
    simp [starts, hinbox, ← List.mem_singleton.1 hmem] at hstarts
  obtain ⟨hexpiry, -⟩ := session_expiry hstart (sessionOfAll ++ [.event .clock, .event .timers]) 0
  obtain ⟨-, hbusy⟩ := session_expiry hstart restoreOfAll 0
  refine ⟨s, hstart, ?_, hbusy _ hstarts hnone hrenewed _ hstill hended⟩
  rcases hexpiry (.event .command) hopen hclosed with ⟨handle, hother, -⟩ | ⟨-, hexpired⟩
  · cases hother
  · rwa [htimeout] at hexpired

/-- **A session can expire under its own restore.** The loop has taken a restore of the open
session, and its task runs. Then the datasets of the session are listed, the timeout passes, and the
loop closes the session, while the restore still runs. -/
theorem expires_under_restore :
    ∃ s, System.start { restoreTimeout := 1 } {} deviceOfOne.fresh = .ok s ∧
      let w := (opened s).live restoreOfAll
      let later := (w.meet (.event .command)).live
        [.event (.task 2), .event (.sets handleOfAll), .event (.land 0), .event .clock,
          .event .timers]
      let expired := later.meet (.event .command)
      w.system.isSession 0 = true ∧ w.starts 0 (.event .command) = true ∧
        later.system.isSession 0 = true ∧
        later.system.engine.inbox.map Command.name = ["restore_session_timeout"] ∧
        expired.system.isSession 0 = false ∧
        expired.system.desk.running.map (fun entry => (entry.1, entry.2.session)) = [(2, some 0)] :=
  start_decide (by decide +kernel)

end World

end Holdfast
