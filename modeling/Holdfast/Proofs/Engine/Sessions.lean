import Holdfast.Proofs.Engine.Expiry

/-!
# The slot of restore sessions

There is one slot for a restore session. Handles, timeouts and restores carry the number of their
session, and may come late, when the slot is empty or another session is in it.

- `System.beginSession_idle`: a session is opened only while no backup runs or is about to;
- `World.Matter.opened`: nothing else opens a session;
- `World.live_closed`: a session that was closed stays closed;
- `World.Regards`: the incidents that carry the number of a session, and `World.Matter.stale`: from
  a session that is not open they do nothing to the slot and its alarm;
- `World.session_slot`: **the slot of restore sessions**.
-/

namespace Holdfast

namespace System

variable {s : System}

/-- A session is opened only while no key-value pass counts as running and the token of no pass is
pending. -/
theorem beginSession_idle {caller : Caller} {package transport : Option String} {session : Session}
    (h : (s.beginSession caller package transport).1 = .ok (some session)) :
    s.isBackupRunning = false ∧ s.engine.ops.isBackupInProgress = false := by
  revert h
  refine beginSession_elim ?refuses ?opens
  case refuses => exact fun _ hnone h => absurd h (hnone session)
  case opens => exact fun _ _ _ _ hpass htoken _ _ => ⟨hpass, htoken⟩

/-- At most one session is open. -/
theorem isSession_unique {a b : Nat} (ha : s.isSession a = true) (hb : s.isSession b = true) :
    a = b := by
  unfold isSession at ha hb
  cases hsession : s.engine.session with
  | none =>
    rw [hsession] at ha
    cases ha
  | some opened =>
    rw [hsession] at ha hb
    exact (beq_iff_eq.1 ha).symm.trans (beq_iff_eq.1 hb)

/-- An answer without a session is empty or a fault. -/
theorem answer_of_noSession {answer : Except Fault (Option Session)}
    (hnone : ∀ handle, answer ≠ .ok (some handle)) :
    answer = .ok none ∨ ∃ fault, answer = .error fault := by
  cases answer with
  | error fault => exact .inr ⟨fault, rfl⟩
  | ok session =>
    cases session with
    | none => exact .inl rfl
    | some handle => exact absurd rfl (hnone handle)

/-- A session that is not open is not closed. -/
theorem closeSession_stale {session : Nat} (hclosed : s.isSession session = false) :
    s.closeSession session = s := by
  unfold closeSession
  unfold isSession at hclosed
  cases hsession : s.engine.session with
  | none => rfl
  | some opened =>
    rw [hsession] at hclosed
    have hother : opened.number ≠ session := by simpa using hclosed
    exact if_neg hother

end System

namespace Desk

variable {d : Desk} {session other : Nat}

/-- Closing a session opens none. -/
theorem Tended.close_isSession_of (h : d.Tended)
    (hopen : (d.close other).isSession session = true) : d.isSession session = true := by
  rcases d.isSession_cases other with ⟨opened, hsession, rfl, -⟩ | hclosed
  · rw [h.close_open hsession] at hopen
    cases hopen
  · rwa [close_closed hclosed] at hopen

/-- The slot and its alarm are the same. -/
def SameSlot (d d' : Desk) : Prop := d'.session = d.session ∧ d'.alarms = d.alarms

theorem receive_sameSlot (d : Desk) (order : RestoreOrder) : d.SameSlot (d.receive order) := by
  obtain ⟨_, _, _, _, -, heq⟩ := d.receive_frame order
  rw [heq]
  exact ⟨rfl, rfl⟩

theorem advance_sameSlot (d : Desk) : d.SameSlot d.advance := by
  obtain ⟨_, _, _, _, -, heq⟩ := d.advance_frame
  rw [heq]
  exact ⟨rfl, rfl⟩

theorem post_sameSlot (d : Desk) (command : Command) : d.SameSlot (d.post command) := by
  unfold Desk.post
  split <;> exact ⟨rfl, rfl⟩

end Desk

/-- The session that a command is about. -/
def Command.session? : Command → Option Nat
  | .startRestore order => order.session
  | .restoreFinished session => session
  | .sessionTimeout session => some session
  | _ => none

/-- The session through whose handle a call is made. -/
def Call.session? : Call → Option Nat
  | .restorePackage session _ | .restoreAll session _ _ | .endSession session =>
    some session.number
  | _ => none

/-- A command about a session that is not open leaves the slot alone. -/
theorem Desk.handle_sameSlot {d : Desk} {command : Command} {session : Nat}
    (hregards : command.session? = some session) (hclosed : d.isSession session = false) :
    d.SameSlot (d.handle command) := by
  cases command with
  | startRestore order =>
    have hsession : order.session = some session := hregards
    show d.SameSlot (d.start order)
    unfold start
    rw [hsession]
    simp only [disarm_closed hclosed]
    exact d.receive_sameSlot order
  | restoreFinished ended =>
    have hsession : ended = some session := hregards
    subst hsession
    show d.SameSlot (d.finished (some session))
    unfold finished
    simp only [hclosed, Bool.false_eq_true, if_false]
    exact d.advance_sameSlot
  | sessionTimeout other =>
    cases hregards
    show d.SameSlot (d.close session)
    rw [close_closed hclosed]
    exact ⟨rfl, rfl⟩
  | _ => cases hregards

namespace World

variable {w : World} {session : Nat} {i : Incident} {d : Desk}

/-- An incident carries the number of a session: a call through its handle, the answer to one, or a
command of its own. -/
inductive Regards (w : World) (session : Nat) : Incident → Prop where
  | call {c : Call} : c.session? = some session → Regards w session (.event (.call c))
  | sets {handle : Session} : handle.number = session →
    Regards w session (.event (.sets handle))
  | answer {index : Nat} {handle : Session} {lease : Lease} :
    w.flights[index]? = some (.sets handle lease) → handle.number = session →
    Regards w session (.event (.land index))
  | command {command : Command} {rest : List Command} :
    w.system.engine.inbox = command :: rest → command.session? = some session →
    Regards w session (.event .command)

/-- **What comes late for a session that is not open does nothing to the slot.** -/
theorem Matter.stale (hmatter : w.Matter i d) (h : w.system.desk.Tended)
    (hregards : w.Regards session i) (hclosed : w.system.desk.isSession session = false) :
    w.system.desk.SameSlot d := by
  cases hmatter with
  | calm _ | skip _ _ => exact ⟨rfl, rfl⟩
  | tick => cases hregards
  | ring => cases hregards
  | stop => cases hregards
  | finish _ => cases hregards
  | @take command rest hinbox _ =>
    cases hregards with
    | command hinbox' hsession =>
      cases hinbox.symm.trans hinbox'
      exact Desk.handle_sameSlot (d := { w.system.desk with mail := w.system.desk.mail.tail })
        hsession hclosed
  | opens _ _ _ =>
    cases hregards with
    | call hsession => cases hsession
  | @renew index handle lease hflight =>
    cases hregards with
    | answer hflight' hnumber =>
      cases hflight.symm.trans hflight'
      subst hnumber
      rw [h.arm_closed hclosed]
      exact ⟨rfl, rfl⟩
  | close handle =>
    cases hregards with
    | call hsession =>
      cases hsession
      rw [Desk.close_closed hclosed]
      exact ⟨rfl, rfl⟩
  | submit _ => exact Desk.post_sameSlot _ _

/-- Only its own call opens a session, under the next number. -/
theorem Matter.opened (hmatter : w.Matter i d) (h : w.system.desk.Tended)
    (hclosed : w.system.desk.isSession session = false) (hopen : d.isSession session = true) :
    session = w.system.engine.nextNumber ∧ ∃ caller package transport handle,
      i = .event (.call (.beginSession caller package transport)) ∧
        (w.system.beginSession caller package transport).1 = .ok (some handle) ∧
        handle.number = session := by
  -- whatever leaves the open session as it is
  have hsame : d.isSession session = w.system.desk.isSession session → False := by
    intro hsame
    cases (hsame.trans hclosed).symm.trans hopen
  have htended : ({ w.system.desk with mail := w.system.desk.mail.tail } : Desk).Tended :=
    ⟨h.alarms, h.below⟩
  cases hmatter with
  | calm _ | tick | ring | skip _ _ => exact absurd rfl hsame
  | @opens caller package transport handle hanswer hnumber hnone =>
    have hsession : session = w.system.engine.nextNumber := by
      have harmed := @Desk.Tended.arm_isSession _ session w.system.desk.nextNumber (h.begin hnone)
      have hopens : w.system.desk.opens.isSession session = true := hopen
      rw [Desk.opens, harmed] at hopens
      have hnumber : w.system.desk.nextNumber = session := by
        simpa [Desk.isSession] using hopens
      exact hnumber.symm
    exact ⟨hsession, caller, package, transport, handle, rfl, hanswer,
      hnumber.trans hsession.symm⟩
  | renew _ => exact absurd h.arm_isSession hsame
  | close handle => cases hclosed.symm.trans (h.close_isSession_of hopen)
  | submit _ | stop =>
    refine absurd ?_ hsame
    unfold Desk.post
    split <;> rfl
  | @finish number order started _ =>
    obtain ⟨_, _, heq⟩ := w.system.desk.finish_frame number order started
    refine absurd ?_ hsame
    rw [heq]
    rfl
  | @take command rest hinbox hquiet =>
    cases command with
    | startRestore order => exact absurd htended.start_isSession hsame
    | restoreFinished ended => exact absurd htended.finished_isSession hsame
    | sessionTimeout other => cases hclosed.symm.trans (htended.close_isSession_of hopen)
    | shutdown => exact absurd rfl hsame
    | _ => cases hquiet

/-! ## Runs -/

/-- How a session can be opened. -/
theorem meet_opened (hs : w.system.Numbered) (h : w.system.desk.Tended)
    (hclosed : w.system.isSession session = false)
    (hopen : (w.meet i).system.isSession session = true) :
    session = w.system.engine.nextNumber ∧ ∃ caller package transport handle,
      i = .event (.call (.beginSession caller package transport)) ∧
        (w.system.beginSession caller package transport).1 = .ok (some handle) ∧
        handle.number = session := by
  obtain ⟨d, hmatter, hshows⟩ := meet_matter hs i
  have hopen : (w.meet i).system.desk.isSession session = true := hopen
  rw [hshows.eq] at hopen
  exact hmatter.opened h hclosed hopen

theorem live_next_le (hs : w.system.Numbered) (incidents : List Incident) :
    w.system.engine.nextNumber ≤ (w.live incidents).system.engine.nextNumber := by
  induction incidents generalizing w with
  | nil => exact Nat.le_refl _
  | cons i incidents ih =>
    obtain ⟨d, hmatter, hshows⟩ := meet_matter hs i
    exact Nat.le_trans (Nat.le_trans hmatter.next_le hshows.next) (ih hshows.numbered)

/-- The number of an open session was handed out. -/
theorem isSession_lt (h : w.system.desk.Tended) (hopen : w.system.isSession session = true) :
    session < w.system.engine.nextNumber := by
  rcases w.system.desk.isSession_cases session with ⟨opened, hsession, rfl, -⟩ | hclosed
  · exact (h.below opened hsession).1
  · cases hclosed.symm.trans hopen

/-- **A session that is not open does not open any more once its number was handed out.** -/
theorem live_closed (hs : w.system.Numbered) (h : w.system.desk.Tended)
    (hold : session < w.system.engine.nextNumber) (hclosed : w.system.isSession session = false)
    (incidents : List Incident) : (w.live incidents).system.isSession session = false := by
  induction incidents generalizing w with
  | nil => exact hclosed
  | cons i incidents ih =>
    obtain ⟨d, hmatter, hshows⟩ := meet_matter hs i
    refine ih hshows.numbered (hshows.tended (hmatter.tended h))
      (Nat.lt_of_lt_of_le hold (Nat.le_trans hmatter.next_le hshows.next)) ?_
    by_contra hopen
    obtain ⟨hnext, -⟩ := meet_opened hs h hclosed (eq_true_of_ne_false hopen)
    omega

/-- A session that was opened is open, and its number was never that of another one. -/
theorem beginSession_fresh {settings : Settings} {disk : Disk} {device : Device} {s : System}
    (hstart : System.start settings disk device.fresh = .ok s) {incidents : List Incident}
    {caller : Caller} {package transport : Option String} {handle : Session}
    (hanswer : (((opened s).live incidents).system.beginSession caller package transport).1 =
      .ok (some handle)) :
    (((opened s).live incidents).system.beginSession caller package transport).2.isSession
        handle.number = true ∧
      ∀ earlier, earlier <+: incidents →
        ((opened s).live earlier).system.isSession handle.number = false := by
  have hnumbered : (opened s).system.Numbered := (System.start_desk hstart).1
  have htended := opened_tended hstart
  rcases ((opened s).live incidents).system.beginSession_cases caller package transport with
    ⟨hnone, -⟩ | ⟨handle', hanswer', hnumber, hclosed, heq⟩
  · exact absurd hanswer (hnone handle)
  · cases hanswer.symm.trans hanswer'
    constructor
    · rw [heq, hnumber]
      show (System.armSession _ _).desk.isSession _ = true
      rw [System.armSession_desk]
      exact ((live_tended hnumbered htended incidents).begin hclosed).arm_isSession.trans
        (beq_self_eq_true _)
    · intro earlier hearlier
      obtain ⟨later, rfl⟩ := hearlier
      by_contra hopen
      have hlt := isSession_lt (live_tended hnumbered htended earlier) (eq_true_of_ne_false hopen)
      have hle := live_next_le (live_numbered hnumbered earlier) later
      rw [← live_append] at hle
      omega

/-- A session that was open before and is not open any more stays closed. -/
theorem live_closed_again {settings : Settings} {disk : Disk} {device : Device} {s : System}
    (hstart : System.start settings disk device.fresh = .ok s) {earlier incidents : List Incident}
    (hearlier : earlier <+: incidents) {session : Nat}
    (hopen : ((opened s).live earlier).system.isSession session = true)
    (hclosed : ((opened s).live incidents).system.isSession session = false)
    (later : List Incident) :
    (((opened s).live incidents).live later).system.isSession session = false := by
  have hnumbered : (opened s).system.Numbered := (System.start_desk hstart).1
  have htended := opened_tended hstart
  obtain ⟨between, rfl⟩ := hearlier
  have hold := isSession_lt (live_tended hnumbered htended earlier) hopen
  have hnext := live_next_le (live_numbered hnumbered earlier) between
  rw [← live_append] at hnext
  exact live_closed (live_numbered hnumbered _) (live_tended hnumbered htended _)
    (Nat.lt_of_lt_of_le hold hnext) hclosed later

/-- **The slot of restore sessions.** After every run, a shutdown included:

- at most one session is open;
- the call for a session opens one under a number that no session had before, when none is open, no
  key-value pass counts as running and the token of no pass is pending; or it answers without a
  session and changes nothing. Nothing else opens a session;
- a session that was open and is not open any more is never open again;
- the handle of a session that is not open gets a fault from every call that gives an answer, and
  no call through it changes anything, nor does the timeout of such a session;
- whatever else comes late for such a session leaves the slot and its alarm as they are. -/
theorem session_slot {settings : Settings} {disk : Disk} {device : Device} {s : System}
    (hstart : System.start settings disk device.fresh = .ok s) (incidents : List Incident) :
    let w₀ := opened s
    let w := w₀.live incidents
    (∀ a b, w.system.isSession a = true → w.system.isSession b = true → a = b) ∧
      (∀ caller package transport,
        (∃ handle, (w.system.beginSession caller package transport).1 = .ok (some handle) ∧
          w.system.engine.session = none ∧ w.system.isBackupRunning = false ∧
          w.system.engine.ops.isBackupInProgress = false ∧
          (w.system.beginSession caller package transport).2.isSession handle.number = true ∧
          ∀ earlier, earlier <+: incidents →
            (w₀.live earlier).system.isSession handle.number = false) ∨
        ((w.system.beginSession caller package transport).1 = .ok none ∨
            ∃ fault, (w.system.beginSession caller package transport).1 = .error fault) ∧
          (w.system.beginSession caller package transport).2 = w.system) ∧
      (∀ i session, w.system.isSession session = false →
        (w.meet i).system.isSession session = true → ∃ caller package transport handle,
          i = .event (.call (.beginSession caller package transport)) ∧
            (w.system.beginSession caller package transport).1 = .ok (some handle) ∧
            handle.number = session) ∧
      (∀ session earlier, earlier <+: incidents →
        (w₀.live earlier).system.isSession session = true → w.system.isSession session = false →
        ∀ later, (w.live later).system.isSession session = false) ∧
      (∀ handle : Session, w.system.isSession handle.number = false →
        w.system.beginSets handle = (.error (System.ended handle), w.system) ∧
        w.system.availableSets handle = (.error (System.ended handle), w.system) ∧
        (∀ package, w.system.restorePackage handle package =
          (.error (System.ended handle), w.system)) ∧
        (∀ token packages, w.system.restoreAll handle token packages =
          (.error (System.ended handle), w.system)) ∧
        (System.ended handle).kind = .stateTransition ∧
        w.system.endSession handle = w.system ∧
        ∀ rest, w.system.engine.inbox = .sessionTimeout handle.number :: rest →
          (w.meet (.event .command)).system =
            w.system.onEngine fun e => { e with inbox := rest }) ∧
      ∀ i session, w.system.isSession session = false → w.Regards session i →
        w.system.desk.SameSlot (w.meet i).system.desk := by
  intro w₀ w
  have hnumbered₀ : w₀.system.Numbered := (System.start_desk hstart).1
  have htended₀ : w₀.system.desk.Tended := opened_tended hstart
  have hnumbered : w.system.Numbered := live_numbered hnumbered₀ incidents
  have htended : w.system.desk.Tended := live_tended hnumbered₀ htended₀ incidents
  refine ⟨?_, ?_, ?_, ?_, ?_, ?_⟩
  · intro a b ha hb
    exact System.isSession_unique ha hb
  · intro caller package transport
    rcases w.system.beginSession_cases caller package transport with
      ⟨hnone, hsame⟩ | ⟨handle, hanswer, -, hclosed, -⟩
    · exact .inr ⟨System.answer_of_noSession hnone, hsame⟩
    · obtain ⟨hpass, htoken⟩ := System.beginSession_idle hanswer
      obtain ⟨hopens, hfresh⟩ := beginSession_fresh hstart hanswer
      exact .inl ⟨handle, hanswer, hclosed, hpass, htoken, hopens, hfresh⟩
  · intro i session hclosed hopen
    exact (meet_opened hnumbered htended hclosed hopen).2
  · intro session earlier hearlier hopen hclosed later
    exact live_closed_again hstart hearlier hopen hclosed later
  · intro handle hclosed
    have hsets : w.system.beginSets handle = (.error (System.ended handle), w.system) := by
      simp [System.beginSets, hclosed]
    refine ⟨hsets, by simp [System.availableSets, hsets], fun package => ?_,
      fun token packages => ?_, rfl, System.closeSession_stale hclosed, fun rest hinbox => ?_⟩
    · simp [System.restorePackage, hclosed]
    · simp [System.restoreAll, hclosed]
    · simp only [meet, happen, hinbox]
      exact System.closeSession_stale hclosed
  · intro i session hclosed hregards
    obtain ⟨d, hmatter, hshows⟩ := meet_matter hnumbered i
    have hslot := hmatter.stale htended hregards hclosed
    rw [hshows.eq]
    exact hslot

/-- A session is ended while its transport lists its datasets, and another one is opened. -/
def sessionReplaced : List Incident :=
  sessionOfAll ++ [.event (.sets handleOfAll), .event (.call (.endSession handleOfAll)),
    .event (.call (.beginSession .system none none))]

/-- The old handle is of no use any more, and the answer that its transport still owes does nothing
to the new session. -/
theorem session_slot_sessionReplaced :
    ∃ s, System.start {} {} deviceOfOne.fresh = .ok s ∧
      let w := (opened s).live sessionReplaced
      w.system.engine.session.isSome = true ∧
        w.system.restoreAll handleOfAll 5 ["app"] =
          (.error (System.ended handleOfAll), w.system) ∧
        (∀ later, (w.live later).system.isSession 0 = false) ∧
        w.system.desk.SameSlot (w.meet (.event (.land 0))).system.desk := by
  obtain ⟨s, hstart, hcheck⟩ := @start_check {} {} deviceOfOne.fresh (fun s =>
    let w := (opened s).live sessionReplaced
    ((opened s).live sessionOfAll).system.isSession 0 && !w.system.isSession 0 &&
      w.system.engine.session.isSome &&
      w.renews 0 (.event (.land 0))) (by decide +kernel)
  simp only [Bool.and_eq_true, Bool.not_eq_true'] at hcheck
  obtain ⟨⟨⟨hopened, hclosed⟩, hother⟩, hflight⟩ := hcheck
  obtain ⟨-, -, -, hgone, hhandles, hlate⟩ := session_slot hstart sessionReplaced
  obtain ⟨-, -, -, hrestoreAll, -⟩ := hhandles handleOfAll hclosed
  refine ⟨s, hstart, hother, hrestoreAll 5 ["app"],
    hgone 0 sessionOfAll (List.prefix_append _ _) hopened hclosed, ?_⟩
  simp only [renews] at hflight
  split at hflight
  · rename_i handle lease hanswer
    exact hlate _ 0 hclosed (.answer hanswer (by simpa using hflight))
  · cases hflight

end World

end Holdfast
