import Holdfast.Proofs.Engine.DeskWork

/-!
# Matters of restores

Of all that can happen to an engine, a shutdown included, only a few things concern its desk of
restores.

- `Incident`, `World.meet`, `World.live`: runs in which the loop may be asked to stop;
- `World.Matter`: everything that can happen to the desk, one constructor per sort of incident;
- `World.meet_matter`: **each incident does to the desk one of these**, and adds to the inbox only
  at its end;
- `System.start_desk`: the desk at the start.
-/

namespace Holdfast

/-! ## Incidents -/

/-- Something that can happen, a shutdown included. -/
inductive Incident where
  | event (event : Event)
  /-- The loop is asked to stop. -/
  | shutdown

/-- The restores that a call can hand to the loop. -/
inductive Call.Submits (s : System) : Call → RestoreOrder → Prop where
  | one {session : Session} {package : String} {lease : Lease} :
    lease.transport = session.transport →
    (∀ limit, session.package = some limit → limit = package) →
    Submits s (.restorePackage session package)
      ⟨lease, s.restoreToken package, [package], none, false, some session.number⟩
  | all {session : Session} {token : UInt64} {packages : List String} {lease : Lease} :
    lease.transport = session.transport → session.package = none →
    Submits s (.restoreAll session token packages)
      ⟨lease, token, if packages.isEmpty then s.everyPackage else packages, none, true,
        some session.number⟩
  | install {caller : Caller} {package : String} {token : Int} {lease : Lease} :
    caller.privileged = true → s.engine.looping = true → ¬ s.SkipsInstall package →
    Submits s (.restoreAtInstall caller package token)
      ⟨lease, s.restoreToken package, [package], some token, false, none⟩

namespace World

variable {w : World}

/-- One incident. -/
def meet (w : World) : Incident → World
  | .event event => w.happen event
  | .shutdown => w.become w.system.shutdown.2

/-- Incidents one after the other. -/
def live (w : World) (incidents : List Incident) : World := incidents.foldl meet w

/-- The commands that were queued and are not taken by an incident. -/
def kept (w : World) : Incident → List Command
  | .event .command => w.system.engine.inbox.tail
  | _ => w.system.engine.inbox

/-- The restore whose task makes its last step in an event, and whether its transport had accepted
it. -/
def ending? (w : World) : Event → Option (RestoreOrder × Bool)
  | .task number =>
    (w.system.engine.tasks.find? (·.number == number)).bind fun t =>
      if w.system.isReady t then w.system.ending? t else none
  | _ => none

/-- Incidents that cannot pass the desk by. -/
def Concerns (w : World) : Incident → Prop
  | .event .command => ∃ command ∈ w.system.engine.inbox.head?, command.isQuiet = false
  | .event (.task number) => w.ending? (.task number) ≠ none
  | .event (.land index) => ∃ session lease, w.flights[index]? = some (.sets session lease)
  | .event (.call (.beginSession caller package transport)) =>
    ∃ session, (w.system.beginSession caller package transport).1 = .ok (some session)
  | .event (.call (.restoreAtInstall caller _ _)) => caller.privileged = true
  | _ => False

/-- What an incident does to the desk. -/
inductive Matter (w : World) : Incident → Desk → Prop where
  | calm {i : Incident} : ¬ w.Concerns i → Matter w i w.system.desk
  | tick : Matter w (.event .clock) { w.system.desk with clock := w.system.desk.clock + 1 }
  | ring : Matter w (.event .timers) w.system.desk.ring
  | take {command : Command} {rest : List Command} :
    w.system.engine.inbox = command :: rest → command.isQuiet = false →
    Matter w (.event .command) (w.system.desk.take command)
  | opens {caller : Caller} {package transport : Option String} {session : Session} :
    (w.system.beginSession caller package transport).1 = .ok (some session) →
    session.number = w.system.engine.nextNumber → w.system.engine.session = none →
    Matter w (.event (.call (.beginSession caller package transport))) w.system.desk.opens
  /-- The datasets of a session were listed. -/
  | renew {index : Nat} {session : Session} {lease : Lease} :
    w.flights[index]? = some (.sets session lease) →
    Matter w (.event (.land index)) (w.system.desk.arm session.number)
  | close (session : Session) :
    Matter w (.event (.call (.endSession session))) (w.system.desk.close session.number)
  | submit {c : Call} {order : RestoreOrder} : c.Submits w.system order →
    Matter w (.event (.call c)) (w.system.desk.post (.startRestore order))
  /-- Nothing is restored at install. -/
  | skip {caller : Caller} {package : String} {token : Int} :
    caller.privileged = true →
    w.system.SkipsInstall package ∨ w.system.engine.looping = false →
    Matter w (.event (.call (.restoreAtInstall caller package token)))
      (w.system.desk.tell token false)
  /-- The task of a restore makes its last step. -/
  | finish {number : Nat} {order : RestoreOrder} {started : Bool} :
    w.ending? (.task number) = some (order, started) →
    Matter w (.event (.task number)) (w.system.desk.finish number order started)
  | stop : Matter w .shutdown (w.system.desk.post .shutdown)

/-- An incident that does nothing to the desk. -/
theorem calm_matter {i : Incident} (hcalm : w.system.Calm (w.meet i).system)
    (hkept : w.kept i = w.system.engine.inbox) (hminor : ¬ w.Concerns i) :
    ∃ d, w.Matter i d ∧ (w.meet i).system.Shows (w.kept i) d :=
  ⟨_, .calm hminor, hkept ▸ hcalm.shows⟩

/-- A call that hands a restore of a session to the loop, or does not. -/
theorem submit_matter (hs : w.system.Numbered) {c : Call} {session : Session} {token : UInt64}
    {packages : List String} {recordAncestral : Bool} (hminor : ¬ w.Concerns (.event (.call c)))
    (hmake : c.make w.system = (w.system.submit session token packages recordAncestral).2)
    (hsubmits : ∀ lease, lease.transport = session.transport → c.Submits w.system
      ⟨lease, token, packages, none, recordAncestral, some session.number⟩) :
    ∃ d, w.Matter (.event (.call c)) d ∧
      (c.make w.system).Shows w.system.engine.inbox d := by
  rw [hmake]
  refine System.submit_elim ?refuses ?posts
  case refuses => exact ⟨_, .calm hminor, System.Still.refl.shows hs⟩
  case posts => exact ⟨_, .submit (hsubmits _ rfl), System.lend_post_shows hs _ _ _⟩

theorem restoreAtInstall_matter (hs : w.system.Numbered) (caller : Caller) (package : String)
    (token : Int) :
    ∃ d, w.Matter (.event (.call (.restoreAtInstall caller package token))) d ∧
      (w.system.restoreAtInstall caller package token).2.Shows w.system.engine.inbox d := by
  cases hprivileged : caller.privileged with
  | false =>
    have hsame : (w.system.restoreAtInstall caller package token).2 = w.system := by
      rw [System.restoreAtInstall, if_pos (by simp [hprivileged])]
    rw [hsame]
    exact ⟨_, .calm (by simp [Concerns, hprivileged]), System.Still.refl.shows hs⟩
  | true =>
    have htold : ∀ s : System, s.Numbered →
        (s.note (.installed token false)).Shows s.engine.inbox (s.desk.tell token false) :=
      fun s hs => .of_desk (s.note_installed_desk token false) ⟨hs.nodup, hs.below⟩
        (.inl List.prefix_rfl)
    refine System.restoreAtInstall_elim ?refuses ?skips ?posts ?strands
    case refuses => exact fun hunprivileged => absurd (hprivileged.symm.trans hunprivileged) nofun
    case skips => exact fun hskip => ⟨_, .skip hprivileged (.inl hskip), htold _ hs⟩
    case posts =>
      exact fun name hgo hlooping => ⟨_, .submit (.install hprivileged hlooping hgo),
        System.lend_post_shows hs _ _ _⟩
    case strands =>
      exact fun name hstopped => ⟨_, .skip hprivileged (.inr hstopped),
        htold (w.system.lend name _) ⟨hs.nodup, hs.below⟩⟩

theorem beginSession_matter (hs : w.system.Numbered) (caller : Caller)
    (package transport : Option String) :
    ∃ d, w.Matter (.event (.call (.beginSession caller package transport))) d ∧
      (w.system.beginSession caller package transport).2.Shows w.system.engine.inbox d := by
  rcases w.system.beginSession_cases caller package transport with
    ⟨hnone, heq⟩ | ⟨session, hanswer, hnumber, hclosed, heq⟩
  · rw [heq]
    exact ⟨_, .calm (fun ⟨session, h⟩ => hnone session h), System.Still.refl.shows hs⟩
  · refine ⟨_, .opens hanswer hnumber hclosed, ?_⟩
    rw [heq]
    have hfresh : (w.system.freshNumber.2.onEngine fun e =>
        { e with session := some ⟨w.system.engine.nextNumber, none⟩ }).Numbered :=
      ⟨hs.nodup, fun entry hentry => Nat.lt_succ_of_lt (hs.below entry hentry)⟩
    exact (System.armSession_timed _ _).shows hfresh (System.armSession_desk _ _)

/-- What a call does to the desk. -/
theorem make_matter (hs : w.system.Numbered) (c : Call) :
    ∃ d, w.Matter (.event (.call c)) d ∧ (c.make w.system).Shows w.system.engine.inbox d := by
  have hstill : ∀ {c : Call}, w.system.Still (c.make w.system) → ¬ w.Concerns (.event (.call c)) →
      ∃ d, w.Matter (.event (.call c)) d ∧ (c.make w.system).Shows w.system.engine.inbox d :=
    fun hstill hminor => ⟨_, .calm hminor, hstill.shows hs⟩
  cases c with
  | cancelBackups => exact hstill (System.cancelBackups_still hs) id
  | beginFull => exact ⟨_, .calm id, (System.beginFull_calm hs).shows⟩
  | endFull => exact hstill (System.endFullNow_still hs) id
  | cancelOperation token => exact hstill (System.cancelOperation_still hs token) id
  | beginSession caller package transport => exact beginSession_matter hs caller package transport
  | restorePackage session package =>
    have hsame : (w.system.restorePackage session package).2 = w.system →
        ∃ d, w.Matter (.event (.call (.restorePackage session package))) d ∧
          (w.system.restorePackage session package).2.Shows w.system.engine.inbox d :=
      fun heq => ⟨_, .calm id, heq.symm ▸ System.Still.refl.shows hs⟩
    have hknown : (∀ limit, session.package = some limit → limit = package) →
        (w.system.restorePackage session package).2 =
          (w.system.restoreKnown session package).2 →
        ∃ d, w.Matter (.event (.call (.restorePackage session package))) d ∧
          (w.system.restorePackage session package).2.Shows w.system.engine.inbox d := by
      intro hscope heq
      by_cases hzero : w.system.restoreToken package = 0
      · exact hsame (heq.trans (by rw [System.restoreKnown]; simp [hzero]))
      · refine submit_matter hs id (heq.trans ?_) fun lease hlease => .one hlease hscope
        rw [System.restoreKnown]
        simp [hzero]
    unfold Call.make
    by_cases hopen : w.system.isSession session.number = true
    · cases hscope : session.package with
      | none =>
        refine hknown (fun limit hlimit => ?_) (by simp [System.restorePackage, hopen, hscope])
        rw [hscope] at hlimit
        cases hlimit
      | some limit =>
        by_cases hsame' : limit = package
        · refine hknown (fun other hother => ?_)
            (by simp [System.restorePackage, hopen, hscope, hsame'])
          rw [hscope] at hother
          cases hother
          exact hsame'
        · exact hsame (by simp [System.restorePackage, hopen, hscope, hsame'])
    · exact hsame (by simp [System.restorePackage, hopen])
  | restoreAll session token packages =>
    have hsame : (w.system.restoreAll session token packages).2 = w.system →
        ∃ d, w.Matter (.event (.call (.restoreAll session token packages))) d ∧
          (w.system.restoreAll session token packages).2.Shows w.system.engine.inbox d :=
      fun heq => ⟨_, .calm id, heq.symm ▸ System.Still.refl.shows hs⟩
    unfold Call.make
    by_cases hopen : w.system.isSession session.number = true
    · cases hscope : session.package with
      | some limit => exact hsame (by simp [System.restoreAll, hopen, hscope])
      | none =>
        exact submit_matter hs id (by simp [Call.make, System.restoreAll, hopen, hscope])
          fun lease hlease => .all hlease hscope
    · exact hsame (by simp [System.restoreAll, hopen])
  | endSession session =>
    exact ⟨_, .close session, (w.system.closeSession_timed _).shows hs
      (w.system.closeSession_desk _)⟩
  | restoreAtInstall caller package token => exact restoreAtInstall_matter hs caller package token
  | _ =>
    -- No other call has a part of the desk in its footprint.
    refine hstill ((w.system.make_within _).still ?_) id
    dsimp only [Call.footprint]
    decide

/-- The restore that ends is one of those that run. -/
theorem ending_mem {number : Nat} {order : RestoreOrder} {started : Bool}
    (hend : w.ending? (.task number) = some (order, started)) :
    (number, order) ∈ w.system.desk.running := by
  obtain ⟨t, hfind, hstep⟩ := Option.bind_eq_some_iff.1 hend
  obtain rfl : t.number = number := by simpa using List.find?_some hfind
  have hjob : t.job.restore? = some order := by
    split at hstep
    · unfold System.ending? at hstep
      split at hstep
      · rename_i hjob _
        split at hstep
        · cases hstep
        · cases hstep
          rw [hjob]
          rfl
      · rename_i hjob _
        cases hstep
        rw [hjob]
        rfl
      · cases hstep
    · cases hstep
  refine List.mem_filterMap.2 ⟨t.entry, List.mem_map_of_mem (List.mem_of_find?_eq_some hfind), ?_⟩
  rw [Task.entry, hjob]
  rfl

/-- The oldest command, when it is a matter of restores. -/
theorem mail_cons {command : Command} {rest : List Command}
    (hinbox : w.system.engine.inbox = command :: rest) (hmatter : command.isQuiet = false) :
    w.system.desk.mail = command :: rest.filter (!·.isQuiet) := by
  show w.system.engine.inbox.filter _ = _
  rw [hinbox, List.filter_cons_of_pos (by simp [hmatter])]

/-- The step of a task. -/
theorem task_matter (hs : w.system.Numbered) (number : Nat) :
    ∃ d, w.Matter (.event (.task number)) d ∧
      (w.happen (.task number)).system.Shows w.system.engine.inbox d := by
  cases hfind : w.system.engine.tasks.find? (·.number == number) with
  | none =>
    refine ⟨_, .calm (by simp [Concerns, ending?, hfind]), ?_⟩
    simp only [happen, hfind]
    exact System.Still.refl.shows hs
  | some t =>
    obtain rfl : t.number = number := by simpa using List.find?_some hfind
    have hseated : w.system.Seated t :=
      ⟨hs, List.mem_map_of_mem (List.mem_of_find?_eq_some hfind)⟩
    cases hready : w.system.isReady t with
    | false =>
      refine ⟨_, .calm (by simp [Concerns, ending?, hfind, hready]), ?_⟩
      simp only [happen, hfind, hready, Bool.false_eq_true, if_false]
      exact System.Still.refl.shows hs
    | true =>
      have hstep : (w.happen (.task t.number)).system = w.system.stepTask t := by
        simp only [happen, hfind, hready, if_true]
        rfl
      have hsame : w.ending? (.task t.number) = w.system.ending? t := by
        simp [ending?, hfind, hready]
      rw [hstep]
      cases hend : w.system.ending? t with
      | none =>
        exact ⟨_, .calm (by simp [Concerns, hsame, hend]),
          (System.stepTask_calm hseated hend).shows⟩
      | some ending =>
        obtain ⟨order, started⟩ := ending
        exact ⟨_, .finish (hsame.trans hend), System.stepTask_finish hs hend⟩

/-- The loop takes the next command, if there is one. -/
theorem command_matter (hs : w.system.Numbered) :
    ∃ d, w.Matter (.event .command) d ∧
      (w.meet (.event .command)).system.Shows (w.kept (.event .command)) d := by
  have hkept : w.kept (.event .command) = w.system.engine.inbox.tail := rfl
  simp only [meet, happen, hkept]
  cases hinbox : w.system.engine.inbox with
  | nil =>
    refine ⟨_, .calm (by simp [Concerns, hinbox]), ?_⟩
    exact .of_desk rfl hs (.inl (List.nil_prefix))
  | cons command rest =>
    have htaken : (w.system.onEngine fun e => { e with inbox := rest }).Numbered :=
      ⟨hs.nodup, hs.below⟩
    cases hquiet : command.isQuiet with
    -- no matter of restores, and not in the mail of the desk
    | true =>
      have hdesk : (w.system.onEngine fun e => { e with inbox := rest }).desk =
          w.system.desk := by
        simp only [System.desk, System.onEngine, hinbox, List.filter_cons, hquiet,
          Bool.not_true, Bool.false_eq_true, if_false]
        rfl
      exact ⟨_, .calm (by simp [Concerns, hinbox, hquiet]),
        hdesk ▸ (System.handle_calm htaken hquiet).shows⟩
    -- the oldest of the mail
    | false =>
      have hdesk : (w.system.onEngine fun e => { e with inbox := rest }).desk =
          { w.system.desk with mail := w.system.desk.mail.tail } := by
        simp only [System.desk, System.onEngine, hinbox, List.filter_cons, hquiet,
          Bool.not_false, if_true, List.tail_cons]
        rfl
      obtain ⟨hnumbered, hkept⟩ := System.handle_frame htaken hquiet
      refine ⟨_, .take hinbox hquiet, .of_desk ?_ hnumbered ?_⟩
      · show (System.handle _ command).desk = _
        rw [System.handle_desk _ hquiet, hdesk]
        rfl
      · refine hkept.imp_left fun hsame => ?_
        exact hsame ▸ List.prefix_rfl

/-- A transport answers a call that waited for it: only the answer about datasets is a matter of
restores. -/
theorem land_matter (hs : w.system.Numbered) (index : Nat) :
    ∃ d, w.Matter (.event (.land index)) d ∧
      (w.meet (.event (.land index))).system.Shows (w.kept (.event (.land index))) d := by
  cases hflight : w.flights[index]? with
  | none =>
    have hnone : w.happen (.land index) = w := by simp only [happen, hflight]
    refine calm_matter ?_ rfl (by simp [Concerns, hflight])
    show w.system.Calm (w.happen (.land index)).system
    rw [hnone]
    exact System.Still.refl.calm hs
  | some flight =>
    have hland : (w.happen (.land index)).system = flight.land w.system := by
      simp only [happen, hflight]
      rfl
    show ∃ d, _ ∧ (w.happen (.land index)).system.Shows _ d
    rw [hland]
    cases flight with
    | select lease =>
      exact ⟨_, .calm (by simp [Concerns, hflight]),
        ((w.system.endSelect_within (some lease)).still (by decide)).shows hs⟩
    | sets session lease => exact ⟨_, .renew hflight, System.endSets_shows hs session lease⟩

/-- **What an incident does to the desk is one of the matters of restores**, and commands that were
queued stay where they are. -/
theorem meet_matter (hs : w.system.Numbered) (i : Incident) :
    ∃ d, w.Matter i d ∧ (w.meet i).system.Shows (w.kept i) d := by
  cases i with
  | shutdown =>
    refine ⟨_, .stop, ?_⟩
    show (w.system.send .shutdown).2.Shows _ _
    rw [System.send_snd]
    exact System.post_shows hs .shutdown
  | event event =>
    cases event with
    | command => exact command_matter hs
    | operation =>
      refine calm_matter ?_ rfl id
      simp only [meet, happen]
      split
      · exact System.Still.refl.calm hs
      · rename_i event rest _
        have htaken : w.system.Still (w.system.onEngine fun e =>
            { e with ops := { e.ops with events := rest } }) := .of_eq rfl rfl rfl
        exact .after htaken hs fun hs => (System.handleEvent_still hs event).calm hs
    | timers =>
      obtain ⟨hentries, hnext, hinbox⟩ := System.goOffAll_frame w.system.dueTimers
        (w.system.onEngine fun e =>
          { e with timers := e.timers.filter (fun timer => ¬ timer.due ≤ e.ops.clock) })
      refine ⟨_, .ring, .of_desk w.system.fireTimers_desk ⟨?_, ?_⟩ (.inl hinbox)⟩
      · exact hentries ▸ hs.nodup
      · intro entry hentry
        exact hnext.symm ▸ hs.below entry (hentries ▸ hentry)
    | clock =>
      refine ⟨_, .tick, .of_desk ?_ ⟨hs.nodup, hs.below⟩ (.inl List.prefix_rfl)⟩
      have hclock : w.system.engine.ops.tick.clock = w.system.engine.ops.clock + 1 :=
        w.system.engine.ops.act_clock .tick
      show (w.system.onEngine fun e => { e with ops := e.ops.tick }).desk = _
      simp only [System.desk, System.onEngine, hclock]
      rfl
    | task number => exact task_matter hs number
    | sendBack number => exact calm_matter (System.sendBack_calm hs number) rfl id
    | wake transport method => exact calm_matter (System.wake_calm hs transport method) rfl id
    | call c => exact make_matter hs c
    | select name =>
      refine calm_matter (System.Still.calm ?_ hs) rfl id
      have hselect := (w.system.beginSelect_within name).still (by decide)
      show w.system.Still (w.happen (.select name)).system
      rcases w.select_system name with heq | heq
      · rwa [heq]
      · rw [heq]
        exact hselect.trans ((System.endSelect_within _ none).still (by decide))
    | sets session =>
      refine calm_matter (System.Still.calm ?_ hs) rfl id
      show w.system.Still (w.happen (.sets session)).system
      rw [sets_system]
      exact (w.system.beginSets_within session).still (by decide)
    | land index => exact land_matter hs index
    | drop index =>
      refine calm_matter ?_ rfl id
      show w.system.Calm (w.happen (.drop index)).system
      rw [drop_system]
      exact System.Still.refl.calm hs
    | outside disk device =>
      exact calm_matter (.of_eq hs rfl rfl rfl) rfl id

/-- Numbers are handed out in increasing order. -/
theorem Matter.next_le {i : Incident} {d : Desk} (hmatter : w.Matter i d) :
    w.system.desk.nextNumber ≤ d.nextNumber := by
  cases hmatter with
  | calm _ | tick | ring | skip _ _ => exact Nat.le_refl _
  | opens _ _ _ => exact (Desk.opens_timed _).next_le
  | renew _ => exact (Desk.arm_timed _ _).next_le
  | close session => exact (Desk.close_timed _ _).next_le
  | take _ _ => exact (Desk.take_frame _ _).1
  | submit _ | stop =>
    unfold Desk.post
    split <;> exact Nat.le_refl _
  | @finish number order started _ =>
    obtain ⟨_, _, heq⟩ := w.system.desk.finish_frame number order started
    exact Nat.le_of_eq (congrArg Desk.nextNumber heq).symm

/-! ## Runs -/

theorem live_append (w : World) (incidents more : List Incident) :
    w.live (incidents ++ more) = (w.live incidents).live more := List.foldl_append

theorem live_concat (w : World) (incidents : List Incident) (i : Incident) :
    w.live (incidents ++ [i]) = (w.live incidents).meet i := live_append w incidents [i]

theorem live_events (w : World) (events : List Event) :
    w.live (events.map .event) = w.run events := List.foldl_map

theorem live_numbered (hs : w.system.Numbered) (incidents : List Incident) :
    (w.live incidents).system.Numbered := by
  induction incidents generalizing w with
  | nil => exact hs
  | cons i incidents ih =>
    obtain ⟨_, -, hshows⟩ := meet_matter hs i
    exact ih hshows.numbered

end World

/-! ## The start -/

/-- A desk to which nothing has happened. -/
def Desk.cleared (d : Desk) : Desk :=
  { d with
    looping := true, clock := 0, session := none, alarms := [], mail := [], restoring := false
    waiting := [], running := [], installed := [] }

namespace System

theorem Still.cleared {s s' : System} (h : s.Still s') (hs : s.desk = s.desk.cleared) :
    s'.desk = s'.desk.cleared := by
  have hdesk : s'.desk = { s.desk with nextNumber := s'.engine.nextNumber } :=
    congrArg (fun d : Desk => { d with nextNumber := s'.engine.nextNumber }) h.desk
  rw [hdesk, hs]
  rfl

/-- **Nothing stands at the desk of a new engine.** -/
theorem start_desk {settings : Settings} {disk : Disk} {device : Device} {s : System}
    (h : System.start settings disk device.fresh = .ok s) :
    s.Numbered ∧ s.desk = s.desk.cleared := by
  obtain ⟨-, _, disk', -, -, rfl⟩ := System.start_cases h
  obtain ⟨_, _, _, _, _, _, hload⟩ := System.load_eq settings disk' device.fresh
  have hstill := ((load settings disk' device.fresh).2.wakeUp_within
    (load settings disk' device.fresh).1).still (by decide)
  refine ⟨hstill.numbered ?_, hstill.cleared ?_⟩
  · rw [hload]
    exact ⟨List.nodup_nil, nofun⟩
  · rw [hload]
    rfl

end System

end Holdfast
