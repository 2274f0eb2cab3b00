import Holdfast.Proofs.Engine.RosterWork
import Holdfast.Proofs.Transport.Marks

/-!
# What events do to the roster

- `Roster.Deed`: what commands, timers and calls can do, one constructor per sort of thing;
- `World.Duty`: what any event can do, as a deed or as the turn of one task;
- `World.happen_duty`: **every event is of this kind.** A token is reported only in a call to that
  end, and at most one is issued.
-/

namespace Holdfast

open OperationTable (Spares)

/-- What is done with a token in an event. -/
inductive Dealing where
  | nothing
  | issues (token : OpToken)
  /-- An agent reports under a token. -/
  | hears (token : OpToken)

namespace Roster

/-- A timer that the session has now, it had before, or its number was just handed out. -/
def Rearms (r : Roster) (k : Nat) (alarm : Option Nat) : Prop :=
  ∀ number, alarm = some number →
    r.alarm = some number ∨ (r.nextNumber ≤ number ∧ number < r.nextNumber + k)

/-- What an event other than the step of a task does to the roster. -/
inductive Deed (r : Roster) : Dealing → Roster → Prop where
  /-- At most the timer of the session is another one, or a wipe of nothing is taken. -/
  | idles {k : Nat} {alarm : Option Nat} {mail : List (List String)} :
    r.Rearms k alarm → (∀ names ∈ r.mail, names ∈ mail ∨ names = []) →
    Deed r .nothing { r with nextNumber := r.nextNumber + k, alarm, mail }
  | reorders {tasks : List Task} : tasks.Perm r.tasks → Deed r .nothing { r with tasks }
  /-- Some operations are canceled. -/
  | cancels {ops : OperationTable Watcher} (tokens : List OpToken) :
    r.ops.Spares [] ops → Deed r .nothing (tokens.foldl cancel { r with ops })
  | hears (token : OpToken) (result : Int) :
    Deed r (.hears token) { r with ops := r.ops.complete token result }
  /-- A pass begins, under a token of its own. -/
  | begins {t : Task} {token : OpToken} :
    t.job.isPass = true → t.number = r.nextNumber → t.token = some token → t.canceled = false →
    t.holds = [] →
    Deed r (.issues token)
      (({ r.issue with ops := r.ops.registerTask token (.task t.number) } : Roster).count.enter t)
  /-- Another task begins. If it is a wipe, that may have been queued. -/
  | enters {t : Task} {k : Nat} {alarm : Option Nat} {mail : List (List String)} :
    t.job.isPass = false → t.number = r.nextNumber + k → t.holds = [] → r.Rearms k alarm →
    (∀ names ∈ r.mail, names ∈ mail ∨ names ⊆ t.wipes) →
    Deed r .nothing
      (({ r with nextNumber := r.nextNumber + k, alarm, mail } : Roster).count.enter t)
  | registers {registered : List String} :
    r.registered ⊆ registered → Deed r .nothing { r with registered }
  /-- Transports are marked, and a timer is set for their wipe. -/
  | marks {registered : List String} {marks : NameSet} {names : List String} :
    r.registered ⊆ registered →
    (∀ name ∈ marks, name ∈ r.marks ∨ (name ∈ names ∧ name ∈ registered)) →
    Deed r .nothing (({ r with registered, marks } : Roster).delay names)
  /-- Transports are dropped, and with them their marks. -/
  | unregisters {registered : List String} {marks : NameSet} :
    (∀ name ∈ marks, name ∈ r.marks ∧ (name ∈ r.registered → name ∈ registered)) →
    Deed r .nothing { r with registered, marks }
  /-- Wipes are queued, by a caller or by a timer. -/
  | posts {mail : List (List String)} {delayed : List (Nat × List String)} :
    r.mail ⊆ mail → delayed ⊆ r.delayed →
    (∀ entry ∈ r.delayed, entry ∈ delayed ∨ entry.2 ∈ mail) →
    Deed r .nothing { r with mail, delayed }

variable {r r' : Roster}

/-- The session keeps its timer. -/
theorem Rearms.same (r : Roster) (k : Nat) : r.Rearms k r.alarm := fun _ h => .inl h

/-- The session has no timer. -/
theorem Rearms.none (r : Roster) (k : Nat) : r.Rearms k none := nofun

end Roster

namespace System

open Roster (Deed)

variable {s s' : System} {r : Roster}

/-- Something is done in which no agent reports. If a token is issued, that is the next one. -/
def Acts (s : System) (r : Roster) : Prop :=
  Deed s.roster .nothing r ∨ Deed s.roster (.issues s.freshToken.1) r

/-- The roster has another timer for the session at most. -/
theorem Acts.idle {k : Nat} {alarm : Option Nat} (h : s.roster.Rearms k alarm) :
    s.Acts { s.roster with nextNumber := s.roster.nextNumber + k, alarm } :=
  have hmail : ∀ names ∈ s.roster.mail, names ∈ s.roster.mail ∨ names = [] :=
    fun _ hmem => .inl hmem
  .inl (.idles h hmail)

theorem Acts.refl (s : System) : s.Acts s.roster := @Acts.idle s 0 _ (.same _ 0)

theorem Acts.count (s : System) : s.Acts s.roster.count := @Acts.idle s 1 _ (.same _ 1)

/-- Nothing on the roster changes. -/
theorem acts_of_eq (h : s'.roster = s.roster) : s.Acts s'.roster := h ▸ .refl _

/-- What comes before does not show on the roster, and leaves the next token. -/
theorem Acts.of_same (hroster : s'.roster = s.roster) (htoken : s'.freshToken.1 = s.freshToken.1)
    (h : s'.Acts r) : s.Acts r := by
  unfold Acts at h
  rwa [hroster, htoken] at h

/-! ## Passes -/

/-- A pass begins under the next token. -/
theorem begins_acts {t : Task} (hpass : t.job.isPass = true)
    (hnumber : t.number = s.roster.nextNumber) (htoken : t.token = some s.freshToken.1)
    (hcanceled : t.canceled = false) (hholds : t.holds = [])
    (h : s'.roster = ({ s.freshToken.2.roster with
      ops := s.roster.ops.registerTask s.freshToken.1 (.task t.number) } : Roster).count.enter t) :
    s.Acts s'.roster := by
  rw [h, freshToken_roster]
  exact .inr (.begins hpass hnumber htoken hcanceled hholds)

/-- A pass begins, and a token is issued for it. -/
theorem startKeyValue_acts (s : System) (lease : Lease) (drained : Option Drained)
    (keyValue full : List String) (observer : Option String) (nonIncremental : Bool) :
    s.Acts (s.startKeyValue lease drained keyValue full observer nonIncremental).roster :=
  @begins_acts s _
    { number := s.engine.nextNumber
      job := .keyValue drained keyValue full observer nonIncremental
      lease := some lease
      token := some s.freshToken.1 } rfl rfl rfl rfl rfl rfl

/-- The job of passes begins a pass, or nothing. -/
theorem runKeyValue_acts (s : System) : s.Acts s.runKeyValue.roster := by
  refine runKeyValue_elim ?stays ?putsOff ?drains
  case stays => exact fun _ => .refl _
  case putsOff => exact acts_of_eq s.scheduleKeyValueJob_roster
  case drains => exact fun _ _ _ _ => startKeyValue_acts _ _ _ _ _ _ _

/-- A requested backup begins, or it waits. -/
theorem startRequested_acts (s : System) (order : BackupOrder) :
    s.Acts (s.startRequested order).roster := by
  unfold startRequested
  split
  · exact .refl _
  · exact startKeyValue_acts _ _ _ _ _ _ _

/-- Where a pass has ended, the next request begins. -/
theorem handlePassFinished_acts (s : System) : s.Acts s.handlePassFinished.roster := by
  refine handlePassFinished_elim ?hears ?begins
  case hears => exact fun _ => .refl _
  case begins =>
    exact fun order rest _ _ => startRequested_acts (s.onEngine fun e =>
      { e with runningPasses := e.runningPasses - 1, waitingRequests := rest }) order

/-- A full backup begins, and a token is issued for it. -/
theorem startFull_acts (s : System) (lease : Lease) (entry : ScheduleEntry) (p : Package) :
    s.Acts (s.startFull lease entry p).roster :=
  @begins_acts s _
    { number := s.engine.nextNumber
      job := .full p entry.lastBackup
      lease := some lease
      token := some s.freshToken.1 } rfl rfl rfl rfl rfl rfl

/-- Choosing a package leaves alone what tokens are made of. -/
theorem selectNext_token (s : System) : s.selectNext.2.2.freshToken.1 = s.freshToken.1 := by
  have hwords : s.selectNext.2.2.device.words = s.device.words :=
    s.selectNext_within.same .words (by decide)
  have htokens : s.selectNext.2.2.engine.tokens = s.engine.tokens :=
    s.selectNext_within.same .tokens (by decide)
  simp only [freshToken, Device.drawWord, hwords, htokens]
  split <;> rfl

/-- The choice among the packages of the schedule is not on the roster, but the full backup that
begins is. -/
theorem dispatchFull_acts (s : System) : s.Acts s.dispatchFull.2.2.roster := by
  refine Acts.of_same (s.selectNext_within.roster (by decide)) s.selectNext_token ?_
  refine dispatchFull_elim ?waits ?putsBack ?starts
  case waits => exact .refl _
  case putsBack => exact fun _ _ _ _ => .refl _
  case starts =>
    exact fun entry p name _ => startFull_acts (s.selectNext.2.2.lend name "full-backup") _ entry p

/-- The job of full backups begins one full backup at most. -/
theorem beginFull_acts (s : System) : s.Acts s.beginFull.2.roster := by
  refine beginFull_elim ?start ?dispatches ?writes ?arms
  case start => exact .refl _
  case dispatches => exact fun _ => s.dispatchFull_acts
  case writes =>
    intro s' hacts
    rwa [requestScheduleWrite_roster]
  case arms =>
    intro s' delay hacts
    rwa [note_roster _ rfl]

/-! ## Sessions and restores -/

/-- A timer that is stopped is not one of a wipe. -/
theorem dropTimer_roster (s : System) (timer : Option Nat)
    (h : ∀ entry ∈ s.roster.delayed, timer ≠ some entry.1) :
    (s.dropTimer timer).roster = s.roster := by
  cases timer with
  | none => rfl
  | some number => exact s.stopTimer_roster fun entry hmem heq => h entry hmem (heq ▸ rfl)

/-- The session has the timer it is given, or the one it had. -/
theorem replaceSessionTimer_roster (hs : s.roster.Timed) (session : Nat) (timer : Option Nat)
    (h : ∀ entry ∈ s.roster.delayed, timer ≠ some entry.1) :
    ∃ alarm, (alarm = s.roster.alarm ∨ alarm = timer) ∧
      (s.replaceSessionTimer session timer).roster = { s.roster with alarm } := by
  unfold replaceSessionTimer
  cases hsession : s.engine.session with
  | none => exact ⟨_, .inl rfl, s.dropTimer_roster _ h⟩
  | some opened =>
    have halarm : s.roster.alarm = opened.timer := by
      simp only [roster, hsession, Option.bind_some]
    simp only
    split
    · refine ⟨timer, .inr rfl, ?_⟩
      have hdropped := s.dropTimer_roster opened.timer fun entry hmem =>
        halarm ▸ (hs entry hmem).2
      exact congrArg (fun r : Roster => { r with alarm := timer }) hdropped
    · exact ⟨_, .inl rfl, s.dropTimer_roster _ h⟩

/-- A session gets a timer, whose number is handed out for it. -/
theorem armSession_roster (hs : s.roster.Timed) (session : Nat) :
    ∃ alarm, s.roster.Rearms 1 alarm ∧
      (s.armSession session).roster = { s.roster.count with alarm } := by
  have hposted : (s.postDelayed (.sessionTimeout session)
      s.engine.settings.restoreTimeout).2.roster = s.roster.count := s.postDelayed_roster rfl _
  have hnumber : (s.postDelayed (.sessionTimeout session)
      s.engine.settings.restoreTimeout).1 = s.roster.nextNumber := rfl
  unfold armSession
  simp only
  generalize s.postDelayed _ _ = answer at hposted hnumber ⊢
  obtain ⟨number, s'⟩ := answer
  simp only at hposted hnumber ⊢
  have hs' : s'.roster.Timed := by
    rw [hposted]
    exact fun entry hmem => ⟨Nat.lt_succ_of_lt (hs entry hmem).1, (hs entry hmem).2⟩
  obtain ⟨alarm, halarm, hroster⟩ := replaceSessionTimer_roster hs' session (some number)
    fun entry hmem heq => by
      rw [hposted] at hmem
      have hlt := (hs entry hmem).1
      have hnumber' := Option.some.inj heq
      omega
  rw [hposted] at halarm hroster
  refine ⟨alarm, fun other hother => ?_, hroster⟩
  rcases halarm with rfl | rfl
  · exact .inl hother
  · obtain rfl := Option.some.inj hother
    exact .inr ⟨Nat.le_of_eq hnumber.symm, hnumber ▸ Nat.lt_succ_self _⟩

/-- The timer of a session goes with it. -/
theorem closeSession_roster (hs : s.roster.Timed) (session : Nat) :
    ∃ alarm, (alarm = s.roster.alarm ∨ alarm = none) ∧
      (s.closeSession session).roster = { s.roster with alarm } := by
  unfold closeSession
  cases hsession : s.engine.session with
  | none => exact ⟨_, .inl rfl, rfl⟩
  | some opened =>
    have halarm : s.roster.alarm = opened.timer := by
      simp only [roster, hsession, Option.bind_some]
    simp only
    split
    · refine ⟨none, .inr rfl, ?_⟩
      have hdropped := s.dropTimer_roster opened.timer fun entry hmem =>
        halarm ▸ (hs entry hmem).2
      exact congrArg (fun r : Roster => { r with alarm := none }) hdropped
    · exact ⟨_, .inl rfl, rfl⟩

/-- A restore is a task that holds no token. -/
theorem spawnRestore_roster (s : System) (order : RestoreOrder) :
    ∃ t : Task, t.job.isPass = false ∧ t.number = s.roster.nextNumber ∧ t.holds = [] ∧
      (s.spawnRestore order).roster = s.roster.count.enter t :=
  ⟨_, rfl, rfl, rfl, rfl⟩

/-- A restore begins after the timer of the session was replaced. -/
theorem spawnRestore_acts {s₀ s : System} {k : Nat} {alarm : Option Nat}
    (halarm : s₀.roster.Rearms k alarm)
    (h : s.roster = { s₀.roster with nextNumber := s₀.roster.nextNumber + k, alarm })
    (order : RestoreOrder) : s₀.Acts (s.spawnRestore order).roster := by
  obtain ⟨t, hpass, hnumber, hholds, hroster⟩ := s.spawnRestore_roster order
  rw [hroster, h]
  rw [h] at hnumber
  have hmail : ∀ names ∈ s₀.roster.mail, names ∈ s₀.roster.mail ∨ names ⊆ t.wipes :=
    fun _ hmem => .inl hmem
  exact Or.inl (.enters hpass hnumber hholds halarm hmail)

/-- A restore stops the timer of its session, and it begins or waits. -/
theorem startRestore_acts (hs : s.roster.Timed) (order : RestoreOrder) :
    s.Acts (s.startRestore order).roster := by
  have hadmit : ∀ (s' : System) alarm, (alarm = s.roster.alarm ∨ alarm = none) →
      s'.roster = { s.roster with alarm } → s.Acts (s'.admitRestore order).roster := by
    intro s' alarm halarm hroster
    have hrearms : s.roster.Rearms 0 alarm := by
      rcases halarm with rfl | rfl
      · exact .same _ 0
      · exact .none _ 0
    unfold admitRestore
    split
    · rw [show (s'.onEngine fun e =>
        { e with waitingRestores := e.waitingRestores ++ [order] }).roster = _ from hroster]
      exact Acts.idle hrearms
    · exact spawnRestore_acts hrearms hroster order
  unfold startRestore
  cases order.session with
  | none => exact hadmit s _ (.inl rfl) rfl
  | some session =>
    obtain ⟨alarm, halarm, hroster⟩ :=
      replaceSessionTimer_roster hs session none nofun
    exact hadmit _ alarm halarm hroster

/-- The next restore begins, after whatever was done to the timer of the session. -/
theorem startNextRestore_acts {s₀ s : System} {k : Nat} {alarm : Option Nat}
    (halarm : s₀.roster.Rearms k alarm)
    (h : s.roster = { s₀.roster with nextNumber := s₀.roster.nextNumber + k, alarm }) :
    s₀.Acts s.startNextRestore.roster := by
  unfold startNextRestore
  split
  · rw [show (s.onEngine fun e => { e with restoring := false }).roster = _ from h]
    exact Acts.idle halarm
  · exact spawnRestore_acts halarm h _

/-- A restore has ended: its session is armed, and the next one begins. -/
theorem handleRestoreFinished_acts (hs : s.roster.Timed) (session : Option Nat) :
    s.Acts (s.handleRestoreFinished session).roster := by
  unfold handleRestoreFinished
  cases session with
  | none => exact startNextRestore_acts (k := 0) (.same _ 0) rfl
  | some session =>
    simp only
    split
    · obtain ⟨alarm, halarm, hroster⟩ := armSession_roster hs session
      exact startNextRestore_acts halarm hroster
    · exact startNextRestore_acts (k := 0) (.same _ 0) rfl

/-! ## Commands -/

/-- The deletion of data begins, or it is tried again later. -/
theorem startClearData_acts (s : System) (transport package : String) :
    s.Acts (s.startClearData transport package).roster := by
  refine startClearData_elim ?putsOff ?starts
  case putsOff =>
    rw [postDelayed_roster _ rfl]
    exact .count _
  case starts =>
    rw [spawn_roster, freshNumber_roster, lend_roster]
    have hmail : ∀ (t : Task) (names), names ∈ s.roster.mail → names ∈ s.roster.mail ∨
        names ⊆ t.wipes := fun _ _ hmem => .inl hmem
    exact Or.inl (.enters (k := 0) rfl rfl rfl (.same _ 0) (hmail _))

/-- A command that is no wipe is carried out. -/
theorem handle_acts (hs : s.roster.Timed) {command : Command} (hplain : command.wiped? = none)
    (hgoes : command ≠ .shutdown) : s.Acts (s.handle command).roster := by
  cases command with
  | dataChanged package targets => exact acts_of_eq (scheduleKeyValueJob_roster _)
  | runKeyValue => exact s.runKeyValue_acts
  | requestBackup order => exact s.startRequested_acts order
  | passFinished => exact s.handlePassFinished_acts
  | wipe transports observer => cases hplain
  | clearData transport package => exact s.startClearData_acts transport package
  | writeSchedule => exact acts_of_eq rfl
  | startRestore order => exact startRestore_acts hs order
  | restoreFinished session => exact handleRestoreFinished_acts hs session
  | sessionTimeout session =>
    obtain ⟨alarm, halarm, hroster⟩ := closeSession_roster hs session
    rw [handle, hroster]
    rcases halarm with rfl | rfl
    · exact .refl _
    · exact Acts.idle (k := 0) (.none _ 0)
  | snapshot => exact .refl _
  | shutdown => exact absurd rfl hgoes

/-- The oldest command is a wipe: it begins. -/
theorem startInit_acts {names : List String} {observer : Option String} {rest : List Command}
    (hinbox : s.engine.inbox = .wipe names observer :: rest) :
    s.Acts
      ((s.onEngine fun e => { e with inbox := rest }).startInit names observer).roster := by
  have hmail : s.roster.mail = names :: rest.filterMap Command.wiped? := by
    simp only [roster, hinbox, Command.wiped?, List.filterMap_cons]
  have htaken : ∀ {wiped : List String} {P : List String → Prop}, P names →
      (wiped ∈ s.roster.mail → wiped ∈ rest.filterMap Command.wiped? ∨ P wiped) := by
    intro wiped P hnames hmem
    rw [hmail] at hmem
    rcases List.mem_cons.1 hmem with rfl | hmem
    · exact .inr hnames
    · exact .inl hmem
  unfold startInit
  split
  · rename_i hempty
    exact Or.inl (.idles (k := 0) (.same _ 0) fun wiped =>
      htaken (P := (· = [])) (List.isEmpty_iff.1 hempty))
  · exact Or.inl (.enters (k := 0) rfl rfl rfl (.same _ 0) fun wiped =>
      htaken (P := (· ⊆ names)) (List.Subset.refl _))

/-! ## Timers and operations -/

/-- A timer goes off: the wipe that it stands for joins the mail. -/
theorem goOff_posts (hloop : s.roster.looping = true) (timer : Timer) :
    ∃ mail, (s.goOff timer).roster = { s.roster with mail } ∧ s.roster.mail ⊆ mail ∧
      ∀ names, timer.action.wiped? = some names → names ∈ mail := by
  unfold goOff
  cases haction : timer.action with
  | expireBind ticket => exact ⟨_, rfl, List.Subset.refl _, nofun⟩
  | post command =>
    cases hwiped : command.wiped? with
    | none =>
      refine ⟨_, s.post_roster hwiped, List.Subset.refl _, fun names hnames => ?_⟩
      cases hwiped.symm.trans hnames
    | some names =>
      obtain ⟨observer, rfl⟩ : ∃ observer, command = .wipe names observer := by
        cases command <;> cases hwiped
        exact ⟨_, rfl⟩
      refine ⟨s.roster.mail ++ [names], ?_, List.subset_append_left _ _, ?_⟩
      · simp only
        rw [post_wipe, Roster.post, if_pos hloop]
      · rintro other ⟨⟩
        exact List.mem_append_right _ (List.mem_singleton_self _)

/-- Several timers go off, and none of their wipes is lost. -/
theorem goOffAll_posts (due : List Timer) (hloop : s.roster.looping = true) :
    ∃ mail, (due.foldl goOff s).roster = { s.roster with mail } ∧ s.roster.mail ⊆ mail ∧
      ∀ timer ∈ due, ∀ names, timer.action.wiped? = some names → names ∈ mail := by
  induction due generalizing s with
  | nil => exact ⟨_, rfl, List.Subset.refl _, fun _ h => absurd h List.not_mem_nil⟩
  | cons timer due ih =>
    obtain ⟨mail, hroster, hsubset, hposted⟩ := goOff_posts hloop timer
    obtain ⟨mail', hroster', hsubset', hposted'⟩ :=
      ih (s := s.goOff timer) (by rw [hroster]; exact hloop)
    rw [hroster] at hroster' hsubset'
    refine ⟨mail', hroster', List.Subset.trans hsubset hsubset', ?_⟩
    intro other hother names hnames
    rcases List.mem_cons.1 hother with rfl | hother
    · exact hsubset' (hposted names hnames)
    · exact hposted' other hother names hnames

/-- Timers go off and queue their wipes. -/
theorem fireTimers_acts (hloop : s.roster.looping = true) :
    s.Acts s.fireTimers.roster := by
  obtain ⟨mail, hroster, hsubset, hposted⟩ := goOffAll_posts s.dueTimers (s := s.onEngine fun e =>
    { e with timers := e.timers.filter (fun timer => ¬ timer.due ≤ e.ops.clock) }) hloop
  unfold fireTimers
  simp only
  rw [hroster]
  refine Or.inl (.posts hsubset ?_ ?_)
  · exact List.filterMap_subset _ List.filter_sublist.subset
  · intro entry hentry
    obtain ⟨timer, hmem, hwiped⟩ := List.mem_filterMap.1 hentry
    obtain ⟨names, hnames, rfl⟩ := Option.map_eq_some_iff.1 hwiped
    -- a wipe that was delayed is still, or its timer was due
    by_cases hdue : timer.due ≤ s.engine.ops.clock
    · exact .inr (hposted timer (List.mem_filter.2 ⟨hmem, by simpa using hdue⟩) names hnames)
    · refine .inl (List.mem_filterMap.2 ⟨timer, List.mem_filter.2 ⟨hmem, ?_⟩, hwiped⟩)
      simpa using hdue

/-- Operations are canceled one after the other. -/
theorem foldl_cancelOperation_roster (tokens : List OpToken) (s : System) :
    (tokens.foldl cancelOperation s).roster = tokens.foldl Roster.cancel s.roster := by
  induction tokens generalizing s with
  | nil => rfl
  | cons token tokens ih => rw [List.foldl_cons, ih, cancelOperation_roster, List.foldl_cons]

/-- Operations are canceled after events of the table may have been taken. -/
theorem cancels_acts {ops : OperationTable Watcher} (hspares : s.roster.ops.Spares [] ops)
    (tokens : List OpToken) :
    s.Acts (tokens.foldl cancelOperation (s.onEngine fun e => { e with ops })).roster := by
  rw [foldl_cancelOperation_roster]
  exact Or.inl (.cancels tokens hspares)

/-- One operation is canceled. -/
theorem cancelOperation_acts (s : System) (token : OpToken) :
    s.Acts (s.cancelOperation token).roster :=
  cancels_acts (s := s) (.refl _ _) [token]

/-- The oldest event of the table is run. -/
theorem handleEvent_acts (s : System) (event : OpEvent Watcher) (rest : List (OpEvent Watcher)) :
    s.Acts ((s.onEngine fun e =>
      { e with ops := { e.ops with events := rest } }).handleEvent event).roster := by
  have htaken : s.roster.ops.Spares [] { s.roster.ops with events := rest } := fun _ _ => rfl
  unfold handleEvent
  split
  · exact cancels_acts htaken []
  · split
    · exact cancels_acts htaken [_]
    · exact cancels_acts htaken []

/-! ## Calls -/

/-- The operations of all passes are canceled. -/
theorem cancelBackups_acts (s : System) : s.Acts s.cancelBackups.roster := by
  unfold cancelBackups
  simp only
  rw [note_roster _ rfl, note_roster _ rfl]
  exact cancels_acts (.refl _ _) _

/-- The operation of the full backup that runs is canceled. -/
theorem endFullNow_acts (s : System) : s.Acts s.endFullNow.2.roster := by
  unfold endFullNow
  split
  · exact s.cancelOperation_acts _
  · exact .refl _

/-- A transport is registered, and wiped after a delay if it has to be. -/
theorem registerTransport_acts (s : System) (t : TransportDescription) :
    s.Acts (s.registerTransport t).2.roster := by
  have hentered : ∀ name, name ∈ (TransportRegistry.enter s.engine.transports.transports t).map
      (·.1) ↔ name = t.name ∨ name ∈ s.roster.registered := by
    intro name
    rw [← TransportRegistry.lookup_names, TransportRegistry.lookup_enter, roster,
      ← TransportRegistry.lookup_names]
    split
    · rename_i hname
      simp [hname]
    · rename_i hname
      simp [hname]
  have hknown : s.roster.registered ⊆
      (TransportRegistry.enter s.engine.transports.transports t).map (·.1) :=
    fun name hmem => (hentered name).2 (.inr hmem)
  refine registerTransport_elim ?refuses ?enters ?wipes
  case refuses => exact fun _ _ _ _ => .refl _
  case enters => exact fun _ _ _ => Or.inl (.registers hknown)
  case wipes =>
    intro _ _ _
    simp only
    rw [postDelayed_wipe]
    refine Or.inl (.marks hknown fun name hmem => ?_)
    rcases NameSet.mem_insert.1 hmem with rfl | hmem
    · exact .inr ⟨List.mem_singleton_self _, (hentered _).2 (.inl rfl)⟩
    · exact .inl hmem

/-- Transports are dropped with their marks. -/
theorem unregister_roster (names : List String) (s : System) :
    ∃ registered marks,
      (names.foldl (fun s name => (s.unregisterTransport name).2) s).roster =
        { s.roster with registered, marks } ∧
      ∀ name ∈ marks, name ∈ s.roster.marks ∧
        (name ∈ s.roster.registered → name ∈ registered) := by
  induction names generalizing s with
  | nil => exact ⟨_, _, rfl, fun name hmem => ⟨hmem, id⟩⟩
  | cons gone names ih =>
    have hfirst : ∃ registered marks, (s.unregisterTransport gone).2.roster =
        { s.roster with registered, marks } ∧ ∀ name ∈ marks, name ∈ s.roster.marks ∧
          (name ∈ s.roster.registered → name ∈ registered) := by
      unfold unregisterTransport TransportRegistry.unregister
      by_cases hregistered : s.engine.transports.isRegistered gone = true
      · rw [if_pos hregistered]
        refine ⟨_, _, rfl, fun name hmem => ?_⟩
        obtain ⟨hmarked, hne⟩ := NameSet.mem_erase.1 hmem
        refine ⟨hmarked, fun hknown => ?_⟩
        obtain ⟨entry, hentry, rfl⟩ := List.mem_map.1 hknown
        exact List.mem_map_of_mem (List.mem_filter.2 ⟨hentry, by simpa using hne⟩)
      · rw [if_neg hregistered]
        exact ⟨_, _, rfl, fun name hmem => ⟨hmem, id⟩⟩
    obtain ⟨registered, marks, hroster, hkept⟩ := hfirst
    obtain ⟨registered', marks', hroster', hkept'⟩ := ih (s.unregisterTransport gone).2
    rw [hroster] at hroster' hkept'
    refine ⟨registered', marks', hroster', fun name hmem => ?_⟩
    obtain ⟨hmarked, hknown⟩ := hkept' name hmem
    exact ⟨(hkept name hmarked).1, fun h => hknown ((hkept name hmarked).2 h)⟩

/-- A transport is taken out together with its mark. -/
theorem unregisterTransport_acts (s : System) (name : String) :
    s.Acts (s.unregisterTransport name).2.roster := by
  obtain ⟨registered, marks, hroster, hkept⟩ := unregister_roster [name] s
  exact hroster ▸ Or.inl (.unregisters hkept)

/-- A wipe that is asked for is sent to the loop, which runs. -/
theorem initializeTransports_acts (hloop : s.roster.looping = true) (names : List String)
    (observer : Option String) :
    s.Acts (s.initializeTransports names observer).2.roster := by
  rw [initializeTransports, send_snd, post_wipe, Roster.post, if_pos hloop]
  exact Or.inl (.posts (List.subset_append_left _ _) (List.Subset.refl _)
    fun entry hmem => .inl hmem)

/-- Only registered transports are marked. -/
theorem markAll_roster (names : List String) (s : System) :
    ∃ marks, (s.markAll names).roster = { s.roster with marks } ∧
      ∀ name ∈ marks, name ∈ s.roster.marks ∨ (name ∈ names ∧ name ∈ s.roster.registered) := by
  induction names generalizing s with
  | nil => exact ⟨_, rfl, fun name hmem => .inl hmem⟩
  | cons first names ih =>
    have hfirst : ∃ marks, (s.markAll [first]).roster = { s.roster with marks } ∧
        ∀ name ∈ marks, name ∈ s.roster.marks ∨
          (name = first ∧ name ∈ s.roster.registered) := by
      simp only [markAll, List.foldl_cons, List.foldl_nil]
      rcases s.folderName_roster first with ⟨-, fault, hfolder⟩ | ⟨hknown, folderName, hfolder⟩
      · rw [hfolder]
        exact ⟨_, rfl, fun name hmem => .inl hmem⟩
      · rw [hfolder]
        refine ⟨_, setInitPending_roster _ _ _ _, fun name hmem => ?_⟩
        rcases NameSet.mem_insert.1 hmem with rfl | hmem
        · exact .inr ⟨rfl, hknown⟩
        · exact .inl hmem
    obtain ⟨marks, hroster, hmarked⟩ := hfirst
    obtain ⟨marks', hroster', hmarked'⟩ := ih (s.markAll [first])
    rw [hroster] at hroster' hmarked'
    refine ⟨marks', hroster', fun name hmem => ?_⟩
    rcases hmarked' name hmem with hmem | ⟨hmem, hknown⟩
    · rcases hmarked name hmem with hmem | ⟨rfl, hknown⟩
      · exact .inl hmem
      · exact .inr ⟨List.mem_cons_self, hknown⟩
    · exact .inr ⟨List.mem_cons_of_mem _ hmem, hknown⟩

/-- Backup is switched off: every transport is marked, and the wipe of all is a timer. -/
theorem setEnabled_acts (s : System) (on : Bool) : s.Acts (s.setEnabled on).2.roster := by
  have hset : (s.switched on).roster = s.roster := rfl
  refine setEnabled_elim ?refuses ?keeps ?allows ?forbids
  case refuses => exact .refl _
  case keeps => exact fun _ => acts_of_eq hset
  case allows =>
    intro _ _
    rw [scheduleNextFullJob_roster, scheduleKeyValueJob_roster]
    exact acts_of_eq hset
  case forbids =>
    intro _ _ delay
    obtain ⟨marks, hroster, hmarked⟩ := markAll_roster s.engine.transports.names
      ((s.switched on).note .keyValueJobCanceled)
    rw [note_roster _ rfl, hset] at hroster hmarked
    rw [postDelayed_wipe, hroster]
    exact Or.inl (.marks (List.Subset.refl _) hmarked)

/-- A package is removed, and the transports that it hosts with it. -/
theorem packageRemoved_acts (s : System) (package : String) (replacing : Bool) :
    s.Acts (s.packageRemoved package replacing).roster := by
  have hdropped : ∀ s' : System, s'.roster = s.roster → s.Acts
      ((s'.engine.transports.hostedBy package).foldl
        (fun s transport => (s.unregisterTransport transport).2) s').roster := by
    intro s' hsame
    obtain ⟨registered, marks, hroster, hkept⟩ :=
      unregister_roster (s'.engine.transports.hostedBy package) s'
    rw [hroster]
    rw [hsame] at hkept ⊢
    exact Or.inl (.unregisters hkept)
  unfold packageRemoved
  cases replacing with
  | true => exact hdropped s rfl
  | false => exact hdropped _ (post_roster _ rfl)

/-- A session opens with a timer of its own. -/
theorem beginSession_acts (hs : s.roster.Timed) (caller : Caller)
    (package transport : Option String) :
    s.Acts (s.beginSession caller package transport).2.roster := by
  refine beginSession_elim ?refuses ?opens
  case refuses => exact fun _ _ => .refl _
  case opens =>
    intro _ _ _ _ _ _ _
    have hopened : (s.freshNumber.2.onEngine fun e =>
        { e with session := some ⟨s.engine.nextNumber, none⟩ }).roster.Timed :=
      fun entry hmem => ⟨Nat.lt_succ_of_lt (hs entry hmem).1, nofun⟩
    obtain ⟨alarm, halarm, hroster⟩ := armSession_roster hopened s.engine.nextNumber
    rw [hroster]
    refine Acts.idle (k := 2) fun number hnumber => ?_
    rcases halarm number hnumber with hbefore | ⟨hle, hlt⟩
    · cases hbefore
    · exact .inr ⟨Nat.le_of_succ_le hle, hlt⟩

/-- A call is one of the deeds. -/
theorem make_acts (hs : s.roster.Timed) (hloop : s.roster.looping = true) {c : Call}
    (hplain : ∀ token result, c ≠ .complete token result) : s.Acts (c.make s).roster := by
  cases c with
  | cancelBackups => exact s.cancelBackups_acts
  | beginFull => exact s.beginFull_acts
  | endFull => exact s.endFullNow_acts
  | registerTransport t => exact s.registerTransport_acts t
  | unregisterTransport name => exact s.unregisterTransport_acts name
  | initializeTransports names observer => exact initializeTransports_acts hloop names observer
  | setEnabled on => exact s.setEnabled_acts on
  | packageRemoved package replacing => exact s.packageRemoved_acts package replacing
  | complete token result => exact absurd rfl (hplain token result)
  | cancelOperation token => exact s.cancelOperation_acts token
  | beginSession caller package transport => exact beginSession_acts hs caller package transport
  | endSession session => exact @handle_acts _ hs (.sessionTimeout session.number) rfl nofun
  | _ =>
    -- No other call has a part of the roster in its footprint.
    refine acts_of_eq ((s.make_within _).roster ?_)
    dsimp only [Call.footprint]
    decide

/-! ## Calls that wait for a transport -/

/-- An answer is waited for no longer: the lease comes back, and a session is armed. -/
theorem land_acts (hs : s.roster.Timed) (flight : Flight) :
    s.Acts (flight.land s).roster := by
  cases flight with
  | select lease => exact acts_of_eq ((s.endSelect_within _).roster (by decide))
  | sets session lease =>
    have hdisposed := s.dispose_roster (some lease)
    obtain ⟨alarm, halarm, hroster⟩ := @armSession_roster (s.dispose (some lease))
      (by rw [hdisposed]; exact hs) session.number
    have harmed : s.Acts ((s.dispose (some lease)).armSession session.number).roster := by
      rw [hroster]
      rw [hdisposed] at halarm ⊢
      exact Acts.idle halarm
    rw [Flight.land, endSets_snd]
    exact harmed

/-! ## The order of the tasks -/

/-- The tasks take their turns in another order. -/
theorem reorder_acts {tasks : List Task} (hperm : tasks.Perm s.engine.tasks) :
    s.Acts (s.onEngine fun e => { e with tasks }).roster :=
  Or.inl (.reorders hperm)

/-- A task goes behind the others. -/
theorem sendBack_acts (s : System) (number : Nat) : s.Acts (s.sendBack number).roster := by
  refine reorder_acts ?_
  have hperm := List.filter_append_perm (fun t : Task => decide (t.number ≠ number)) s.engine.tasks
  simpa using hperm

/-- The tasks whose calls come back go behind the others. -/
theorem wake_acts (s : System) (transport : String) (method : TransportMethod) :
    s.Acts (s.wake transport method).roster := by
  unfold wake
  split
  · refine reorder_acts ?_
    have hperm := List.filter_append_perm (fun t : Task => !waitsFor transport method t)
      s.engine.tasks
    simpa using hperm
  · exact .refl _

end System

/-! ## Events -/

namespace World

/-- What an event does to the roster. -/
inductive Duty (w : World) (event : Event) (r : Roster) : Prop where
  | deed {dealing : Dealing} :
    (∀ token, dealing = .hears token → ∃ result, event = .call (.complete token result)) →
    (∀ token, dealing = .issues token → token = w.system.freshToken.1) →
    Roster.Deed w.system.roster dealing r → Duty w event r
  | turn {t : Task} {issued : Option OpToken} :
    t ∈ w.system.engine.tasks → event = .task t.number →
    (∀ token ∈ issued, token = w.system.freshToken.1) →
    Roster.Turn w.system.roster t issued r → Duty w event r

variable {w : World}

/-- What acts on the roster is one of its deeds. -/
theorem duty_of_acts {event : Event} {r : Roster} (h : w.system.Acts r) :
    w.Duty event r := by
  rcases h with hdeed | hdeed
  · exact .deed (fun _ h => by cases h) (fun _ h => by cases h) hdeed
  · refine .deed (fun _ h => by cases h) ?_ hdeed
    rintro _ ⟨⟩
    rfl

/-- The loop takes the next command, if there is one. -/
theorem command_duty (hs : w.Sound) (ht : w.system.roster.Timed) :
    w.Duty .command (w.happen .command).system.roster := by
  simp only [happen]
  split
  · exact duty_of_acts (.refl _)
  · rename_i command rest hinbox
    refine duty_of_acts ?_
    cases hwiped : command.wiped? with
    | some names =>
      obtain ⟨observer, rfl⟩ : ∃ observer, command = .wipe names observer := by
        cases command <;> cases hwiped
        exact ⟨_, rfl⟩
      exact System.startInit_acts hinbox
    | none =>
      -- no shutdown is queued in a sound world
      have hstop : command ≠ .shutdown := by
        rintro rfl
        refine hs.lasting ?_
        show _ ∈ w.system.engine.inbox.filter Command.counts
        rw [hinbox, List.filter_cons_of_pos rfl]
        exact List.mem_cons_self
      have htaken : (w.system.onEngine fun e => { e with inbox := rest }).roster =
          w.system.roster := by
        simp only [System.roster, System.onEngine, hinbox, List.filterMap_cons, hwiped]
      exact .of_same htaken rfl (System.handle_acts (htaken ▸ ht) hwiped hstop)

/-- **Every event is a deed or the turn of one task.** -/
theorem happen_duty (hs : w.Sound) (ht : w.system.roster.Timed) (event : Event) :
    w.Duty event (w.happen event).system.roster := by
  have hloop : w.system.roster.looping = true := hs.looping
  have hsame : w.Duty event w.system.roster := duty_of_acts (.refl _)
  cases event with
  | command => exact command_duty hs ht
  | operation =>
    simp only [happen]
    split
    · exact hsame
    · exact duty_of_acts (w.system.handleEvent_acts _ _)
  | timers => exact duty_of_acts (System.fireTimers_acts hloop)
  | clock =>
    refine duty_of_acts (System.cancels_acts (fun token _ => ?_) [])
    show (w.system.engine.ops.tick).get? token = _
    rw [OperationTable.get?, (OperationTable.tick_spec _).1]
    rfl
  | task number =>
    simp only [happen]
    split
    · exact hsame
    · rename_i t hfind
      have hnumber : t.number = number := by simpa using List.find?_some hfind
      split
      · have hmem := List.mem_of_find?_eq_some hfind
        have hevent : Event.task number = .task t.number := by rw [hnumber]
        -- with a token that is issued in the step, or without
        rcases w.system.stepTask_turn_roster t with hturn | hturn
        · exact .turn hmem hevent (fun _ h => by cases h) hturn
        · refine .turn hmem hevent ?_ hturn
          rintro _ ⟨⟩
          rfl
      · exact hsame
  | sendBack number => exact duty_of_acts (w.system.sendBack_acts number)
  | wake transport method => exact duty_of_acts (w.system.wake_acts transport method)
  | call c =>
    -- an agent reports in this call only
    by_cases hcomplete : ∃ token result, c = .complete token result
    · obtain ⟨token, result, rfl⟩ := hcomplete
      refine @Duty.deed _ _ _ (.hears token) ?_ (fun _ h => by cases h) (.hears token result)
      rintro other ⟨⟩
      exact ⟨result, rfl⟩
    · exact duty_of_acts (System.make_acts ht hloop fun token result heq =>
        hcomplete ⟨token, result, heq⟩)
  | select name =>
    refine duty_of_acts (System.acts_of_eq ?_)
    have hbegun := (w.system.beginSelect_within name).roster (by decide)
    rcases w.select_system name with heq | heq
    · rw [heq, hbegun]
    · rw [heq, (System.endSelect_within _ none).roster (by decide), hbegun]
  | sets session =>
    refine duty_of_acts (System.acts_of_eq ?_)
    rw [sets_system, (w.system.beginSets_within session).roster (by decide)]
  | land index =>
    simp only [happen]
    split
    · exact hsame
    · exact duty_of_acts (System.land_acts ht _)
  | drop index =>
    rw [drop_system]
    exact hsame
  | outside disk device => exact hsame

end World

end Holdfast
