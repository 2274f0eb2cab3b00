import Holdfast.Proofs.Engine.Affairs
import Holdfast.Proofs.Engine.Canceled
import Holdfast.Proofs.Engine.Trail

/-!
# How a canceled pass comes to its end

A pass that is canceled finishes the package in hand and takes no other one. If it had just looked
and found that it was not canceled, it still has the agent of that package back it up.

- `Seat.left`, `Seat.inHand?`, `Seat.unoffered?`, `Seat.starting?`: the packages that a pass has
  still to take, the one that it has in hand, whether the transport was not offered it yet, and
  whether its agent is about to be told to back up;
- `Seat.Placed`: where a pass can stand (`World.run_placed`);
- `Step.Recedes`: what a step of a canceled pass does, told by what the pass has still to do;
  `Step.From.recedes` proves this for every stage of the two sorts of passes;
- `Course.winds`: a canceled pass makes at most eleven more steps;
- `World.canceled_pass_halts`: **what becomes of a pass after a cancel that reaches it**, in every
  run. `World.cancel_passed_over` has a run in which the cancel does not reach the pass, and one in
  which an agent is told to back up after the cancel.
-/

namespace Holdfast

open scoped List

/-! ## Where a pass stands -/

/-- The steps that are still to come, at most, if no further package is taken. -/
def Stage.ahead : Stage → Nat
  | .opening => 11
  | .queued _ _ => 10
  | .binding _ _ => 9
  | .prepared _ _ | .starting _ _ => 8
  | .working _ _ => 7
  | .calling .currentRestoreSet => 3
  | .calling call => if call.payload?.isSome then 6 else 4
  | .choosing => 5
  | .closing _ => 2
  -- a pass that broke down stays where it is
  | .leaving | .fallen => 1

namespace Seat

/-- The packages that a pass has still to take, in order. A scheduled full backup has its only
package in hand from the start. -/
def left (e : Seat) : List Entry :=
  match e.job with
  | .keyValue _ keyValue full _ _ => keyValue.map (⟨·, .incremental⟩) ++ full.map (⟨·, .full⟩)
  | .full _ _ | .wipe _ _ _ | .clearData _ | .restore _ _ => []

/-- The package that a pass has in hand. -/
def inHand? (e : Seat) : Option String :=
  match e.stage with
  | .opening =>
    match e.job with
    | .full p _ => some p.name
    | _ => none
  | .queued v _ | .binding v _ | .prepared v _ | .starting v _ | .working v _ =>
    some v.package.name
  | .calling call => call.payload?.map (·.package)
  | .choosing | .closing _ | .leaving | .fallen => none

/-- The package in hand, as long as the transport was not offered it. -/
def unoffered? (e : Seat) : Option String :=
  match e.stage with
  | .calling _ => none
  | _ => e.inHand?

/-- The package whose agent is told to back up next, whatever happens in between. -/
def starting? (e : Seat) : Option String :=
  match e.stage with
  | .starting v _ => some v.package.name
  | _ => none

/-- A key-value pass asks its transport for nothing but its packages, and when none is left to
commit them and for the dataset that it wrote. It does not linger when it is over. -/
def Commits (e : Seat) : Prop :=
  e.job.kind = .keyValue →
    match e.stage with
    | .calling call => call.payload? = none →
      (call = .finishBackup ∨ call = .currentRestoreSet) ∧ e.left = []
    | .leaving | .fallen => False
    | _ => True

/-- Where a pass can stand. -/
structure Placed (e : Seat) : Prop where
  commits : e.Commits
  course : ∀ p lastBackup, e.job = .full p lastBackup → e.stage.IsFull p

end Seat

/-! ### In a run -/

theorem Entry.call_package (e : Entry) (nonIncremental : Bool) :
    (e.call nonIncremental).payload?.map (·.package) = some e.package := by
  obtain ⟨package, mode⟩ := e
  cases mode <;> rfl

/-- If a pass goes on, it stands where it can. -/
def Outlook.Commits (c : Charter) (outlook : Outlook) : Prop :=
  ∀ next, outlook.standing? = some next → (c.seat next).Commits

namespace Outlook

variable {c : Charter}

theorem commits_departs (status : Status) : (departs status).Commits c := fun _ h => by cases h

theorem commits_ends (next : Standing) (status : Status) : (ends next status).Commits c := by
  rintro _ ⟨⟩ -
  exact trivial

theorem commits_goesOn {next : Standing} (h : (c.seat next).Commits) :
    (goesOn next).Commits c := by
  rintro _ ⟨⟩
  exact h

theorem commits_after (status : Status) (next : Standing) : (after status next).Commits c := by
  unfold after
  split
  · exact commits_ends _ _
  · exact commits_goesOn fun _ => trivial

/-- A package is offered to the transport. -/
theorem commits_offer (e : Entry) (nonIncremental : Bool) {next : Standing} :
    (goesOn { next with stage := .calling (e.call nonIncremental) }).Commits c := by
  rintro _ ⟨⟩ - hnone
  have hpackage := e.call_package nonIncremental
  rw [hnone] at hpackage
  cases hpackage

end Outlook

theorem Stride.done_commits {c : Charter} (package : String) (status : Status) (next : Standing) :
    (done package status next).outlook.Commits c := Outlook.commits_after status next

theorem Entry.chosen_commits (e : Entry) {c : Charter} (nonIncremental : Bool)
    (listed : Option Package) (ticket : Nat) (next : Standing) :
    (e.chosen nonIncremental listed ticket next).outlook.Commits c := by
  unfold Entry.chosen
  split
  · exact Outlook.commits_offer e nonIncremental
  · split
    · exact Stride.done_commits _ _ _
    · split
      · exact Outlook.commits_goesOn fun _ => trivial
      · exact Stride.done_commits _ _ _

/-- A step of a key-value pass leaves it where it can stand. -/
theorem Step.From.commits {x : Step} {c : Charter} {p : Standing} (h : x.From (c.seat p))
    (hstands : (c.seat p).Commits) : ∃ d sign, x.Makes c d sign ∧ d.outlook.Commits c := by
  -- short of a commit there is nothing to show
  have hquiet : ∀ {next : Standing}, (c.seat next).Commits →
      (Outlook.goesOn next).Commits c := Outlook.commits_goesOn
  cases hstage : p.stage with
  | opening =>
    refine ⟨_, _, h.makes_opening hstage, ?_⟩
    simp only
    split
    · exact Outlook.commits_ends _ _
    · exact hquiet fun _ => trivial
  | choosing =>
    cases hentries : p.entries with
    | nil => exact ⟨_, _, h.makes_commit hstage hentries, hquiet fun _ _ => ⟨.inl rfl, hentries⟩⟩
    | cons e rest =>
      cases hcanceled : x.task.canceled with
      | true =>
        have hne : p.entries ≠ [] := by simp [hentries]
        exact ⟨_, _, h.makes_canceled hstage hne hcanceled, Outlook.commits_ends _ _⟩
      | false =>
        exact ⟨_, _, h.makes_choosing hstage hentries hcanceled, e.chosen_commits _ _ _ _⟩
  | queued v ticket =>
    refine ⟨_, _, h.makes_queued hstage, ?_⟩
    split
    · exact hquiet fun _ => trivial
    · exact Stride.done_commits _ _ _
  | binding v ticket =>
    rcases h.makes_binding hstage with ⟨token, hmakes⟩ | hmakes
    · exact ⟨_, _, hmakes, hquiet fun _ => trivial⟩
    · exact ⟨_, _, hmakes, Stride.done_commits _ _ _⟩
  | prepared v token =>
    refine ⟨_, _, h.makes_prepared hstage, hquiet ?_⟩
    cases x.task.canceled <;> exact fun _ => trivial
  | starting v token => exact ⟨_, _, h.makes_starting hstage, hquiet fun _ => trivial⟩
  | working v token =>
    rcases h.makes_working hstage with hmakes | ⟨-, hmakes⟩ | ⟨-, hmakes⟩
    · exact ⟨_, _, hmakes, Outlook.commits_offer _ _⟩
    · exact ⟨_, _, hmakes, Stride.done_commits _ _ _⟩
    · exact ⟨_, _, hmakes, Stride.done_commits _ _ _⟩
  | calling call =>
    by_cases hcall : call = .currentRestoreSet
    · subst hcall
      exact ⟨_, _, h.makes_dataset hstage, Outlook.commits_ends _ _⟩
    · obtain ⟨reply, hmakes⟩ := h.makes_calling hstage hcall
      refine ⟨_, _, hmakes, ?_⟩
      cases hpayload : call.payload? with
      | some e => exact Outlook.commits_after _ _
      | none =>
        have hleft : (c.seat p).left = [] := by
          have hasks := hstands rfl
          simp only [Charter.seat, hstage] at hasks
          exact (hasks hpayload).2
        simp only
        split
        · exact hquiet fun _ _ => ⟨.inr rfl, hleft⟩
        · exact Outlook.commits_ends _ _
  | closing status => exact ⟨_, _, h.makes_closing hstage, Outlook.commits_departs _⟩
  | leaving | fallen =>
    have hasks := hstands rfl
    simp only [Charter.seat, hstage] at hasks

/-- The entry of a key-value pass has a charter and a standing. -/
theorem Seat.exists_charter {e : Seat} (hkind : e.job.kind = .keyValue) :
    ∃ (c : Charter) (p : Standing), e = c.seat p := by
  obtain ⟨number, job, stage, lease, token⟩ := e
  cases job with
  | keyValue drained keyValue full observer nonIncremental =>
    exact ⟨⟨number, lease, token, drained, observer, nonIncremental⟩, ⟨keyValue, full, stage⟩, rfl⟩
  | full | wipe | clearData | restore => cases hkind

/-- After a step of a task there are the entries of others and perhaps its own, with the same sort
of job. -/
theorem Ledger.Turn.fresh {l l' : Ledger} {e : Seat} {greeted : List String}
    {said : List Device.Notice} (hturn : l.Turn e greeted said l') :
    ∀ e' ∈ l'.seats, e' ∈ l.seats ∨ e'.job.kind = e.job.kind := by
  rcases hturn.outcome with ⟨own, halike, -, hseats⟩ | ⟨_, _, _, _, _, hseats⟩
  · intro e' he'
    rw [hseats] at he'
    obtain ⟨other, hother, rfl⟩ := List.mem_map.1 he'
    split
    · exact .inr halike.kind
    · exact .inl hother
  · intro e' he'
    rw [hseats] at he'
    exact .inl (List.mem_filter.1 he').1

namespace World

variable {w : World}

/-- The step of a key-value pass leaves all of them where they can stand. -/
theorem commits_turn (hs : w.Sound) {t : Task} (hmem : t ∈ w.system.engine.tasks)
    (hready : w.system.isReady t = true) (h : ∀ e ∈ w.system.ledger.seats, e.Commits) :
    ∀ e ∈ (w.system.stepTask t).ledger.seats, e.Commits := by
  have hseat : t.seat ∈ w.system.ledger.seats := List.mem_map_of_mem hmem
  by_cases hkind : t.seat.job.kind = .keyValue
  · obtain ⟨c, p, hcharter⟩ := Seat.exists_charter hkind
    have hfrom : Step.From ⟨w.system, t⟩ (c.seat p) := ⟨hmem, hcharter, hs.numbers⟩
    obtain ⟨d, sign, hmakes, hcommits⟩ := hfrom.commits (hcharter ▸ h t.seat hseat)
    have hseats : (w.system.stepTask t).ledger.seats = _ := hmakes.seats
    intro e he
    rw [hseats] at he
    cases houtlook : d.outlook with
    | goesOn next | ends next status =>
      rw [houtlook] at he hcommits
      obtain ⟨other, hother, rfl⟩ := List.mem_map.1 he
      split
      · exact hcommits _ rfl
      · exact h other hother
    | departs status =>
      rw [houtlook] at he
      exact h e (List.mem_filter.1 he).1
  · obtain ⟨said, hturn⟩ := System.stepTask_turn hs.numbers (hs.fit _ hseat) hready
    intro e he
    rcases hturn.fresh e he with hold | hsame
    · exact h e hold
    · intro hkeyValue
      exact absurd (hsame.symm.trans hkeyValue) hkind

/-- Every event leaves the key-value passes where they can stand. -/
theorem commits_happen (hs : w.Sound) (h : ∀ e ∈ w.system.ledger.seats, e.Commits)
    (event : Event) : ∀ e ∈ (w.happen event).system.ledger.seats, e.Commits := by
  by_cases htask : ∃ number, event = .task number
  · obtain ⟨number, rfl⟩ := htask
    simp only [happen]
    split
    · exact h
    · rename_i t hfind
      split
      · exact commits_turn hs (List.mem_of_find?_eq_some hfind) ‹_› h
      · exact h
  · obtain ⟨gain, hmove, -⟩ := happen_moved hs fun number heq => htask ⟨number, heq⟩
    intro e he
    rcases hmove.grows.fresh e he with hold | ⟨-, hopening⟩
    · exact h e hold
    · intro _
      rw [hopening]
      exact trivial

theorem commits_run (hs : w.Sound) (h : ∀ e ∈ w.system.ledger.seats, e.Commits)
    (events : List Event) : ∀ e ∈ (w.run events).system.ledger.seats, e.Commits := by
  induction events generalizing w with
  | nil => exact h
  | cons event events ih => exact ih (run_sound [event] hs) (commits_happen hs h event)

/-- **In every run, every pass stands where it can.** -/
theorem run_placed {settings : Settings} {disk : Disk} {device : Device} {s : System}
    (h : System.start settings disk device.fresh = .ok s) (events : List Event) :
    ∀ t ∈ ((opened s).run events).system.engine.tasks, t.seat.Placed := by
  have hblank : ∀ e ∈ (opened s).system.ledger.seats, e.Commits := by
    rw [opened, System.start_ledger h]
    exact fun e he => absurd he List.not_mem_nil
  intro t hmem
  refine ⟨commits_run (opened_sound h) hblank events _ (List.mem_map_of_mem hmem), ?_⟩
  intro p lastBackup hjob
  have horderly := (opened_orderly h).live (events.map .event)
  rw [live_events] at horderly
  exact horderly.regular.course _ (System.mem_errands hmem) p lastBackup t.token t.stage
    (System.errand_full hjob)

/-- A task makes a step only when what it waits for has happened. -/
theorem course_ready (number : Nat) (events : List Event) (w : World) :
    ∀ x ∈ w.course number events, x.before.isReady x.task = true := by
  induction events generalizing w with
  | nil => exact fun x hx => absurd hx List.not_mem_nil
  | cons event events ih =>
    intro x hx
    rcases List.mem_append.1 hx with hfirst | hrest
    · have hturn := Option.mem_toList.1 hfirst
      cases event with
      | task other =>
        simp only [turn?] at hturn
        split at hturn
        · obtain ⟨t, -, ht⟩ := Option.bind_eq_some_iff.1 hturn
          split at ht
          · obtain rfl := Option.some.inj ht
            assumption
          · cases ht
        · cases hturn
      | _ => cases hturn
    · exact ih _ x hrest

end World

/-! ## Steps of canceled passes -/

/-- The package whose result an observer is told. -/
def Device.Notice.reported? : Notice → Option String
  | .result _ package _ => some package
  | _ => none

/-- The package whose agent is told something. -/
def Device.Notice.addressed? : Notice → Option String
  | .agent package _ => some package
  | _ => none

namespace Step

/-- The packages whose agents are told to back up in a step. -/
def started (x : Step) : List String :=
  (x.after.roster.worked.drop x.before.roster.worked.length).filterMap Device.Notice.addressed?

/-- The packages that are offered to transports in a step. -/
def offers (x : Step) : List String := x.calls.filterMap fun call => call.2.payload?.map (·.package)

/-- The packages whose results are told in a step. -/
def reports (x : Step) : List String := x.told.filterMap Device.Notice.reported?

/-- A step ends the work of a pass as canceled. The packages of a key-value pass are pending again.
A scheduled full backup has given up its agent, and its package is back in the schedule, unless the
clock cannot show when it is due. -/
def Cancels (x : Step) : Prop :=
  match x.task.job with
  | .keyValue drained _ _ _ _ =>
    ∃ disk, x.after.agenda = x.before.agenda.endPass x.task.number drained .cancelled disk
  | .full p lastBackup =>
    x.sign = .abandoned ∧
      x.after.agenda =
        x.before.agenda.endFull x.task.number p lastBackup x.task.token .cancelled
  | .wipe _ _ _ | .clearData _ | .restore _ _ => False

/-- In the last step of a key-value pass its observer is told the status of the whole pass, and the
job is armed again if that has failed. A scheduled full backup has nobody to tell. -/
def Announces (x : Step) (status : Status) : Prop :=
  match x.task.job with
  | .keyValue _ _ _ observer _ =>
    x.told = System.finishedNotice observer status ∧
      x.after.agenda = x.before.agenda.closePass x.task.number status
  | .full _ _ | .wipe _ _ _ | .clearData _ | .restore _ _ => True

/-- A transport answers in a step for the data of a package. -/
def Answers (x : Step) (package : String) (reply : Device.Reply) : Prop :=
  (∃ call e, x.task.stage = .calling call ∧ call.payload? = some e ∧ e.package = package) ∧
    x.sign = .replied reply

/-- An agent is told to back up only in a step that was to start it. -/
theorem started_sublist (x : Step) : x.started <+ x.task.seat.starting?.toList := by
  have hworked : x.after.roster.worked = x.before.roster.worked ∨
      ∃ v token, x.task.stage = .starting v token ∧
        x.after.roster.worked = x.before.roster.worked ++
          [Device.Notice.agent v.package.name (System.workNotice x.task v.mode)].filter
            (·.isWork) := by
    rcases x.before.stepTask_turn_roster x.task with hturn | hturn <;> exact hturn.worked
  unfold started
  rcases hworked with hsame | ⟨v, token, hstage, hmore⟩
  · rw [hsame, List.drop_length]
    exact List.nil_sublist _
  · have hstarting : x.task.seat.starting? = some v.package.name := by
      show (match x.task.stage with
        | .starting v _ => some v.package.name
        | _ => none) = _
      rw [hstage]
    rw [hmore, List.drop_left, hstarting]
    exact (List.filter_sublist.filterMap Device.Notice.addressed?)

end Step

/-- How the work of a canceled pass comes to its end, from the entry at which it was canceled to the
step that decides its status. -/
inductive Seat.Halts (e : Seat) (x : Step) : Status → Prop where
  | canceled : x.Cancels → Halts e x .cancelled
  /-- The transport is to be wiped first. -/
  | unready : x.task.stage = .opening →
    x.before.engine.transports.isInitPending x.task.transport = true → Halts e x .transportAborted
  /-- The transport gave up with the package in hand. -/
  | aborted {package : String} {reply : Device.Reply} : e.inHand? = some package →
    x.Answers package reply → Status.ofReply reply = .transportAborted →
    Halts e x .transportAborted
  /-- No package was left to start, and what was sent is committed. -/
  | committed {status : Status} : e.left = [] →
    x.task.stage = .calling .finishBackup ∨ x.task.stage = .calling .currentRestoreSet →
    Halts e x status
  /-- The agent of a scheduled full backup did not come up. -/
  | unbound {v : Visit} {ticket : Nat} : e.job.kind = .full →
    x.task.stage = .queued v ticket ∨ x.task.stage = .binding v ticket →
    Halts e x .agentFailure
  /-- The transport did not take the data of a scheduled full backup. -/
  | refused {package : String} {reply : Device.Reply} : e.job.kind = .full →
    e.inHand? = some package → x.Answers package reply → Status.ofReply reply ≠ .success →
    Halts e x (Status.ofReply reply)

/-- What a pass does in a step comes from the package in hand, and what it can still do afterwards
too. -/
structure Seat.Spends (e : Seat) (calls : List TransportCall) (said : List Device.Notice)
    (next : Option Seat) : Prop where
  offers : calls.filterMap (fun call => call.payload?.map (·.package)) ++
    (next.bind (·.unoffered?)).toList <+ e.unoffered?.toList
  reports : said.filterMap Device.Notice.reported? ++ (next.bind (·.inHand?)).toList <+
    e.inHand?.toList
  unstarted : next.bind (·.starting?) = none
  nearer : ∀ e' ∈ next, e'.stage.ahead < e.stage.ahead
  same : ∀ e' ∈ next, e'.number = e.number ∧ e'.job = e.job
  placed : ∀ e' ∈ next, e'.Placed

/-- A step of a canceled pass: it takes no package, and the pass comes nearer to its end. -/
structure Step.Recedes (x : Step) (e : Seat) (next : Option Seat) : Prop where
  leads : ∃ calls said, x.Leads e calls said next ∧ e.Spends calls said next
  /-- The status of the pass is decided. -/
  halts : ∀ e' ∈ next, ∀ status, e'.stage = .closing status → e.Halts x status
  /-- A full backup gives up its place when its status is decided. -/
  leaves : ∀ e' ∈ next, e'.stage = .leaving → ∃ status, e.stage = .closing status
  ends : next = none →
    ∃ status, (e.stage = .closing status ∨ e.stage = .leaving) ∧ x.Announces status

namespace Step.Recedes

variable {x : Step} {e e' : Seat} {calls : List TransportCall} {said : List Device.Notice}

/-- A pass goes on, and its status is open. -/
theorem goesOn (hleads : x.Leads e calls said (some e')) (hspends : e.Spends calls said (some e'))
    (hopen : e'.stage.isClosing = false) (hstays : e'.stage.isLeaving = false) :
    x.Recedes e (some e') where
  leads := ⟨_, _, hleads, hspends⟩
  halts := by
    rintro _ ⟨⟩ status hclosing
    rw [hclosing] at hopen
    cases hopen
  leaves := by
    rintro _ ⟨⟩ hleaving
    rw [hleaving] at hstays
    cases hstays
  ends h := by cases h

/-- The status of a pass is decided. -/
theorem decides {status : Status} (hleads : x.Leads e calls said (some e'))
    (hspends : e.Spends calls said (some e')) (hclosing : e'.stage = .closing status)
    (hhalts : e.Halts x status) : x.Recedes e (some e') where
  leads := ⟨_, _, hleads, hspends⟩
  halts := by
    rintro _ ⟨⟩ other hother
    obtain rfl : status = other := Stage.closing.inj (hclosing.symm.trans hother)
    exact hhalts
  leaves := by
    rintro _ ⟨⟩ hleaving
    cases hclosing.symm.trans hleaving
  ends h := by cases h

end Step.Recedes

/-! ### Key-value passes -/

namespace Charter

variable (c : Charter) {p : Standing}

theorem placed (h : (c.seat p).Commits) : (c.seat p).Placed :=
  ⟨h, fun _ _ hjob => by cases hjob⟩

theorem placed_offer (e : Entry) (nonIncremental : Bool) :
    (c.seat { p with stage := .calling (e.call nonIncremental) }).Placed :=
  c.placed (Outlook.commits_offer e nonIncremental _ rfl)

end Charter

theorem Stage.ahead_call (e : Entry) (nonIncremental : Bool) :
    (calling (e.call nonIncremental)).ahead = 6 := by
  obtain ⟨package, mode⟩ := e
  cases mode <;> rfl

theorem System.reported_result (observer : Option String) (package : String) (status : Status) :
    (resultNotice observer package status).filterMap Device.Notice.reported? <+ [package] := by
  cases observer with
  | none => exact List.nil_sublist _
  | some id => exact .refl _

theorem System.reported_finished (observer : Option String) (status : Status) :
    (finishedNotice observer status).filterMap Device.Notice.reported? = [] := by
  cases observer <;> rfl

namespace Seat.Spends

variable {e e' : Seat}

/-- A pass goes on with the same package, or without one as before. -/
theorem moves (hunoffered : e'.unoffered? = e.unoffered?) (hinHand : e'.inHand? = e.inHand?)
    (hunstarted : e'.starting? = none) (hnearer : e'.stage.ahead < e.stage.ahead)
    (hsame : e'.number = e.number ∧ e'.job = e.job) (hplaced : e'.Placed) :
    e.Spends [] [] (some e') where
  offers := by simp [hunoffered]
  reports := by simp [hinHand]
  unstarted := hunstarted
  nearer := by
    rintro _ ⟨⟩
    exact hnearer
  same := by
    rintro _ ⟨⟩
    exact hsame
  placed := by
    rintro _ ⟨⟩
    exact hplaced

/-- The package in hand is offered to the transport. -/
theorem hands {call : TransportCall} {package : String}
    (hhand : e.unoffered? = some package) (hcall : call.payload?.map (·.package) = some package)
    (hnearer : (Stage.calling call).ahead < e.stage.ahead)
    (hplaced : ({ e with stage := .calling call } : Seat).Placed) :
    e.Spends [call] [] (some { e with stage := .calling call }) where
  offers := by
    rw [hhand, List.filterMap_cons, hcall]
    exact .refl _
  reports := by
    have hinHand : e.inHand? = some package := by
      unfold unoffered? at hhand
      split at hhand
      · cases hhand
      · exact hhand
    show (call.payload?.map _).toList <+ _
    rw [hinHand, hcall]
  unstarted := rfl
  nearer := by
    rintro _ ⟨⟩
    exact hnearer
  same := by
    rintro _ ⟨⟩
    exact ⟨rfl, rfl⟩
  placed := by
    rintro _ ⟨⟩
    exact hplaced

/-- A pass goes on without a package. -/
theorem lays {calls : List TransportCall} {said : List Device.Notice}
    (hcalls : calls.filterMap TransportCall.payload? = [])
    (hsaid : said.filterMap Device.Notice.reported? <+ e.inHand?.toList)
    (hempty : e'.inHand? = none) (hunoffered : e'.unoffered? = none)
    (hunstarted : e'.starting? = none) (hnearer : e'.stage.ahead < e.stage.ahead)
    (hsame : e'.number = e.number ∧ e'.job = e.job) (hplaced : e'.Placed) :
    e.Spends calls said (some e') where
  offers := by
    have hnone : calls.filterMap (fun call => call.payload?.map (·.package)) = [] := by
      rw [← List.map_filterMap, hcalls, List.map_nil]
    simp [hnone, hunoffered]
  reports := by simpa [hempty] using hsaid
  unstarted := hunstarted
  nearer := by
    rintro _ ⟨⟩
    exact hnearer
  same := by
    rintro _ ⟨⟩
    exact hsame
  placed := by
    rintro _ ⟨⟩
    exact hplaced

/-- A pass is over. -/
theorem ends {calls : List TransportCall} {said : List Device.Notice}
    (hcalls : calls.filterMap TransportCall.payload? = [])
    (hsaid : said.filterMap Device.Notice.reported? <+ e.inHand?.toList) :
    e.Spends calls said none where
  offers := by
    have hnone : calls.filterMap (fun call => call.payload?.map (·.package)) = [] := by
      rw [← List.map_filterMap, hcalls, List.map_nil]
    simp [hnone]
  reports := by simpa using hsaid
  unstarted := rfl
  nearer := fun _ h => by cases h
  same := fun _ h => by cases h
  placed := fun _ h => by cases h

end Seat.Spends

theorem Stride.report_done (package : String) (status : Status) (next : Standing)
    (taken : Option Entry) (c : Charter) :
    ({ done package status next with taken } : Stride).report c =
      System.resultNotice c.observer package status := by
  simp [report, done]

namespace Step

/-- An agent that a pass gives up has not acknowledged its work. -/
theorem unacknowledged_of_abandoned {x : Step} (h : x.sign = .abandoned) {v : Visit}
    {token : OpToken} (hstage : x.task.stage = .working v token) :
    (x.before.engine.ops.wait token).1 ≠ some true := by
  intro hdone
  simp only [sign, hstage, if_pos hdone] at h
  cases h

namespace From

variable {x : Step} {c : Charter} {p : Standing}

theorem job (h : x.From (c.seat p)) :
    x.task.job = .keyValue c.drained p.keyValue p.full c.observer c.nonIncremental :=
  congrArg Seat.job h.seat

/-- A canceled pass that would take its next package ends as canceled. -/
theorem cancels_choosing (h : x.From (c.seat p)) (hstage : p.stage = .choosing)
    (hentries : p.entries ≠ []) (hcanceled : x.task.canceled = true) : x.Cancels := by
  have hafter : x.after = x.before.endKeyValue x.task c.drained .cancelled :=
    x.before.stepTask_breaksOff h.seat hstage hentries hcanceled
  have hopen : x.task.stage.isClosing = false := by rw [h.stage, hstage]; rfl
  unfold Cancels
  rw [h.job, hafter]
  exact x.before.endKeyValue_agenda (System.errand_pass h.job hopen) .cancelled

/-- A canceled pass whose agent has not acknowledged its work ends as canceled. -/
theorem cancels_working (h : x.From (c.seat p)) {v : Visit} {token : OpToken}
    (hstage : p.stage = .working v token) (hcanceled : x.task.canceled = true)
    (hmakes : x.Makes c (.done v.package.name .cancelled p) .abandoned) : x.Cancels := by
  have hstage' := h.stage.trans hstage
  have hnot := unacknowledged_of_abandoned hmakes.sign hstage'
  have hafter : x.after = ((x.before.collected v token).tellResult c.observer v.package.name
      .cancelled).endKeyValue { x.task with agentToken := none } c.drained .cancelled := by
    show x.before.stepTask x.task = _
    unfold System.stepTask
    rw [hstage']
    simp only [System.collectWork, if_neg hnot, hcanceled, if_true, System.visitFailed, h.job]
    rfl
  have hagenda : (x.before.collected v token).agenda = x.before.agenda :=
    System.tearDown_agenda _ _
  have hopen : ({ x.task with agentToken := none } : Task).stage.isClosing = false := by
    show x.task.stage.isClosing = false
    rw [hstage']
    rfl
  unfold Cancels
  rw [h.job, hafter]
  obtain ⟨disk, hend⟩ := System.endKeyValue_agenda ((x.before.collected v token).tellResult
    c.observer v.package.name .cancelled)
    (@System.errand_pass { x.task with agentToken := none } _ _ _ _ _ h.job hopen) .cancelled
  refine ⟨disk, ?_⟩
  rw [hend, System.tellResult_agenda, hagenda]

/-- In its last step a pass tells its observer how it ended. -/
theorem announces (h : x.From (c.seat p)) {status : Status} (hstage : p.stage = .closing status) :
    x.Announces status := by
  have hstage' := h.stage.trans hstage
  have htold := (h.makes_closing hstage).told
  have hafter : x.after = x.before.closeKeyValue x.task c.observer status := by
    show x.before.stepTask x.task = _
    unfold System.stepTask
    rw [hstage']
    simp only [System.closeTask, h.job]
  unfold Announces
  rw [h.job]
  refine ⟨by simpa using htold, ?_⟩
  rw [hafter]
  exact x.before.closeKeyValue_agenda x.task c.observer status

/-- A canceled pass is done with the package in hand. -/
theorem recedes_done (h : x.From (c.seat p)) {package : String} {status : Status}
    {taken : Option Entry} {sign : Sign}
    (hmakes : x.Makes c { Stride.done package status p with taken } sign)
    (hhand : (c.seat p).inHand? = some package) (hahead : 5 < p.stage.ahead)
    (hhalts : status.endsPass = true → (c.seat p).Halts x status) :
    ∃ next, x.Recedes (c.seat p) next := by
  have hreport := Stride.report_done package status p taken c
  have hsaid : (System.resultNotice c.observer package status).filterMap
      Device.Notice.reported? <+ (c.seat p).inHand?.toList := by
    rw [hhand]
    exact System.reported_result c.observer package status
  by_cases hends : status.endsPass = true
  · have hleads := hmakes.leads_to h (if_pos hends)
    rw [hreport] at hleads
    refine ⟨_, .decides hleads (.lays rfl hsaid rfl rfl rfl ?_ ⟨rfl, rfl⟩
      (c.placed fun _ => trivial)) rfl (hhalts hends)⟩
    exact Nat.lt_trans (show 2 < 5 by decide) hahead
  · have hleads := hmakes.leads_on h (if_neg hends)
    rw [hreport] at hleads
    exact ⟨_, .goesOn hleads (.lays rfl hsaid rfl rfl rfl hahead ⟨rfl, rfl⟩
      (c.placed fun _ => trivial)) rfl rfl⟩

/-- The status of a pass that has no package in hand is decided. -/
theorem recedes_ends (h : x.From (c.seat p)) {status : Status} {sign : Sign}
    (hmakes : x.Makes c { outlook := .ends p status } sign) (hahead : 2 < p.stage.ahead)
    (hhalts : (c.seat p).Halts x status) : ∃ next, x.Recedes (c.seat p) next :=
  ⟨_, .decides (hmakes.leads_to h rfl) (.lays rfl (List.nil_sublist _) rfl rfl rfl hahead
    ⟨rfl, rfl⟩ (c.placed fun _ => trivial)) rfl hhalts⟩

/-- **Every step of a canceled key-value pass comes nearer to its end.** -/
theorem recedes_keyValue (h : x.From (c.seat p)) (hcanceled : x.task.canceled = true)
    (hplaced : (c.seat p).Placed) : ∃ next, x.Recedes (c.seat p) next := by
  obtain ⟨keyValue, full, stage⟩ := p
  cases stage with
  | opening =>
    have hmakes := h.makes_opening rfl
    by_cases hpending : x.before.engine.transports.isInitPending c.transport = true
    · rw [if_pos hpending] at hmakes
      exact h.recedes_ends hmakes (show 2 < 11 by decide)
        (.unready h.stage (h.transport ▸ hpending))
    · rw [if_neg hpending] at hmakes
      exact ⟨_, .goesOn (hmakes.leads_on h rfl) (.moves rfl rfl rfl (show 5 < 11 by decide)
        ⟨rfl, rfl⟩ (c.placed fun _ => trivial)) rfl rfl⟩
  | choosing =>
    by_cases hentries : Standing.entries ⟨keyValue, full, .choosing⟩ = []
    · have hmakes := h.makes_commit rfl hentries
      exact ⟨_, .goesOn (hmakes.leads_on h rfl) (.lays rfl (List.nil_sublist _) rfl rfl rfl
        (show 4 < 5 by decide) ⟨rfl, rfl⟩ (c.placed fun _ _ => ⟨.inl rfl, hentries⟩)) rfl rfl⟩
    · have hcancels := h.cancels_choosing rfl hentries hcanceled
      exact h.recedes_ends (h.makes_canceled rfl hentries hcanceled) (show 2 < 5 by decide)
        (.canceled hcancels)
  | queued v ticket =>
    have hmakes := h.makes_queued rfl
    by_cases haccepts : x.before.hostAccepts v = true
    · rw [if_pos haccepts] at hmakes
      exact ⟨_, .goesOn (hmakes.leads_on h rfl) (.moves rfl rfl rfl (show 9 < 10 by decide)
        ⟨rfl, rfl⟩ (c.placed fun _ => trivial)) rfl rfl⟩
    · rw [if_neg haccepts] at hmakes
      exact h.recedes_done hmakes rfl (show 5 < 10 by decide) fun hends =>
        absurd hends Bool.false_ne_true
  | binding v ticket =>
    rcases h.makes_binding rfl with ⟨token, hmakes⟩ | hmakes
    · exact ⟨_, .goesOn (hmakes.leads_on h rfl) (.moves rfl rfl rfl (show 8 < 9 by decide)
        ⟨rfl, rfl⟩ (c.placed fun _ => trivial)) rfl rfl⟩
    · exact h.recedes_done hmakes rfl (show 5 < 9 by decide) fun hends =>
        absurd hends Bool.false_ne_true
  | prepared v token =>
    -- the pass finds that it was canceled, and the agent is not started
    have hmakes := h.makes_prepared rfl
    rw [hcanceled] at hmakes
    exact ⟨_, .goesOn (hmakes.leads_on h rfl) (.moves rfl rfl rfl (show 7 < 8 by decide)
      ⟨rfl, rfl⟩ (c.placed fun _ => trivial)) rfl rfl⟩
  | starting v token =>
    have hmakes := h.makes_starting rfl
    exact ⟨_, .goesOn (hmakes.leads_on h rfl) (.moves rfl rfl rfl (show 7 < 8 by decide)
      ⟨rfl, rfl⟩ (c.placed fun _ => trivial)) rfl rfl⟩
  | working v token =>
    rcases h.makes_working rfl with hmakes | ⟨-, hmakes⟩ | ⟨hnot, -⟩
    · have hplaced := c.placed_offer (p := ⟨keyValue, full, .working v token⟩)
        ⟨v.package.name, v.mode⟩ c.nonIncremental
      refine ⟨_, .goesOn (hmakes.leads_on h rfl)
        (.hands rfl (Entry.call_package _ _) ?_ hplaced) rfl rfl⟩
      rw [Stage.ahead_call]
      exact show 6 < 7 by decide
    · have hcancels := h.cancels_working rfl hcanceled hmakes
      exact h.recedes_done hmakes rfl (show 5 < 7 by decide) fun _ => .canceled hcancels
    · rw [hcanceled] at hnot
      cases hnot
  | calling call =>
    cases hpayload : call.payload? with
    | some e =>
      have hcall : call ≠ .currentRestoreSet := by
        rintro rfl
        cases hpayload
      obtain ⟨reply, hmakes⟩ := h.makes_calling rfl hcall
      simp only [hpayload] at hmakes
      have hhand : (c.seat ⟨keyValue, full, .calling call⟩).inHand? = some e.package := by
        show call.payload?.map _ = _
        rw [hpayload]
        rfl
      have hahead : 5 < (Stage.calling call).ahead := by
        cases call <;> cases hpayload <;> exact show 5 < 6 by decide
      refine h.recedes_done hmakes hhand hahead fun hends => ?_
      have haborted : Status.ofReply reply = .transportAborted :=
        (Status.endsPass_iff.1 hends).resolve_right (System.ofReply_ne_cancelled reply)
      rw [haborted]
      exact .aborted hhand ⟨⟨call, e, h.stage, hpayload, rfl⟩, hmakes.sign⟩ haborted
    | none =>
      obtain ⟨rfl | rfl, hleft⟩ := hplaced.commits rfl hpayload
      · obtain ⟨reply, hmakes⟩ := h.makes_calling rfl (by simp)
        simp only [hpayload] at hmakes
        by_cases hwants : x.before.wantsDataset reply = true
        · rw [if_pos hwants] at hmakes
          exact ⟨_, .goesOn (hmakes.leads_on h rfl) (.lays rfl (List.nil_sublist _) rfl rfl rfl
            (show 3 < 4 by decide) ⟨rfl, rfl⟩ (c.placed fun _ _ => ⟨.inr rfl, hleft⟩))
            rfl rfl⟩
        · rw [if_neg hwants] at hmakes
          exact h.recedes_ends hmakes (show 2 < 4 by decide) (.committed hleft (.inl h.stage))
      · exact h.recedes_ends (h.makes_dataset rfl) (show 2 < 3 by decide)
          (.committed hleft (.inr h.stage))
  | closing status =>
    have hleads := (h.makes_closing rfl).leads_out h rfl
    have hspends : (c.seat ⟨keyValue, full, .closing status⟩).Spends []
        (System.finishedNotice c.observer status) none :=
      .ends rfl (by rw [System.reported_finished]; exact List.nil_sublist _)
    exact ⟨none, ⟨_, _, hleads, hspends⟩, (fun _ h => by cases h), (fun _ h => by cases h),
      fun _ => ⟨status, .inl rfl, h.announces rfl⟩⟩
  | leaving | fallen => exact absurd (hplaced.commits rfl) id

/-! ### Scheduled full backups -/

/-- A full backup is done with its package. -/
theorem recedes_wound {e e' : Seat} {status : Status} (hleads : x.Leads e [] [] (some e'))
    (hwound : e.Wound status e') {p : Package} {lastBackup : Int}
    (hjob : e.job = .full p lastBackup) (hahead : 2 < e.stage.ahead)
    (hhalts : e.Halts x status) : ∃ next, x.Recedes e next := by
  have hplaced : ∀ stage lease, stage.IsFull p →
      ({ e with stage, lease } : Seat).Placed := by
    intro stage lease hfull
    refine ⟨fun hkind => ?_, fun p' lastBackup' hsame => ?_⟩
    · rw [hjob] at hkind
      cases hkind
    · cases hjob.symm.trans hsame
      exact hfull
  cases hwound with
  | closing =>
    exact ⟨_, .decides hleads (.lays rfl (List.nil_sublist _) rfl rfl rfl hahead ⟨rfl, rfl⟩
      (hplaced _ _ (.closing status))) rfl hhalts⟩
  | fallen _ =>
    exact ⟨_, .goesOn hleads (.lays rfl (List.nil_sublist _) rfl rfl rfl
      (Nat.lt_trans (Nat.lt_succ_self 1) hahead) ⟨rfl, rfl⟩ (hplaced _ _ .fallen)) rfl rfl⟩

/-- **Every step of a canceled full backup comes nearer to its end.** -/
theorem recedes_full {e : Seat} (h : x.From e) {p : Package} {lastBackup : Int}
    (hjob : e.job = .full p lastBackup) (hready : x.before.isReady x.task = true)
    (hcanceled : x.task.canceled = true) (hplaced : e.Placed) : ∃ next, x.Recedes e next := by
  have hcourse := hplaced.course p lastBackup hjob
  obtain ⟨number, job, stage, lease, token⟩ := e
  obtain rfl : job = .full p lastBackup := hjob
  have hjob : x.task.job = .full p lastBackup := congrArg Seat.job h.seat
  have hstage : x.task.stage = stage := congrArg Seat.stage h.seat
  have hfits : ∀ stage : Stage, stage.IsFull p →
      Seat.Placed ⟨number, .full p lastBackup, stage, lease, token⟩ :=
    fun stage hfull =>
      ⟨(fun hkind => by cases hkind), fun _ _ hsame => by cases hsame; exact hfull⟩
  have hleads : ∀ {calls next},
      x.after.trail = x.before.trail.advance x.task.seat x.task.transport calls [] next →
        x.Leads ⟨number, .full p lastBackup, stage, lease, token⟩ calls [] next := by
    intro calls next hstep
    rwa [h.seat] at hstep
  -- it ends with a wound, and that is one of this entry
  have hwound : ∀ {status e'}, x.task.seat.Wound status e' →
      Seat.Wound ⟨number, .full p lastBackup, stage, lease, token⟩ status e' := by
    intro status e' hwound
    rwa [h.seat] at hwound
  have hseat := h.seat
  cases hcourse with
  | opening =>
    obtain ⟨ticket, hstep⟩ := System.trail_opening (s := x.before) hjob hstage
    rw [hseat] at hstep
    exact ⟨_, .goesOn hstep (.moves rfl rfl rfl (show 10 < 11 by decide) ⟨rfl, rfl⟩
      (hfits _ (.queued _))) rfl rfl⟩
  | queued ticket =>
    obtain ⟨e', hstep, rfl | hw⟩ := System.trail_queued (s := x.before) hjob hstage
    · rw [hseat] at hstep
      exact ⟨_, .goesOn hstep (.moves rfl rfl rfl (show 9 < 10 by decide) ⟨rfl, rfl⟩
        (hfits _ (.binding _))) rfl rfl⟩
    -- the host refused
    · exact recedes_wound (hleads hstep) (hwound hw) rfl (show 2 < 10 by decide)
        (.unbound rfl (.inl hstage))
  | binding ticket =>
    obtain ⟨e', hstep, ⟨key, rfl⟩ | hw⟩ := System.trail_binding (s := x.before) hjob hstage
    · rw [hseat] at hstep
      exact ⟨_, .goesOn hstep (.moves rfl rfl rfl (show 8 < 9 by decide) ⟨rfl, rfl⟩
        (hfits _ (.prepared _))) rfl rfl⟩
    -- the agent did not come up
    · exact recedes_wound (hleads hstep) (hwound hw) rfl (show 2 < 9 by decide)
        (.unbound rfl (.inr hstage))
  | prepared key =>
    have hstep := System.trail_prepared h.distinct hstage
    rw [hcanceled, hseat] at hstep
    exact ⟨_, .goesOn hstep (.moves rfl rfl rfl (show 7 < 8 by decide) ⟨rfl, rfl⟩
      (hfits _ (.working _))) rfl rfl⟩
  -- the cancel came too late to keep the agent from its work, but not for the wait
  | starting key =>
    have hstep := System.trail_starting (s := x.before) hstage
    rw [hseat] at hstep
    exact ⟨_, .goesOn hstep (.moves rfl rfl rfl (show 7 < 8 by decide) ⟨rfl, rfl⟩
      (hfits _ (.working _))) rfl rfl⟩
  | working key =>
    have hstep := System.trail_working (s := x.before) hjob hstage
    -- an acknowledgment that came before the cancel still counts
    by_cases hdone : (x.before.engine.ops.wait key).1 = some true
    · rw [if_pos hdone, hseat] at hstep
      exact ⟨_, .goesOn hstep (.hands rfl rfl (show 6 < 7 by decide) (hfits _ .offering))
        rfl rfl⟩
    · rw [if_neg hdone, hcanceled, if_pos rfl] at hstep
      obtain ⟨e', hstep, hw, hagenda⟩ := hstep
      have hcancels : x.Cancels := by
        unfold Cancels
        rw [hjob]
        refine ⟨?_, hagenda⟩
        simp only [sign, hstage, if_neg hdone, hcanceled, if_true]
      exact recedes_wound (hleads hstep) (hwound hw) rfl (show 2 < 7 by decide)
        (.canceled hcancels)
  | offering =>
    generalize hreply :
      (x.before.device.answer x.task.transport (.performFullBackup p.name)).1 = reply
    have hstep := System.trail_offering hjob hstage hreply
    -- what was offered is committed, canceled or not
    by_cases haccepted : Status.ofReply reply = .success
    · rw [if_pos haccepted, hseat] at hstep
      exact ⟨_, .goesOn hstep (.lays rfl (List.nil_sublist _) rfl rfl rfl (show 4 < 6 by decide)
        ⟨rfl, rfl⟩ (hfits _ .committing)) rfl rfl⟩
    · rw [if_neg haccepted] at hstep
      obtain ⟨e', hstep, hw⟩ := hstep
      have hanswers : x.Answers p.name reply := by
        refine ⟨⟨_, _, hstage, rfl, rfl⟩, ?_⟩
        simp only [sign, hstage, hreply]
      exact recedes_wound (hleads hstep) (hwound hw) rfl (show 2 < 6 by decide)
        (.refused rfl rfl hanswers haccepted)
  | committing =>
    rcases System.trail_committing (s := x.before) hjob hstage with hstep | ⟨status, e', hstep, hw⟩
    · rw [hseat] at hstep
      exact ⟨_, .goesOn hstep (.lays rfl (List.nil_sublist _) rfl rfl rfl (show 3 < 4 by decide)
        ⟨rfl, rfl⟩ (hfits _ .asking)) rfl rfl⟩
    · exact recedes_wound (hleads hstep) (hwound hw) rfl (show 2 < 4 by decide)
        (.committed rfl (.inl hstage))
  | asking =>
    obtain ⟨e', hstep, hw⟩ := System.trail_asking (s := x.before) hjob hstage
    exact recedes_wound (hleads hstep) (hwound hw) rfl (show 2 < 3 by decide)
      (.committed rfl (.inr hstage))
  | closing status =>
    have hstep := System.trail_closing (s := x.before) hjob hstage
    rw [hseat] at hstep
    refine ⟨_, ⟨⟨_, _, hstep, .moves rfl rfl rfl (show 1 < 2 by decide) ⟨rfl, rfl⟩
      (hfits _ .leaving)⟩, ?_, ?_, fun h => by cases h⟩⟩
    · rintro _ ⟨⟩ _ hclosing
      cases hclosing
    · rintro _ ⟨⟩ -
      exact ⟨status, rfl⟩
  | leaving =>
    have hstep := System.trail_leaving (s := x.before) hjob hstage
    refine ⟨none, ⟨_, _, hleads hstep, .ends rfl (List.nil_sublist _)⟩, (fun _ h => by cases h),
      (fun _ h => by cases h), fun _ => ⟨.success, .inr rfl, ?_⟩⟩
    unfold Announces
    rw [hjob]
    exact trivial
  -- a task that has broken down is never ready
  | fallen =>
    rw [System.isReady, hstage] at hready
    cases hready

/-- **Every step of a canceled pass comes nearer to its end.** -/
theorem recedes {e : Seat} (h : x.From e) (hpass : e.job.isPass = true)
    (hready : x.before.isReady x.task = true) (hcanceled : x.task.canceled = true)
    (hplaced : e.Placed) : ∃ next, x.Recedes e next := by
  cases hjob : e.job with
  | keyValue drained keyValue full observer nonIncremental =>
    obtain ⟨c, p, rfl⟩ := Seat.exists_charter (e := e) (by rw [hjob]; rfl)
    exact h.recedes_keyValue hcanceled hplaced
  | full p lastBackup => exact h.recedes_full hjob hready hcanceled hplaced
  | wipe | clearData | restore =>
    rw [hjob] at hpass
    cases hpass

end From

/-- A drained pass that ends as canceled has all its packages pending again. -/
theorem Cancels.restored {x : Step} (h : x.Cancels) {pass : Drained} {keyValue full : List String}
    {observer : Option String} {nonIncremental : Bool}
    (hjob : x.task.job = .keyValue (some pass) keyValue full observer nonIncremental) :
    ∀ package ∈ pass.packages, package ∈ x.after.engine.pending.packages := by
  intro package hmem
  unfold Cancels at h
  rw [hjob] at h
  obtain ⟨disk, hagenda⟩ := h
  have hpending : x.after.engine.pending =
      (x.before.engine.pending.finish pass false disk).1 := congrArg Agenda.pending hagenda
  rw [hpending]
  simp [Pending.finish, Pending.mem_restage, hmem]

end Step

/-! ## The end of a pass -/

/-- What has decided the status of a pass that is followed from an entry of the books: a step before
that, or one of those that followed. -/
inductive Seat.Decided (e : Seat) (steps : List Step) : Status → Prop where
  | before {status : Status} : e.stage = .closing status ∨ e.stage = .leaving →
    Decided e steps status
  | now {x : Step} {status : Status} : x ∈ steps → e.Halts x status → Decided e steps status

/-- What is still done by a pass that is canceled at an entry of the books. -/
structure Seat.Winds (e : Seat) (steps : List Step) (runs : Prop) : Prop where
  /-- No further package of its lists is taken. -/
  job : ∀ x ∈ steps, x.task.job = e.job
  /-- No agent is told to back up, unless that was next when the pass was canceled. -/
  starts : steps.flatMap Step.started <+ e.starting?.toList
  /-- The transport is offered nothing but the package in hand, once. -/
  offers : steps.flatMap Step.offers <+ e.unoffered?.toList
  /-- The observer is told no result but that of the package in hand. -/
  reports : steps.flatMap Step.reports <+ e.inHand?.toList
  bounded : steps.length ≤ e.stage.ahead
  unfinished : runs → steps.length ≤ e.stage.ahead - 1
  ends : ¬ runs → ∃ status, e.Decided steps status ∧ ∃ x ∈ steps.getLast?, x.Announces status

theorem Stage.ahead_pos (stage : Stage) : 0 < stage.ahead := by
  unfold ahead
  split <;> (try split) <;> omega

/-- How a pass ends does not depend on the entry from which it is followed, as long as the package
in hand is the same. -/
theorem Seat.Halts.back {e e' : Seat} {x : Step} {status : Status} (h : e'.Halts x status)
    (hjob : e'.job = e.job) (hhand : e'.inHand?.toList <+ e.inHand?.toList) : e.Halts x status := by
  have hsame : ∀ {package}, e'.inHand? = some package → e.inHand? = some package :=
    fun hpackage => Option.mem_toList.1 (hhand.subset (Option.mem_toList.2 hpackage))
  have hleft : e'.left = e.left := by rw [left, left, hjob]
  cases h with
  | canceled hcancels => exact .canceled hcancels
  | unready hopening hpending => exact .unready hopening hpending
  | aborted hpackage hanswers hstatus => exact .aborted (hsame hpackage) hanswers hstatus
  | committed hnone hcommits => exact .committed (hleft ▸ hnone) hcommits
  | unbound hkind hbinds => exact .unbound (hjob ▸ hkind) hbinds
  | refused hkind hpackage hanswers hstatus =>
    exact .refused (hjob ▸ hkind) (hsame hpackage) hanswers hstatus

namespace Seat.Winds

variable {e e' : Seat} {x : Step} {calls : List TransportCall} {said : List Device.Notice}

theorem offers_eq {next : Option Seat} (hleads : x.Leads e calls said next) :
    x.offers = calls.filterMap (fun call => call.payload?.map (·.package)) := by
  rw [Step.offers, hleads.calls_eq, List.filterMap_map]
  rfl

/-- Nothing has been done yet. -/
theorem nil (e : Seat) {runs : Prop} (hruns : runs) : e.Winds [] runs where
  job _ hx := absurd hx List.not_mem_nil
  starts := List.nil_sublist _
  offers := List.nil_sublist _
  reports := List.nil_sublist _
  bounded := Nat.zero_le _
  unfinished _ := Nat.zero_le _
  ends hover := absurd hruns hover

/-- A pass ends in its last step. -/
theorem last (hfrom : x.From e) (hrecedes : x.Recedes e none) {runs : Prop} (hover : ¬ runs) :
    e.Winds [x] runs := by
  obtain ⟨calls, said, hleads, hspends⟩ := hrecedes.leads
  constructor
  · intro y hy
    rw [List.mem_singleton.1 hy]
    exact congrArg Seat.job hfrom.seat
  · rw [List.flatMap_singleton, ← hfrom.seat]
    exact x.started_sublist
  · have hoffers := hspends.offers
    rw [List.flatMap_singleton, offers_eq hleads]
    simpa using hoffers
  · have hreports := hspends.reports
    rw [List.flatMap_singleton, Step.reports, hleads.told_eq]
    simpa using hreports
  · exact e.stage.ahead_pos
  · exact fun hruns => absurd hruns hover
  · intro _
    obtain ⟨status, hstage, hannounces⟩ := hrecedes.ends rfl
    exact ⟨status, .before hstage, x, rfl, hannounces⟩

/-- A pass goes on from where its step leaves it. -/
theorem cons {steps : List Step} {runs : Prop} (hfrom : x.From e)
    (hrecedes : x.Recedes e (some e')) (hplaced : e'.Placed) (h : e'.Winds steps runs) :
    e.Winds (x :: steps) runs := by
  obtain ⟨calls, said, hleads, hspends⟩ := hrecedes.leads
  have hjob : e'.job = e.job := (hspends.same e' rfl).2
  have hnearer := hspends.nearer e' rfl
  constructor
  · intro y hy
    rcases List.mem_cons.1 hy with rfl | hy
    · exact congrArg Seat.job hfrom.seat
    · exact (h.job y hy).trans hjob
  · -- whoever is started is so in the first step, since nobody is next after it
    have hnone : steps.flatMap Step.started = [] := by
      have hstarts := h.starts
      rw [show e'.starting? = none from hspends.unstarted] at hstarts
      exact List.sublist_nil.1 hstarts
    rw [List.flatMap_cons, hnone, List.append_nil, ← hfrom.seat]
    exact x.started_sublist
  · rw [List.flatMap_cons, offers_eq hleads]
    exact (h.offers.append_left _).trans hspends.offers
  · rw [List.flatMap_cons, Step.reports, hleads.told_eq]
    exact (h.reports.append_left _).trans hspends.reports
  · exact Nat.lt_of_le_of_lt h.bounded hnearer
  · intro hruns
    have hshort := h.unfinished hruns
    have hpos := e'.stage.ahead_pos
    rw [List.length_cons]
    omega
  · intro hover
    obtain ⟨status, hdecided, y, hy, hannounces⟩ := h.ends hover
    have hsome : steps ≠ [] := by
      rintro rfl
      cases hy
    have hlast : y ∈ (x :: steps).getLast? := by rwa [List.getLast?_cons_of_ne_nil hsome]
    have hhand : e'.inHand?.toList <+ e.inHand?.toList :=
      (List.sublist_append_right _ _).trans hspends.reports
    cases hdecided with
    | before hstage =>
      rcases hstage with hclosing | hleaving
      · exact ⟨status, .now List.mem_cons_self (hrecedes.halts e' rfl status hclosing), y, hlast,
          hannounces⟩
      · -- only a full backup gives up its place, and it has nobody to tell
        obtain ⟨decided, hclosing⟩ := hrecedes.leaves e' rfl hleaving
        refine ⟨decided, .before (.inl hclosing), y, hlast, ?_⟩
        have hyjob : y.task.job = e'.job := h.job y (List.mem_of_mem_getLast? hy)
        unfold Step.Announces
        rw [hyjob]
        cases hkind : e'.job with
        | keyValue =>
          have hcommits := hplaced.commits (by rw [hkind]; rfl)
          rw [hleaving] at hcommits
          exact absurd hcommits id
        | full | wipe | clearData | restore => exact trivial
    | now hz hhalts =>
      exact ⟨status, .now (List.mem_cons_of_mem x hz) (hhalts.back hjob hhand), y, hlast,
        hannounces⟩

end Seat.Winds

/-- **The course of a canceled pass.** It finishes the package in hand, and then it ends. -/
theorem Course.winds {e : Seat} {steps : List Step} {final : Option Seat}
    (h : Course e steps final) (hpass : e.job.isPass = true) (hplaced : e.Placed)
    (hready : ∀ x ∈ steps, x.before.isReady x.task = true)
    (hcanceled : ∀ x ∈ steps, x.task.canceled = true) : e.Winds steps (final.isSome = true) := by
  -- on the steps; the entry is that before the first of them
  induction steps generalizing e with
  | nil =>
    cases h with
    | rest _ => exact .nil e rfl
  | cons x steps ih =>
    have hfrom := h.from_head
    obtain ⟨next, hrecedes⟩ := hfrom.recedes hpass (hready x List.mem_cons_self)
      (hcanceled x List.mem_cons_self) hplaced
    obtain ⟨calls, said, hleads, hspends⟩ := hrecedes.leads
    cases next with
    | none =>
      obtain ⟨rfl, rfl⟩ := h.stop hleads.seats_eq
      exact .last hfrom hrecedes Bool.false_ne_true
    | some e' =>
      obtain ⟨hnumber, hjob⟩ := hspends.same e' rfl
      have hplaced' := hspends.placed e' rfl
      exact .cons hfrom hrecedes hplaced' (ih (h.move hnumber hleads.seats_eq) (hjob ▸ hpass)
        hplaced' (fun y hy => hready y (List.mem_cons_of_mem x hy))
        fun y hy => hcanceled y (List.mem_cons_of_mem x hy))

namespace World

/-- **A cancel that reaches a pass stops it after the package in hand.** Let the operation of a pass
be pending under a token of its own when a caller cancels all backups, or let the pass be canceled
already. Whatever happens then, it goes on as follows.

- No agent is told to back up in its steps, unless the pass had looked before and found that it was
  not canceled. Then the agent of the package in hand is told so, once.
- Its transport is offered at most the package in hand, its observer is told at most the result of
  that package, and the packages that are left are not taken. After at most eleven steps it is over.
- It ends as canceled, unless it found its transport to be wiped first, or the transport gave up
  with the package in hand, or no package was left to start, or its status was decided before. A
  scheduled full backup has one package, which it has in hand from the start; it ends as canceled
  unless its agent did not come up at all or had done its work before. The observer of a key-value
  pass is told the status in the last step.
- A drained pass that ends as canceled has all its packages pending again. -/
theorem canceled_pass_halts {settings : Settings} {disk : Disk} {device : Device} {s : System}
    (h : System.start settings disk device.fresh = .ok s) (events : List Event) {t : Task}
    (hmem : t ∈ ((opened s).run events).system.engine.tasks) (hpass : t.job.isPass = true)
    (hreach : ((opened s).run events).system.roster.Reachable t) (more : List Event) :
    let w := ((opened s).run events).happen (.call .cancelBackups)
    let steps := w.course t.number more
    (∀ x ∈ steps, x.task.canceled = true) ∧
      t.seat.Winds steps ((w.run more).runs t.number) ∧
      ∀ pass keyValue full observer nonIncremental,
        t.job = .keyValue (some pass) keyValue full observer nonIncremental →
        ∀ x ∈ steps, x.Cancels →
          ∀ package ∈ pass.packages, package ∈ x.after.engine.pending.packages := by
  intro w steps
  have hopened := opened_sound h
  have hheeded := opened_heeded h
  -- the cancel finds the pass and leaves its entry in the books
  have hs := run_sound events hopened
  have hstopped := cancelBackups_cancels hs hmem hreach
  have hseat := @happen_kept _ hs t.seat (List.mem_map_of_mem hmem) (.call .cancelBackups) rfl
  have hs' : w.Sound := run_sound [.call .cancelBackups] hs
  have hheeded' : w.system.roster.Heeded :=
    run_heeded [.call .cancelBackups] hs (run_heeded events hopened hheeded)
  have hcanceled := course_canceled hs' hheeded' hstopped more
  obtain ⟨final, hcourse, hfinal⟩ := course_of_seat hs' hseat more
  have hwinds := hcourse.winds hpass (run_placed h events t hmem) (course_ready _ _ _) hcanceled
  rw [propext hfinal] at hwinds
  refine ⟨hcanceled, hwinds, ?_⟩
  intro pass keyValue full observer nonIncremental hjob x hx hcancels
  exact hcancels.restored ((hwinds.job x hx).trans hjob)

/-- A run in which no agent reports by itself. -/
theorem honest_of_silent {w : World} {events : List Event}
    (h : events.all (fun event => match event with
      | .call (.complete _ _) => false
      | _ => true) = true) : w.Honest events := by
  rintro before token result after rfl
  have hmem := List.all_eq_true.1 h (.call (.complete token result))
    (List.mem_append_right before List.mem_cons_self)
  cases hmem

/-- A device whose only package has an agent that never acknowledges its work. -/
def deviceOfSilence : Device := { deviceOfOne with behaviours := [("app", .silent)] }

/-- A pass has backed up the metadata, and the agent of its last package is to be started next. -/
def startingChange : List Event := changeOfOne ++ [.command] ++ List.replicate 7 (.task 0)

/-- The agent works. -/
def workingChange : List Event := changeOfOne ++ [.command] ++ List.replicate 8 (.task 0)

/-- The pass is canceled while the agent works. It gives the agent up, tells its observer and is
over, and the package is pending again. -/
theorem canceled_pass_halts_silent :
    ∃ s, System.start {} {} deviceOfSilence.fresh = .ok s ∧
      let w := ((opened s).run workingChange).happen (.call .cancelBackups)
      ∃ t ∈ ((opened s).run workingChange).system.engine.tasks,
        t.seat.inHand? = some "app" ∧
          t.seat.Winds (w.course t.number [.task 0, .task 0]) False ∧
            "app" ∈ (w.run [.task 0, .task 0]).system.engine.pending.packages := by
  obtain ⟨s, hstart, hfresh, hnumbers, hpasses, hover, hpending⟩ :=
    @start_decide {} {} deviceOfSilence.fresh (fun s =>
      let w := (opened s).run workingChange
      let w' := (w.happen (.call .cancelBackups)).run [.task 0, .task 0]
      ((opened s).issues workingChange).Nodup ∧ w.system.engine.tasks.map (·.number) = [0] ∧
        (∀ t ∈ w.system.engine.tasks, t.job.isPass = true ∧ t.seat.inHand? = some "app") ∧
        w'.system.engine.tasks.isEmpty = true ∧
        "app" ∈ w'.system.engine.pending.packages) inferInstance (by decide +kernel)
  obtain ⟨t, hmem, hnumber⟩ := List.mem_map.1 (hnumbers ▸ List.mem_singleton_self 0)
  obtain ⟨hpass, hhand⟩ := hpasses t hmem
  have hreach := honest_reachable hstart hfresh (honest_of_silent (by decide)) hmem hpass
  obtain ⟨-, hwinds, -⟩ :=
    canceled_pass_halts hstart workingChange hmem hpass hreach [.task 0, .task 0]
  refine ⟨s, hstart, t, hmem, hhand, ?_, hpending⟩
  have hgone : ¬ ((((opened s).run workingChange).happen (.call .cancelBackups)).run
      [.task 0, .task 0]).runs t.number := by
    rw [runs, List.isEmpty_iff.1 hover]
    simp
  rwa [eq_false hgone] at hwinds

/-- Somebody reports under the token of every operation of a pass that is pending. -/
def acknowledged (w : World) : World :=
  w.run (w.system.engine.ops.pendingTasks.map fun token => .call (.complete token 0))

/-- Two passes that a cancel does not stop. The operation of the first was acknowledged before, so
that the cancel does not find it: the pass has its agent back up, and it commits. The second runs
among agents that have reported nothing and tokens that were issued once each; it had found that it
was not canceled when the cancel came, and it has its agent back up all the same. -/
theorem cancel_passed_over :
    (∃ s, System.start {} {} deviceOfOne.fresh = .ok s ∧
      let w := ((opened s).run (changeOfOne ++ [.command])).acknowledged
      let w' := (w.happen (.call .cancelBackups)).run (List.replicate 13 (.task 0))
      w.runs 0 ∧ ¬ w'.runs 0 ∧
        w.system.roster.worked = [] ∧ w'.system.roster.worked = [.agent "app" (.backup false)] ∧
        "app" ∉ w'.system.engine.pending.packages) ∧
      ∃ s, System.start {} {} deviceOfOne.fresh = .ok s ∧
        ((opened s).issues startingChange).Nodup ∧ (opened s).Honest startingChange ∧
        let w := ((opened s).run startingChange).happen (.call .cancelBackups)
        w.system.roster.worked = [] ∧
          (w.happen (.task 0)).system.roster.worked = [.agent "app" (.backup false)] := by
  constructor
  · obtain ⟨s, hstart, hcheck⟩ := @start_check {} {} deviceOfOne.fresh (fun s =>
      let w := ((opened s).run (changeOfOne ++ [.command])).acknowledged
      let w' := (w.happen (.call .cancelBackups)).run (List.replicate 13 (.task 0))
      decide (w.runs 0 ∧ ¬ w'.runs 0 ∧
        w.system.roster.worked = [] ∧ w'.system.roster.worked = [.agent "app" (.backup false)] ∧
        "app" ∉ w'.system.engine.pending.packages)) (by decide +kernel)
    exact ⟨s, hstart, of_decide_eq_true hcheck⟩
  · obtain ⟨s, hstart, hcheck⟩ := @start_check {} {} deviceOfOne.fresh (fun s =>
      let w := ((opened s).run startingChange).happen (.call .cancelBackups)
      decide (((opened s).issues startingChange).Nodup ∧ w.system.roster.worked = [] ∧
        (w.happen (.task 0)).system.roster.worked = [.agent "app" (.backup false)]))
      (by decide +kernel)
    obtain ⟨hfresh, hworked⟩ := of_decide_eq_true hcheck
    exact ⟨s, hstart, hfresh, honest_of_silent (by decide), hworked⟩

end World

end Holdfast
