import Holdfast.Proofs.Engine.Errands
import Holdfast.Proofs.Engine.KeyValue

/-!
# The trail of a pass

A pass of either sort leaves a trail: the calls that it makes, what observers are told, and where it
stands.

- `Trail.advance`: what a step of a task adds to the trail;
- `Step.Leads`: a step adds this to the trail;
- `Step.Makes.leads_on`, `Step.Makes.leads_to`, `Step.Makes.leads_out`: the strides of a key-value
  pass;
- `System.trail_opening` to `System.trail_leaving`: **what a scheduled full backup does at each
  stage**, for every answer of the host, the agent and the transport.

A full backup that is done with its package stands near its end, or it has broken down
(`Seat.Wound`).
-/

namespace Holdfast

/-- The extract of the state by which a pass is followed. -/
structure Trail where
  /-- Calls to transports, oldest first. -/
  calls : List (String × TransportCall)
  /-- What observers were told, oldest first. -/
  told : List Device.Notice
  seats : List Seat

/-- A task at an entry of the books makes calls to its transport and has its observer told
something. Then it has another entry, or it is over. -/
def Trail.advance (l : Trail) (e : Seat) (transport : String) (calls : List TransportCall)
    (said : List Device.Notice) (next : Option Seat) : Trail where
  calls := l.calls ++ calls.map (transport, ·)
  told := l.told ++ said
  seats :=
    match next with
    | some e' => l.seats.map fun other => if other.number = e.number then e' else other
    | none => l.seats.filter (fun other => other.number ≠ e.number)

/-- The parts of the state that the trail is read from. -/
def Trail.parts : Footprint := [.notices .transports, .notices .observers, .tasks]

/-- A full backup is done with its package: it has still to give up what it holds, or it has broken
down. -/
inductive Seat.Wound (e : Seat) (status : Status) : Seat → Prop where
  | closing : Wound e status { e with stage := .closing status }
  | fallen : status ≠ .success → Wound e status { e with stage := .fallen, lease := none }

namespace System

/-- The trail of the passes of the engine. -/
def trail (s : System) : Trail := ⟨s.chronicle.calls, s.chronicle.told, s.chronicle.seats⟩

/-- The trail is read from the chronicle. -/
theorem trail_congr {s s' : System} (h : s'.chronicle = s.chronicle) : s'.trail = s.trail := by
  rw [trail, h, trail]

/-- What keeps away from its parts leaves the trail as it is. -/
theorem Within.trail {s s' : System} {parts : Footprint} (h : s.Within parts s')
    (hparts : ∀ p ∈ Trail.parts, p ∉ parts) : s'.trail = s.trail := by
  have hcalls := h.log_calls (hparts _ (by decide))
  have htold := h.log_told (hparts _ (by decide))
  have htasks : s'.engine.tasks = s.engine.tasks := h.same .tasks (hparts _ (by decide))
  simp only [System.trail, System.chronicle, hcalls, htold, htasks]

/-! ## Going on and ending -/

/-- A task that is changed has another entry in the books. -/
theorem setTask_trail (s : System) (t : Task) (transport : String) :
    (s.setTask t).trail = s.trail.advance t.seat transport [] [] (some t.seat) := by
  have hseats := congrArg Ledger.seats (s.setTask_ledger t)
  have hrest : (s.setTask t).trail = { s.trail with seats := (s.setTask t).ledger.seats } := rfl
  rw [hrest, hseats]
  simp only [Trail.advance, List.map_nil, List.append_nil]
  rfl

/-- A task that moves on to another stage makes no call and tells nothing. -/
theorem moveTo_trail (s : System) (t : Task) (stage : Stage) (transport : String) :
    (s.moveTo t stage).trail =
      s.trail.advance t.seat transport [] [] (some { t.seat with stage }) :=
  s.setTask_trail { t with stage } transport

/-- A call goes to the transport of the task, which then waits for the answer. -/
theorem call_trail (s : System) (t : Task) (call : TransportCall) :
    (s.call t call).trail =
      s.trail.advance t.seat t.transport [call] []
        (some { t.seat with stage := .calling call }) := by
  have hasked := s.note_transport_chronicle t.transport call
  rw [System.call, moveTo_trail _ _ _ t.transport, trail, hasked]
  simp only [Trail.advance, List.map_nil, List.append_nil]
  rfl

/-- A task that is over leaves the books. -/
theorem dropTask_trail (s : System) (t : Task) (transport : String) :
    (s.dropTask t.number).trail = s.trail.advance t.seat transport [] [] none := by
  rw [trail, dropTask_chronicle]
  simp only [Trail.advance, List.map_nil, List.append_nil]
  rfl

/-- A scheduled full backup is done with its package without a word. -/
theorem endFull_trail (s : System) (t : Task) (package : String) (lastBackup : Int)
    (status : Status) (transport : String) : ∃ e', t.seat.Wound status e' ∧
      (s.endFull t package lastBackup status).trail =
        s.trail.advance t.seat transport [] [] (some e') := by
  refine endFull_elim ?succeeds ?retries ?falls
  case succeeds =>
    intro _
    refine ⟨_, .closing, ?_⟩
    rw [moveTo_trail _ t _ transport,
      ((s.heedInit_within t).andThen (enqueueFull_within _ _ _)).trail (by decide)]
  case retries =>
    intro _ dueAt
    refine ⟨_, .closing, ?_⟩
    rw [moveTo_trail _ t _ transport,
      ((s.drawnRetry_within t).andThen (deferFull_within _ _ _ _)).trail (by decide)]
  case falls =>
    intro hfailed
    refine ⟨_, .fallen hfailed, ?_⟩
    rw [fall, setTask_trail _ _ transport,
      ((s.drawnRetry_within t).andThen (dispose_within _ _)).trail (by decide)]
    rfl

/-- The agent of a full backup did not do its work. -/
theorem visitFailed_trail (s : System) {t : Task} {p : Package} {lastBackup : Int}
    (hjob : t.job = .full p lastBackup) (v : Visit) (status : Status) (transport : String) :
    ∃ e', t.seat.Wound status e' ∧
      (s.visitFailed t v status).trail = s.trail.advance t.seat transport [] [] (some e') := by
  unfold visitFailed
  rw [hjob]
  exact s.endFull_trail t p.name lastBackup status transport

/-! ## Scheduled full backups, stage by stage -/

variable {s : System} {t : Task} {p : Package} {lastBackup : Int}

/-- At the opening a full backup joins the line of binds. -/
theorem trail_opening (hjob : t.job = .full p lastBackup) (hstage : t.stage = .opening) :
    ∃ ticket, (s.stepTask t).trail = s.trail.advance t.seat t.transport [] []
      (some { t.seat with stage := .queued ⟨p, .full⟩ ticket }) := by
  refine ⟨s.engine.binder.join.1, ?_⟩
  unfold stepTask openTask
  rw [hstage]
  simp only [hjob]
  exact moveTo_trail _ t _ t.transport

/-- When its turn comes, the host is asked to bind the agent, and may refuse. -/
theorem trail_queued (hjob : t.job = .full p lastBackup) {v : Visit} {ticket : Nat}
    (hstage : t.stage = .queued v ticket) :
    ∃ e', (s.stepTask t).trail = s.trail.advance t.seat t.transport [] [] (some e') ∧
      (e' = { t.seat with stage := .binding v ticket } ∨ t.seat.Wound .agentFailure e') := by
  have hnote : (s.note (.agent v.package.name (.bind v.mode))).trail = s.trail :=
    (s.note_within .agents rfl).trail (by decide)
  unfold stepTask askHost
  simp only [hstage]
  generalize hostReacts _ _ _ = reaction
  obtain ⟨accepted, binder⟩ := reaction
  cases accepted with
  | true =>
    refine ⟨_, ?_, .inl rfl⟩
    simp only [if_true]
    rw [moveTo_trail _ _ _ t.transport]
    congr 1
    -- with a timer or without
    split
    · exact hnote
    · exact hnote
  | false =>
    simp only [Bool.false_eq_true, if_false]
    obtain ⟨e', hwound, htrail⟩ := visitFailed_trail
      ((s.note (.agent v.package.name (.bind v.mode))).onEngine fun e =>
        { e with binder := binder.leave }) hjob v .agentFailure t.transport
    refine ⟨e', ?_, .inr hwound⟩
    rw [htrail]
    congr 1

/-- The bind is over: the work is registered if the agent came up. -/
theorem trail_binding (hjob : t.job = .full p lastBackup) {v : Visit} {ticket : Nat}
    (hstage : t.stage = .binding v ticket) :
    ∃ e', (s.stepTask t).trail = s.trail.advance t.seat t.transport [] [] (some e') ∧
      ((∃ token, e' = { t.seat with stage := .prepared v token }) ∨
        t.seat.Wound .agentFailure e') := by
  unfold stepTask
  simp only [hstage]
  refine meetAgent_elim ?prepares ?fails
  case prepares =>
    intro _
    let left := s.onEngine fun e => { e with binder := e.binder.leave }
    have hfresh : left.freshToken.2.trail = s.trail := left.freshToken_within.trail (by decide)
    refine ⟨_, ?_, .inl ⟨left.freshToken.1, rfl⟩⟩
    unfold prepare
    simp only
    rw [moveTo_trail _ _ _ t.transport, ← hfresh]
    rfl
  case fails =>
    intro left _ hleft
    have hsame : left.trail = s.trail := by
      rcases hleft with rfl | rfl
      · rfl
      · exact (note_within _ .agents rfl).trail (by decide)
    obtain ⟨e', hwound, htrail⟩ := left.visitFailed_trail hjob v .agentFailure t.transport
    exact ⟨e', hsame ▸ htrail, .inr hwound⟩

/-- A full backup that was canceled in the meantime waits for work that it does not hand out. -/
theorem trail_prepared (hs : s.Distinct) {v : Visit} {token : OpToken}
    (hstage : t.stage = .prepared v token) :
    (s.stepTask t).trail = s.trail.advance t.seat t.transport [] []
      (some { t.seat with
        stage := if t.canceled then .working v token else .starting v token }) := by
  unfold stepTask heedCancel
  simp only [hstage]
  split
  · rw [moveTo_trail _ _ _ t.transport, trail_congr (cancelOperation_chronicle hs token)]
  · exact moveTo_trail _ _ _ _

/-- The agent is told to begin. -/
theorem trail_starting {v : Visit} {token : OpToken} (hstage : t.stage = .starting v token) :
    (s.stepTask t).trail = s.trail.advance t.seat t.transport [] []
      (some { t.seat with stage := .working v token }) := by
  have hgiven := (s.handWork_within t v token).trail (by decide)
  unfold stepTask giveWork
  simp only [hstage]
  rw [moveTo_trail _ _ _ t.transport, ← hgiven]
  rfl

/-- The work of the agent is over: its data are offered if it acknowledged the work. -/
theorem trail_working (hjob : t.job = .full p lastBackup) {token : OpToken}
    (hstage : t.stage = .working ⟨p, .full⟩ token) :
    if (s.engine.ops.wait token).1 = some true then
      (s.stepTask t).trail = s.trail.advance t.seat t.transport [.performFullBackup p.name] []
        (some { t.seat with stage := .calling (.performFullBackup p.name) })
    else
      ∃ e', (s.stepTask t).trail = s.trail.advance t.seat t.transport [] [] (some e') ∧
        t.seat.Wound (if t.canceled then .cancelled else .agentFailure) e' ∧
        (s.stepTask t).agenda = s.agenda.endFull t.number p lastBackup t.token
          (if t.canceled then .cancelled else .agentFailure) := by
  have hdown : (s.collected ⟨p, .full⟩ token).trail = s.trail :=
    (s.collected_within _ token).trail (by decide)
  have hagenda : (s.collected ⟨p, .full⟩ token).agenda = s.agenda := tearDown_agenda _ _
  have hstep : s.stepTask t = s.collectWork t ⟨p, .full⟩ token := by
    unfold stepTask
    rw [hstage]
  have hcollect : s.collectWork t ⟨p, .full⟩ token =
      if (s.engine.ops.wait token).1 = some true then
        (s.collected ⟨p, .full⟩ token).call { t with agentToken := none }
          (.performFullBackup p.name)
      else (s.collected ⟨p, .full⟩ token).endFull { t with agentToken := none } p.name lastBackup
        (if t.canceled then .cancelled else .agentFailure) := by
    unfold collectWork visitFailed collected
    simp only [hjob]
  rw [hstep, hcollect]
  generalize s.collected ⟨p, .full⟩ token = s' at hdown hagenda ⊢
  by_cases hdone : (s.engine.ops.wait token).1 = some true
  · rw [if_pos hdone, if_pos hdone, ← hdown]
    exact s'.call_trail _ _
  · rw [if_neg hdone, if_neg hdone, ← hdown, ← hagenda]
    obtain ⟨e', hwound, htrail⟩ := s'.endFull_trail { t with agentToken := none } p.name lastBackup
      (if t.canceled then .cancelled else .agentFailure) t.transport
    exact ⟨e', htrail, hwound, @endFull_agenda { t with agentToken := none } p lastBackup s' hjob _⟩

/-- Heeding an answer does not send a task to another transport. -/
theorem heed_transport (t : Task) (reply : Device.Reply) :
    (t.heed reply).transport = t.transport := by
  unfold Task.heed
  split <;> rfl

/-- The transport answers a scheduled full backup. -/
theorem stepTask_full (hjob : t.job = .full p lastBackup) {call : TransportCall}
    (hstage : t.stage = .calling call) (hcall : call ≠ .currentRestoreSet) :
    s.stepTask t = (s.answered t call).replyFull t p.name lastBackup call
      (s.device.answer t.transport call).1 := by
  have hstep : s.stepTask t = s.takeReply t call := by
    unfold stepTask
    rw [hstage]
    cases call <;> first | rfl | exact absurd rfl hcall
  rw [hstep]
  unfold takeReply answered
  simp only [hjob]

/-- The answer to the offer: it is committed if it was accepted. -/
theorem trail_offering (hjob : t.job = .full p lastBackup)
    (hstage : t.stage = .calling (.performFullBackup p.name)) {reply : Device.Reply}
    (hreply : (s.device.answer t.transport (.performFullBackup p.name)).1 = reply) :
    if Status.ofReply reply = .success then
      (s.stepTask t).trail = s.trail.advance t.seat t.transport [.finishBackup] []
        (some { t.seat with stage := .calling .finishBackup })
    else
      ∃ e', (s.stepTask t).trail = s.trail.advance t.seat t.transport [] [] (some e') ∧
        t.seat.Wound (Status.ofReply reply) e' := by
  rw [stepTask_full hjob hstage (by simp), hreply]
  have hanswered : (s.answered t (.performFullBackup p.name)).trail = s.trail := rfl
  generalize s.answered t (.performFullBackup p.name) = s' at hanswered ⊢
  unfold replyFull
  simp only
  rw [← heed_seat t reply, ← heed_transport t reply]
  split
  · rw [call_trail, (s'.recordProcessed_within _).trail (by decide), hanswered]
  · obtain ⟨e', hwound, htrail⟩ :=
      s'.endFull_trail (t.heed reply) p.name lastBackup (Status.ofReply reply)
        (t.heed reply).transport
    exact ⟨e', by rw [htrail, hanswered], hwound⟩

/-- The answer to the commit: a backup that was committed asks which dataset it is in. -/
theorem trail_committing (hjob : t.job = .full p lastBackup)
    (hstage : t.stage = .calling .finishBackup) :
    (s.stepTask t).trail = s.trail.advance t.seat t.transport [.currentRestoreSet] []
        (some { t.seat with stage := .calling .currentRestoreSet }) ∨
      ∃ status e', (s.stepTask t).trail = s.trail.advance t.seat t.transport [] [] (some e') ∧
        t.seat.Wound status e' := by
  rw [stepTask_full hjob hstage (by simp)]
  generalize (s.device.answer t.transport .finishBackup).1 = reply
  have hanswered : (s.answered t .finishBackup).trail = s.trail := rfl
  generalize s.answered t .finishBackup = s' at hanswered ⊢
  unfold replyFull
  simp only
  rw [← heed_seat t reply, ← heed_transport t reply]
  split
  · exact .inl (by rw [call_trail, hanswered])
  · obtain ⟨e', hwound, htrail⟩ := s'.endFull_trail (t.heed reply) p.name lastBackup
      (commitStatus reply) (t.heed reply).transport
    exact .inr ⟨_, e', by rw [htrail, hanswered], hwound⟩

/-- The answer names the dataset, and the full backup has succeeded whatever it is. -/
theorem trail_asking (hjob : t.job = .full p lastBackup)
    (hstage : t.stage = .calling .currentRestoreSet) :
    ∃ e', (s.stepTask t).trail = s.trail.advance t.seat t.transport [] [] (some e') ∧
      t.seat.Wound .success e' := by
  have hstored : (s.storeDataset t.transport).trail = s.trail :=
    (s.storeDataset_within _).trail (by decide)
  obtain ⟨e', hwound, htrail⟩ := (s.storeDataset t.transport).endFull_trail t p.name lastBackup
    .success t.transport
  refine ⟨e', ?_, hwound⟩
  unfold stepTask takeDataset
  simp only [hstage, hjob]
  rw [htrail, hstored]

/-- The package is back in the schedule: the slot is given up. -/
theorem trail_closing (hjob : t.job = .full p lastBackup) {status : Status}
    (hstage : t.stage = .closing status) :
    (s.stepTask t).trail = s.trail.advance t.seat t.transport [] []
      (some { t.seat with stage := .leaving }) := by
  unfold stepTask closeTask vacate
  simp only [hstage, hjob]
  rw [moveTo_trail _ _ _ t.transport, (s.clearRunningFull_within _).trail (by decide)]

/-- The rest is given back, and the full backup is over. -/
theorem trail_leaving (hjob : t.job = .full p lastBackup) (hstage : t.stage = .leaving) :
    (s.stepTask t).trail = s.trail.advance t.seat t.transport [] [] none := by
  unfold stepTask leave
  simp only [hstage, hjob]
  rw [dropTask_trail _ t t.transport, ((((s.dropToken_within t).andThen
    (releaseWake_within _)).andThen (scheduleNextFullJob_within _ 0)).andThen
      (dispose_within _ _)).trail (by decide)]

end System

/-! ## Steps -/

/-- What the observer of a pass is told of a package. -/
def Stride.report (d : Stride) (c : Charter) : List Device.Notice :=
  d.result.toList.flatMap fun result => System.resultNotice c.observer result.1 result.2

namespace Step

/-- A step of a task at an entry of the books adds this to the trail. -/
def Leads (x : Step) (e : Seat) (calls : List TransportCall) (said : List Device.Notice)
    (next : Option Seat) : Prop :=
  x.after.trail = x.before.trail.advance e x.task.transport calls said next

namespace Leads

variable {x : Step} {e : Seat} {calls : List TransportCall} {said : List Device.Notice}
  {next : Option Seat}

/-- The calls that a step makes go to the transport of its task. -/
theorem calls_eq (h : x.Leads e calls said next) :
    x.calls = calls.map (x.task.transport, ·) := by
  have hcalls : x.after.chronicle.calls = x.before.chronicle.calls ++
      calls.map (x.task.transport, ·) := congrArg Trail.calls h
  rw [Step.calls, hcalls, List.drop_left]

/-- What a step tells is what it adds to what was told. -/
theorem told_eq (h : x.Leads e calls said next) : x.told = said := by
  have htold : x.after.chronicle.told = x.before.chronicle.told ++ said := congrArg Trail.told h
  rw [Step.told, htold, List.drop_left]

/-- The books after a step. -/
theorem seats_eq (h : x.Leads e calls said next) :
    x.after.ledger.seats = (x.before.trail.advance e x.task.transport calls said next).seats :=
  congrArg Trail.seats h

end Leads

namespace Makes

variable {x : Step} {c : Charter} {p : Standing} {d : Stride} {sign : Sign}

/-- A pass goes on. -/
theorem leads_on (h : x.Makes c d sign) (hfrom : x.From (c.seat p)) {next : Standing}
    (houtlook : d.outlook = .goesOn next) :
    x.Leads (c.seat p) d.calls (d.report c) (some (c.seat next)) := by
  have hchronicle := h.chronicle
  rw [Chronicle.record, houtlook] at hchronicle
  unfold Leads System.trail
  rw [hchronicle, hfrom.transport]
  cases d.taken <;> rfl

/-- A pass announces its end. -/
theorem leads_to (h : x.Makes c d sign) (hfrom : x.From (c.seat p)) {next : Standing}
    {status : Status} (houtlook : d.outlook = .ends next status) :
    x.Leads (c.seat p) d.calls (d.report c)
      (some (c.seat { next with stage := .closing status })) := by
  have hchronicle := h.chronicle
  rw [Chronicle.record, houtlook] at hchronicle
  unfold Leads System.trail
  rw [hchronicle, hfrom.transport]
  cases d.taken <;> rfl

/-- A pass is over. -/
theorem leads_out (h : x.Makes c d sign) (hfrom : x.From (c.seat p)) {status : Status}
    (houtlook : d.outlook = .departs status) :
    x.Leads (c.seat p) d.calls (d.report c ++ System.finishedNotice c.observer status)
      none := by
  have hchronicle := h.chronicle
  rw [Chronicle.record, houtlook] at hchronicle
  unfold Leads System.trail
  rw [hchronicle, hfrom.transport]
  simp only [Trail.advance, ← List.append_assoc]
  cases d.taken <;> rfl

end Makes

end Step

end Holdfast
