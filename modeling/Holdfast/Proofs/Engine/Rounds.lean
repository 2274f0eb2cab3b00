import Holdfast.Proofs.Engine.Course

/-!
# The rounds of a key-value pass

The course of a pass falls into rounds, one for each package it takes. A round begins with the
step that chooses the package and ends with the step that tells the observer.

- `Step.sign`: what agents and transport answered in a step;
- `Fate`: the answers of the surroundings in the round of a package, and what follows from them:
  whether the transport was offered its data (`Fate.isOffered`), and its result (`Fate.status`);
- `Round`: what the steps of a round did, told by the fate of the package;
- `Handles`: the rounds of a pass and the way it comes to announce its end;
- `Step.Departs`: its last step, in which it tells its observer;
- `Course.handles`: **the course of every pass, from its second step to its end, is of this
  kind**, whatever else happens and whoever cancels it.
-/

namespace Holdfast

/-! ## Answers -/

/-- What an agent or a transport answered to a pass. -/
inductive Sign where
  /-- Nothing that matters. -/
  | quiet
  /-- The agent has connected. -/
  | bound
  /-- The agent has acknowledged its work in time. -/
  | acknowledged
  /-- The agent has not acknowledged its work, and the pass was canceled. -/
  | abandoned
  /-- The transport has answered. -/
  | replied (reply : Device.Reply)
  deriving DecidableEq, Repr

/-- The reply of a transport. -/
def Sign.reply? : Sign → Option Device.Reply
  | .replied reply => some reply
  | _ => none

namespace Step

/-- What was answered in a step. -/
def sign (x : Step) : Sign :=
  match x.task.stage with
  | .binding _ _ => if x.before.engine.binder.arrival = some (.connected ()) then .bound else .quiet
  | .working _ token =>
    if (x.before.engine.ops.wait token).1 = some true then .acknowledged
    else if x.task.canceled then .abandoned
    else .quiet
  -- which dataset a pass wrote is nothing that its course depends on
  | .calling .currentRestoreSet => .quiet
  | .calling call => .replied (x.before.device.answer x.task.transport call).1
  | .opening | .choosing | .queued _ _ | .prepared _ _ | .starting _ _ | .closing _ | .leaving
  | .fallen => .quiet

/-- The package that is chosen in a step. -/
def choice? (x : Step) : Option Entry :=
  match x.task.stage, x.task.job with
  | .choosing, .keyValue _ keyValue full _ _ => (Standing.entries ⟨keyValue, full, .choosing⟩).head?
  | _, _ => none

/-- The package whose data the transport took in a step. -/
def backedUp (x : Step) : Option Entry :=
  match x.task.stage with
  | .calling call =>
    if (x.before.device.answer x.task.transport call).1 = .ok .ok then call.payload? else none
  | _ => none

end Step

/-- What became of a package in its round. -/
structure Fate where
  entry : Entry
  /-- What the catalog listed under its name when it was chosen. -/
  listed : Option Package
  /-- Its agent has connected. -/
  bound : Bool
  /-- Its agent has acknowledged its work in time. -/
  acknowledged : Bool
  /-- Its agent was given up because the pass was canceled. -/
  abandoned : Bool
  /-- What the transport answered. -/
  reply : Option Device.Reply

namespace Fate

/-- The fate of a package, read off the steps of its round. -/
def of (e : Entry) (round : List Step) : Fate where
  entry := e
  listed := round.head?.bind fun x => x.before.device.package? e.package
  bound := round.any (·.sign = .bound)
  acknowledged := round.any (·.sign = .acknowledged)
  abandoned := round.any (·.sign = .abandoned)
  reply := round.findSome? (·.sign.reply?)

/-- Whether the transport is offered the data of a package: the metadata always, other packages
if the catalog lists them as to be backed up in this way and their agent has connected and
acknowledged its work. -/
def isOffered (f : Fate) : Bool :=
  f.entry.isMetadata || (f.listed.any f.entry.admits && f.bound && f.acknowledged)

/-- The result of a package. -/
def status (f : Fate) : Status :=
  if f.isOffered then f.reply.elim .transportAborted Status.ofReply
  else match f.listed with
    | none => .packageNotFound
    | some q =>
      if !f.entry.admits q then .packageNotEligible
      else if f.abandoned then .cancelled
      else .agentFailure

/-- The calls that are made for a package. -/
def calls (f : Fate) (nonIncremental : Bool) : List TransportCall :=
  if f.isOffered then [f.entry.call nonIncremental] else []

end Fate

/-! ## Strides of a course -/

/-- A step of a pass does what a stride says, after an answer of the surroundings. -/
structure Step.Makes (x : Step) (c : Charter) (d : Stride) (sign : Sign) : Prop where
  chronicle : x.after.chronicle = x.before.chronicle.record c x.before.now d
  taken : x.backedUp = d.taken
  sign : x.sign = sign

namespace Step.Makes

variable {x : Step} {c : Charter} {d : Stride} {sign : Sign}

theorem calls (h : x.Makes c d sign) : x.calls = d.calls.map (c.transport, ·) := by
  have hcalls : x.after.chronicle.calls =
      x.before.chronicle.calls ++ d.calls.map (c.transport, ·) := by
    rw [h.chronicle, Chronicle.record]
    cases d.outlook <;> cases d.taken <;> rfl
  rw [Step.calls, hcalls, List.drop_left]

/-- What the observer is told in a step: the result of a package, then the end of the pass. -/
theorem told (h : x.Makes c d sign) :
    x.told = (d.result.toList.flatMap fun result =>
        System.resultNotice c.observer result.1 result.2) ++
      match d.outlook with
      | .goesOn _ | .ends _ _ => []
      | .departs status => System.finishedNotice c.observer status := by
  have htold : x.after.chronicle.told =
      x.before.chronicle.told ++ ((d.result.toList.flatMap fun result =>
        System.resultNotice c.observer result.1 result.2) ++
        match d.outlook with
        | .goesOn _ | .ends _ _ => []
        | .departs status => System.finishedNotice c.observer status) := by
    rw [h.chronicle, Chronicle.record]
    cases d.outlook <;> cases d.taken <;>
      simp [Chronicle.proceed, Chronicle.stand, Chronicle.tell, Chronicle.ask, Chronicle.take]
  rw [Step.told, htold, List.drop_left]

/-- What a step leaves of the tasks. -/
theorem seats (h : x.Makes c d sign) :
    x.after.ledger.seats = match d.outlook with
      | .goesOn next => x.before.ledger.seats.map fun other =>
          if other.number = c.number then c.seat next else other
      | .ends next status => x.before.ledger.seats.map fun other =>
          if other.number = c.number then c.seat { next with stage := .closing status } else other
      | .departs _ => x.before.ledger.seats.filter (fun e => e.number ≠ c.number) := by
  show x.after.chronicle.seats = _
  rw [h.chronicle, Chronicle.record]
  cases d.outlook <;> cases d.taken <;> rfl

end Step.Makes

/-- What a step leaves pending: what was pending before, or what is pending after a pass that comes
to its end with a status. -/
def Step.Closes (x : Step) (c : Charter) : Option Status → Prop
  | none => x.after.engine.pending.packages = x.before.engine.pending.packages
  | some status =>
    x.after.engine.pending.packages =
      Pending.closed x.before.engine.pending.packages c.drained status

/-- The status with which a pass announces its end. -/
def Outlook.status? : Outlook → Option Status
  | .goesOn _ | .departs _ => none
  | .ends _ status => some status

theorem Outlook.status?_after (status : Status) (next : Standing) :
    (Outlook.after status next).status? = if status.endsPass then some status else none := by
  unfold Outlook.after
  split <;> rfl

theorem Step.Makes.closes {x : Step} {c : Charter} {d : Stride} {sign : Sign}
    (h : x.Makes c d sign) : x.Closes c d.outlook.status? := by
  have hpending : x.after.chronicle.pending = match d.outlook with
      | .goesOn _ | .departs _ => x.before.chronicle.pending
      | .ends _ status => Pending.closed x.before.chronicle.pending c.drained status := by
    rw [h.chronicle, Chronicle.record]
    cases d.outlook <;> cases d.taken <;> rfl
  cases hd : d.outlook with
  | goesOn _ | ends _ _ | departs _ =>
    rw [hd] at hpending
    exact hpending

/-- The last step of a pass: it tells its observer the status with which it ends, and nothing
else. -/
structure Step.Departs (x : Step) (c : Charter) (status : Status) : Prop where
  stage : x.task.stage = .closing status
  calls : x.calls = []
  told : x.told = System.finishedNotice c.observer status
  backedUp : x.backedUp = none
  closes : x.Closes c none

theorem Step.Makes.departs {x : Step} {c : Charter} {status : Status} {sign : Sign}
    (h : x.Makes c { outlook := .departs status } sign) (hstage : x.task.stage = .closing status) :
    x.Departs c status :=
  ⟨hstage, h.calls, h.told, h.taken, h.closes⟩

/-- Of some steps in a row only the last can announce the end of the pass. -/
structure Settles (c : Charter) (steps : List Step) (ending : Option Status) : Prop where
  kept : ∀ x ∈ steps.dropLast, x.Closes c none
  last : ∀ x ∈ steps.getLast?, x.Closes c ending

namespace Settles

variable {c : Charter} {ending : Option Status}

theorem single {x : Step} (h : x.Closes c ending) : Settles c [x] ending :=
  ⟨fun _ hmem => absurd hmem List.not_mem_nil, fun _ hmem => Option.some.inj hmem ▸ h⟩

/-- A step ahead that does not announce the end. -/
theorem cons {x : Step} {steps : List Step} (hx : x.Closes c none) (hsteps : steps ≠ [])
    (h : Settles c steps ending) : Settles c (x :: steps) ending := by
  constructor
  · intro y hy
    rw [List.dropLast_cons_of_ne_nil hsteps] at hy
    rcases List.mem_cons.1 hy with rfl | hy
    · exact hx
    · exact h.kept y hy
  · intro y hy
    rw [List.getLast?_cons_of_ne_nil hsteps] at hy
    exact h.last y hy

theorem append {steps more : List Step} (h : Settles c steps none) (hmore : more ≠ [])
    (h' : Settles c more ending) : Settles c (steps ++ more) ending := by
  induction steps with
  | nil => exact h'
  | cons x steps ih =>
    cases steps with
    | nil => exact cons (h.last x rfl) hmore h'
    | cons y steps =>
      -- the last of the first steps is not the first of them
      refine cons (h.kept x (by simp)) (by simp) (ih ⟨fun z hz => ?_, fun z hz => ?_⟩)
      · exact h.kept z (by simpa using .inr hz)
      · exact h.last z (by simpa using hz)

end Settles

namespace Course

variable {c : Charter} {p : Standing} {x : Step} {steps : List Step} {final : Option Seat}

theorem uncons (h : Course (c.seat p) steps none) :
    ∃ x rest, steps = x :: rest ∧ x.From (c.seat p) := by
  cases h with
  | last hfrom _ => exact ⟨_, _, rfl, hfrom⟩
  | step hfrom _ _ _ => exact ⟨_, _, rfl, hfrom⟩

/-- A pass that goes on stands where its step left it. -/
theorem goesOn (h : Course (c.seat p) (x :: steps) final) {d : Stride} {sign : Sign}
    (hmakes : x.Makes c d sign) {next : Standing} (hnext : d.outlook = .goesOn next) :
    Course (c.seat next) steps final := by
  refine h.move rfl ?_
  rw [hmakes.seats, hnext]
  rfl

/-- A pass that has told its observer makes no more steps. -/
theorem ended (h : Course (c.seat p) (x :: steps) final) {d : Stride} {sign : Sign}
    (hmakes : x.Makes c d sign) {status : Status} (hends : d.outlook = .departs status) :
    steps = [] ∧ final = none := by
  refine h.stop ?_
  rw [hmakes.seats, hends]
  rfl

/-- A pass that has announced its end stands there. -/
theorem announced (h : Course (c.seat p) (x :: steps) final) {d : Stride} {sign : Sign}
    (hmakes : x.Makes c d sign) {next : Standing} {status : Status}
    (hends : d.outlook = .ends next status) :
    Course (c.seat { next with stage := .closing status }) steps final := by
  refine h.move rfl ?_
  rw [hmakes.seats, hends]
  rfl

/-- After a package is done, the pass takes its next one, or it winds down. -/
def Leaves (c : Charter) (next : Standing) (status : Status) (steps : List Step) : Prop :=
  Course (c.seat { next with stage := if status.endsPass then .closing status else .choosing })
    steps none

theorem leaves (h : Course (c.seat p) (x :: steps) none) {d : Stride} {sign : Sign}
    (hmakes : x.Makes c d sign) {status : Status} {next : Standing}
    (hafter : d.outlook = .after status next) : Leaves c next status steps := by
  unfold Leaves
  unfold Outlook.after at hafter
  by_cases hends : status.endsPass = true
  · rw [if_pos hends] at hafter ⊢
    exact h.announced hmakes hafter
  · rw [if_neg hends] at hafter ⊢
    exact h.goesOn hmakes hafter

end Course

/-! ## Steps by stage -/

/-- A stage at which a pass waits for nobody's answer that matters to its course. -/
inductive Stage.IsQuiet (stage : Stage) : Prop where
  | opening : stage = .opening → IsQuiet stage
  | choosing : stage = .choosing → IsQuiet stage
  | queued {v : Visit} {ticket : Nat} : stage = .queued v ticket → IsQuiet stage
  | prepared {v : Visit} {token : OpToken} : stage = .prepared v token → IsQuiet stage
  | starting {v : Visit} {token : OpToken} : stage = .starting v token → IsQuiet stage
  | dataset : stage = .calling .currentRestoreSet → IsQuiet stage
  | closing {status : Status} : stage = .closing status → IsQuiet stage

namespace Step.From

variable {x : Step} {c : Charter} {p : Standing}

theorem stage (h : x.From (c.seat p)) : x.task.stage = p.stage := congrArg Seat.stage h.seat

theorem transport (h : x.From (c.seat p)) : x.task.transport = c.transport :=
  System.transport_of_seat h.seat

theorem choice? (h : x.From (c.seat p)) (hstage : p.stage = .choosing) {e : Entry}
    {rest : List Entry} (hentries : p.entries = e :: rest) : x.choice? = some e := by
  have hjob : x.task.job = (c.seat p).job := congrArg Seat.job h.seat
  unfold Step.choice?
  rw [h.stage, hstage, hjob]
  show p.entries.head? = some e
  rw [hentries]
  rfl

/-- A step at which nothing is answered. -/
theorem makes_quiet (h : x.From (c.seat p)) {d : Stride} (htaken : d.taken = none)
    (hstage : p.stage.IsQuiet)
    (hchronicle : x.after.chronicle = x.before.chronicle.record c x.before.now d) :
    x.Makes c d .quiet := by
  have hstage' := h.stage
  cases hstage with
  | opening hp | choosing hp | queued hp | prepared hp | starting hp | closing hp =>
    rw [hp] at hstage'
    exact ⟨hchronicle, by rw [Step.backedUp, hstage', htaken], by rw [Step.sign, hstage']⟩
  | dataset hp =>
    rw [hp] at hstage'
    exact ⟨hchronicle, by simp [Step.backedUp, hstage', htaken, TransportCall.payload?],
      by rw [Step.sign, hstage']⟩

theorem makes_opening (h : x.From (c.seat p)) (hstage : p.stage = .opening) :
    x.Makes c
      { outlook :=
          if x.before.engine.transports.isInitPending c.transport then .ends p .transportAborted
          else .goesOn { p with stage := .choosing } } .quiet :=
  h.makes_quiet rfl (.opening hstage) (x.before.stepTask_opening h.seat hstage)

theorem makes_commit (h : x.From (c.seat p)) (hstage : p.stage = .choosing)
    (hentries : p.entries = []) :
    x.Makes c
      { calls := [.finishBackup], outlook := .goesOn { p with stage := .calling .finishBackup } }
      .quiet :=
  h.makes_quiet rfl (.choosing hstage) (x.before.stepTask_commit h.seat hstage hentries)

theorem makes_canceled (h : x.From (c.seat p)) (hstage : p.stage = .choosing)
    (hentries : p.entries ≠ []) (hcanceled : x.task.canceled = true) :
    x.Makes c { outlook := .ends p .cancelled } .quiet :=
  h.makes_quiet rfl (.choosing hstage)
    (x.before.stepTask_canceled h.seat hstage hentries hcanceled)

theorem makes_choosing (h : x.From (c.seat p)) (hstage : p.stage = .choosing) {e : Entry}
    {rest : List Entry} (hentries : p.entries = e :: rest) (hcanceled : x.task.canceled = false) :
    x.Makes c (e.chosen c.nonIncremental (x.before.device.package? e.package)
      x.before.engine.binder.nextTicket p.rest) .quiet := by
  refine h.makes_quiet ?_ (.choosing hstage)
    (x.before.stepTask_choosing h.seat hstage hentries hcanceled)
  unfold Entry.chosen
  split
  · rfl
  · split
    · rfl
    · split <;> rfl

theorem makes_queued (h : x.From (c.seat p)) {v : Visit} {ticket : Nat}
    (hstage : p.stage = .queued v ticket) :
    x.Makes c
      (if x.before.hostAccepts v then { outlook := .goesOn { p with stage := .binding v ticket } }
        else .done v.package.name .agentFailure p) .quiet := by
  refine h.makes_quiet ?_ (.queued hstage) (x.before.stepTask_queued h.seat hstage)
  split <;> rfl

theorem makes_binding (h : x.From (c.seat p)) {v : Visit} {ticket : Nat}
    (hstage : p.stage = .binding v ticket) :
    (∃ token, x.Makes c { outlook := .goesOn { p with stage := .prepared v token } } .bound) ∨
      x.Makes c (.done v.package.name .agentFailure p) .quiet := by
  have hstage' := h.stage.trans hstage
  obtain ⟨token, hstep⟩ := x.before.stepTask_binding h.seat hstage
  by_cases hconnected : x.before.engine.binder.arrival = some (.connected ())
  · rw [if_pos hconnected] at hstep
    exact .inl ⟨token, hstep, by rw [Step.backedUp, hstage'],
      by simp only [Step.sign, hstage', if_pos hconnected]⟩
  · rw [if_neg hconnected] at hstep
    exact .inr ⟨hstep, by rw [Step.backedUp, hstage']; rfl,
      by simp only [Step.sign, hstage', if_neg hconnected]⟩

theorem makes_prepared (h : x.From (c.seat p)) {v : Visit} {token : OpToken}
    (hstage : p.stage = .prepared v token) :
    x.Makes c { outlook := .goesOn { p with
      stage := if x.task.canceled then .working v token else .starting v token } } .quiet :=
  h.makes_quiet rfl (.prepared hstage) (System.stepTask_prepared h.distinct h.seat hstage)

theorem makes_starting (h : x.From (c.seat p)) {v : Visit} {token : OpToken}
    (hstage : p.stage = .starting v token) :
    x.Makes c { outlook := .goesOn { p with stage := .working v token } } .quiet :=
  h.makes_quiet rfl (.starting hstage) (x.before.stepTask_starting h.seat hstage)

theorem makes_dataset (h : x.From (c.seat p)) (hstage : p.stage = .calling .currentRestoreSet) :
    x.Makes c { outlook := .ends p .success } .quiet :=
  h.makes_quiet rfl (.dataset hstage) (x.before.stepTask_dataset h.seat hstage)

theorem makes_closing (h : x.From (c.seat p)) {status : Status}
    (hstage : p.stage = .closing status) :
    x.Makes c { outlook := .departs status } .quiet :=
  h.makes_quiet rfl (.closing hstage) (x.before.stepTask_closing h.seat hstage)

theorem makes_working (h : x.From (c.seat p)) {v : Visit} {token : OpToken}
    (hstage : p.stage = .working v token) :
    x.Makes c
        { calls := [Entry.call ⟨v.package.name, v.mode⟩ c.nonIncremental]
          outlook := .goesOn { p with
            stage := .calling (Entry.call ⟨v.package.name, v.mode⟩ c.nonIncremental) } }
        .acknowledged ∨
      (x.task.canceled = true ∧ x.Makes c (.done v.package.name .cancelled p) .abandoned) ∨
      (x.task.canceled = false ∧ x.Makes c (.done v.package.name .agentFailure p) .quiet) := by
  have hstage' := h.stage.trans hstage
  have hstep := x.before.stepTask_working h.seat hstage
  have htaken : x.backedUp = none := by rw [Step.backedUp, hstage']
  by_cases hdone : (x.before.engine.ops.wait token).1 = some true
  · rw [if_pos hdone] at hstep
    exact .inl ⟨hstep, htaken, by simp only [Step.sign, hstage', if_pos hdone]⟩
  · rw [if_neg hdone] at hstep
    cases hcanceled : x.task.canceled with
    | true =>
      rw [hcanceled, if_pos rfl] at hstep
      exact .inr (.inl ⟨rfl, hstep, htaken,
        by simp only [Step.sign, hstage', if_neg hdone, hcanceled, if_true]⟩)
    | false =>
      rw [hcanceled, if_neg (by decide)] at hstep
      exact .inr (.inr ⟨rfl, hstep, htaken,
        by simp [Step.sign, hstage', hdone, hcanceled]⟩)

theorem makes_calling (h : x.From (c.seat p)) {call : TransportCall}
    (hstage : p.stage = .calling call) (hcall : call ≠ .currentRestoreSet) :
    ∃ reply,
      x.Makes c
        (match call.payload? with
          | some e =>
            { Stride.done e.package (Status.ofReply reply) p with
              taken := System.takenBy reply e }
          | none =>
            if x.before.wantsDataset reply then
              { calls := [.currentRestoreSet]
                outlook := .goesOn { p with stage := .calling .currentRestoreSet } }
            else { outlook := .ends p (System.commitStatus reply) })
        (.replied reply) := by
  have hstage' := h.stage.trans hstage
  refine ⟨(x.before.device.answer c.transport call).1,
    x.before.stepTask_calling h.seat hstage hcall rfl, ?_, ?_⟩
  · simp only [Step.backedUp, hstage', h.transport]
    cases call.payload? with
    | none =>
      simp only [ite_self]
      split <;> rfl
    | some e => rfl
  · rw [← h.transport, Step.sign, hstage']
    cases call <;> first | rfl | exact absurd rfl hcall

end Step.From

/-! ## Rounds -/

/-- Steps that handle a package, as seen from outside: the calls they made, the result they told,
and the package they had the transport take. -/
structure Handled (c : Charter) (e : Entry) (steps : List Step) (offered : Bool) (status : Status) :
    Prop where
  calls : steps.flatMap Step.calls =
    (if offered then [e.call c.nonIncremental] else []).map (c.transport, ·)
  told : steps.flatMap Step.told = System.resultNotice c.observer e.package status
  taken : steps.filterMap Step.backedUp = if status = .success then [e] else []
  settles : Settles c steps (if status.endsPass then some status else none)

/-- The steps of the round of a package: what they did follows from its fate. -/
structure Round (c : Charter) (e : Entry) (round : List Step) : Prop where
  /-- The first step chooses the package, and no other step chooses one. -/
  chooses : ∃ x tail, round = x :: tail ∧ x.choice? = some e ∧ ∀ y ∈ tail, y.task.stage ≠ .choosing
  /-- The transport is asked for nothing but to take the data of the package. -/
  asked : ∀ y ∈ round, ∀ reply, y.sign = .replied reply →
    y.task.stage = .calling (e.call c.nonIncremental)
  /-- What is offered to the transport is answered, and nothing else. -/
  answered : (Fate.of e round).isOffered = (Fate.of e round).reply.isSome
  handled : Handled c e round (Fate.of e round).isOffered (Fate.of e round).status

/-- A step in which a package is done tells its observer. -/
theorem Step.Makes.told_done {x : Step} {c : Charter} {package : String} {status : Status}
    {next : Standing} {taken : Option Entry} {sign : Sign}
    (h : x.Makes c { Stride.done package status next with taken } sign) :
    x.told = System.resultNotice c.observer package status := by
  rw [h.told]
  simp only [Stride.done, Outlook.after, Option.toList_some, List.flatMap_singleton]
  by_cases hends : status.endsPass = true
  · simp [hends]
  · simp [hends]

namespace Handled

variable {c : Charter} {e : Entry} {x : Step} {steps : List Step} {next : Standing} {sign : Sign}
  {offered : Bool} {status : Status}

/-- A package that is done at once. -/
theorem done (h : x.Makes c (.done e.package status next) sign) (hstatus : status ≠ .success) :
    Handled c e [x] false status where
  calls := by
    rw [List.flatMap_singleton, h.calls]
    rfl
  told := by
    rw [List.flatMap_singleton]
    exact h.told_done
  taken := by
    have hnone : x.backedUp = none := h.taken
    rw [List.filterMap_cons, hnone, if_neg hstatus]
    rfl
  settles := by
    rw [← Outlook.status?_after status next]
    exact .single h.closes

/-- A step ahead that only leads on. -/
theorem ahead (h : Handled c e steps offered status) (hsteps : steps ≠ [])
    (hmakes : x.Makes c { outlook := .goesOn next } sign) :
    Handled c e (x :: steps) offered status where
  calls := by
    rw [List.flatMap_cons, hmakes.calls, h.calls]
    rfl
  told := by
    rw [List.flatMap_cons, hmakes.told, h.told]
    rfl
  taken := by
    have hnone : x.backedUp = none := hmakes.taken
    rw [List.filterMap_cons, hnone, h.taken]
  settles := .cons hmakes.closes hsteps h.settles

/-- The transport is called, and it answers. -/
theorem answered {y : Step} {next' : Standing} {sign' : Sign} {reply : Device.Reply}
    (h : x.Makes c { calls := [e.call c.nonIncremental], outlook := .goesOn next } sign)
    (h' : y.Makes c { Stride.done e.package (Status.ofReply reply) next' with
      taken := System.takenBy reply e } sign') :
    Handled c e [x, y] true (Status.ofReply reply) where
  calls := by
    rw [List.flatMap_cons, h.calls, List.flatMap_singleton, h'.calls]
    rfl
  told := by
    rw [List.flatMap_cons, h.told, List.flatMap_singleton, h'.told_done]
    rfl
  taken := by
    have hnone : x.backedUp = none := h.taken
    have htaken : y.backedUp = System.takenBy reply e := h'.taken
    rw [List.filterMap_cons, hnone, List.filterMap_cons, htaken, System.takenBy]
    by_cases hreply : reply = .ok .ok
    · rw [if_pos hreply, if_pos (System.ofReply_eq_success.2 hreply)]
      rfl
    · rw [if_neg hreply, if_neg fun hs => hreply (System.ofReply_eq_success.1 hs)]
      rfl
  settles := by
    refine .cons h.closes (by simp) ?_
    rw [← Outlook.status?_after (Status.ofReply reply) next']
    exact .single h'.closes

end Handled

namespace Course

variable {c : Charter} {p : Standing} {steps : List Step} {e : Entry}

/-- The transport answers for a package. -/
theorem answer (h : Course (c.seat p) steps none) {call : TransportCall}
    (hstage : p.stage = .calling call) (hentry : call.payload? = some e) :
    ∃ x rest reply, steps = x :: rest ∧
      x.Makes c { Stride.done e.package (Status.ofReply reply) p with
        taken := System.takenBy reply e } (.replied reply) ∧
      x.task.stage = .calling call ∧ Leaves c p (Status.ofReply reply) rest := by
  obtain ⟨x, rest, rfl, hfrom⟩ := h.uncons
  have hcall : call ≠ .currentRestoreSet := by
    rintro rfl
    cases hentry
  obtain ⟨reply, hmakes⟩ := hfrom.makes_calling hstage hcall
  simp only [hentry] at hmakes
  exact ⟨x, rest, reply, rfl, hmakes, hfrom.stage.trans hstage, h.leaves hmakes rfl⟩

/-- The steps that bring up the agent of a package and have it work, or the last of them, from the
time on when its agent may have connected already. -/
structure Visited (c : Charter) (e : Entry) (connected : Bool) (visit : List Step)
    (status : Status) : Prop where
  some : visit ≠ []
  chooses : ∀ y ∈ visit, y.task.stage ≠ .choosing
  asked : ∀ y ∈ visit, ∀ reply, y.sign = .replied reply →
    y.task.stage = .calling (e.call c.nonIncremental)
  answered : ((connected || visit.any (·.sign = .bound)) && visit.any (·.sign = .acknowledged)) =
    (visit.findSome? (·.sign.reply?)).isSome
  handled : Handled c e visit
    ((connected || visit.any (·.sign = .bound)) && visit.any (·.sign = .acknowledged)) status
  status : status =
    if (connected || visit.any (·.sign = .bound)) && visit.any (·.sign = .acknowledged) then
      (visit.findSome? (·.sign.reply?)).elim .transportAborted Status.ofReply
    else if visit.any (·.sign = .abandoned) then .cancelled
    else .agentFailure

namespace Visited

variable {x y : Step} {next : Standing} {connected : Bool} {visit : List Step} {status : Status}

/-- The agent fails, or it is given up. -/
theorem failed {sign : Sign} (hx : x.task.stage ≠ .choosing)
    (hsign : sign = .quiet ∧ status = .agentFailure ∨ sign = .abandoned ∧ status = .cancelled)
    (h : x.Makes c (.done e.package status next) sign) : Visited c e connected [x] status := by
  have hsaid := h.sign
  rcases hsign with ⟨rfl, rfl⟩ | ⟨rfl, rfl⟩
  · refine ⟨by simp, by simpa using hx, by simp [hsaid], by simp [hsaid, Sign.reply?], ?_,
      by simp [hsaid]⟩
    simpa [hsaid] using Handled.done h (by decide)
  · refine ⟨by simp, by simpa using hx, by simp [hsaid], by simp [hsaid, Sign.reply?], ?_,
      by simp [hsaid]⟩
    simpa [hsaid] using Handled.done h (by decide)

/-- The agent has done its work, and the transport answers. -/
theorem answers {next' : Standing} {reply : Device.Reply} (hx : x.task.stage ≠ .choosing)
    (hy : y.task.stage = .calling (e.call c.nonIncremental))
    (h : x.Makes c { calls := [e.call c.nonIncremental], outlook := .goesOn next } .acknowledged)
    (h' : y.Makes c { Stride.done e.package (Status.ofReply reply) next' with
      taken := System.takenBy reply e } (.replied reply)) :
    Visited c e true [x, y] (Status.ofReply reply) := by
  have hsign := h.sign
  have hsign' := h'.sign
  refine ⟨by simp, ?_, ?_, ?_, ?_, ?_⟩
  · simpa [hy] using hx
  · simp [hsign, hy]
  · simp [hsign, hsign', Sign.reply?]
  · simpa [hsign, hsign'] using Handled.answered h h'
  · simp [hsign, hsign', Sign.reply?]

/-- A step ahead at which nothing is answered. -/
theorem ahead (h : Visited c e connected visit status) (hx : x.task.stage ≠ .choosing)
    (hmakes : x.Makes c { outlook := .goesOn next } .quiet) :
    Visited c e connected (x :: visit) status := by
  have hsign := hmakes.sign
  obtain ⟨hsome, hchooses, hasked, hanswered, hhandled, hstatus⟩ := h
  refine ⟨by simp, List.forall_mem_cons.2 ⟨hx, hchooses⟩,
    List.forall_mem_cons.2 ⟨by simp [hsign], hasked⟩, ?_, ?_, ?_⟩
  · simpa [hsign, Sign.reply?] using hanswered
  · simpa [hsign] using hhandled.ahead hsome hmakes
  · simpa [hsign, Sign.reply?] using hstatus

/-- A step ahead in which the agent connects. -/
theorem connects (h : Visited c e true visit status) (hx : x.task.stage ≠ .choosing)
    (hmakes : x.Makes c { outlook := .goesOn next } .bound) :
    Visited c e false (x :: visit) status := by
  have hsign := hmakes.sign
  obtain ⟨hsome, hchooses, hasked, hanswered, hhandled, hstatus⟩ := h
  refine ⟨by simp, List.forall_mem_cons.2 ⟨hx, hchooses⟩,
    List.forall_mem_cons.2 ⟨by simp [hsign], hasked⟩, ?_, ?_, ?_⟩
  · simpa [hsign, Sign.reply?] using hanswered
  · simpa [hsign] using hhandled.ahead hsome hmakes
  · simpa [hsign, Sign.reply?] using hstatus

end Visited

variable {q : Package}

/-- An agent that was given work does it or not, and the transport is offered the data if it did. -/
theorem worked (h : Course (c.seat p) steps none) {token : OpToken}
    (hstage : p.stage = .working ⟨q, e.mode⟩ token) (hname : q.name = e.package)
    (hmode : (e.call c.nonIncremental).payload? = some e) :
    ∃ visit rest status, steps = visit ++ rest ∧ Visited c e true visit status ∧
      Leaves c p status rest := by
  obtain ⟨x, rest, rfl, hfrom⟩ := h.uncons
  have hx : x.task.stage ≠ .choosing := by rw [hfrom.stage, hstage]; exact Stage.noConfusion
  have hcall : (⟨(Visit.mk q e.mode).package.name, (Visit.mk q e.mode).mode⟩ : Entry) = e :=
    congrArg (Entry.mk · e.mode) hname
  have hmakes := hfrom.makes_working hstage
  rw [hcall, show (Visit.mk q e.mode).package.name = e.package from hname] at hmakes
  rcases hmakes with hmakes | ⟨-, hmakes⟩ | ⟨-, hmakes⟩
  · -- the agent has done its work
    obtain ⟨y, rest, reply, rfl, hanswers, hy, hleaves⟩ := (h.goesOn hmakes rfl).answer rfl hmode
    exact ⟨[x, y], rest, _, rfl, .answers hx hy hmakes hanswers, hleaves⟩
  · -- the pass was canceled
    exact ⟨[x], rest, _, rfl, .failed hx (.inr ⟨rfl, rfl⟩) hmakes, h.leaves hmakes rfl⟩
  · -- the agent has not done its work in time
    exact ⟨[x], rest, _, rfl, .failed hx (.inl ⟨rfl, rfl⟩) hmakes, h.leaves hmakes rfl⟩

/-- An agent that has connected is given work, unless the pass was canceled. -/
theorem given (h : Course (c.seat p) steps none) {token : OpToken}
    (hstage : p.stage = .prepared ⟨q, e.mode⟩ token) (hname : q.name = e.package)
    (hmode : (e.call c.nonIncremental).payload? = some e) :
    ∃ visit rest status, steps = visit ++ rest ∧ Visited c e true visit status ∧
      Leaves c p status rest := by
  obtain ⟨x, steps₁, rfl, hfrom⟩ := h.uncons
  have hx : x.task.stage ≠ .choosing := by rw [hfrom.stage, hstage]; exact Stage.noConfusion
  have hmakes := hfrom.makes_prepared hstage
  have h₁ := h.goesOn hmakes rfl
  cases hcanceled : x.task.canceled with
  | true =>
    rw [hcanceled] at h₁
    obtain ⟨visit, rest, status, rfl, hvisited, hleaves⟩ := h₁.worked rfl hname hmode
    exact ⟨x :: visit, rest, status, rfl, hvisited.ahead hx hmakes, hleaves⟩
  | false =>
    rw [hcanceled] at h₁
    obtain ⟨y, steps₂, rfl, hfrom₁⟩ := h₁.uncons
    have hy : y.task.stage ≠ .choosing := by rw [hfrom₁.stage]; exact Stage.noConfusion
    have hmakes₁ := hfrom₁.makes_starting rfl
    obtain ⟨visit, rest, status, rfl, hvisited, hleaves⟩ :=
      (h₁.goesOn hmakes₁ rfl).worked rfl hname hmode
    exact ⟨x :: y :: visit, rest, status, rfl, (hvisited.ahead hy hmakes₁).ahead hx hmakes, hleaves⟩

/-- The agent of a package is brought up and given work, and the transport is offered the data if
the agent has done it. -/
theorem visited (h : Course (c.seat p) steps none) {ticket : Nat}
    (hstage : p.stage = .queued ⟨q, e.mode⟩ ticket) (hname : q.name = e.package)
    (hmode : (e.call c.nonIncremental).payload? = some e) :
    ∃ visit rest status, steps = visit ++ rest ∧ Visited c e false visit status ∧
      Leaves c p status rest := by
  obtain ⟨x, steps₁, rfl, hfrom⟩ := h.uncons
  have hx : x.task.stage ≠ .choosing := by rw [hfrom.stage, hstage]; exact Stage.noConfusion
  have hmakes := hfrom.makes_queued hstage
  by_cases haccepts : x.before.hostAccepts ⟨q, e.mode⟩ = true
  swap
  · -- the host refuses
    rw [if_neg haccepts, show (Visit.mk q e.mode).package.name = e.package from hname] at hmakes
    exact ⟨[x], steps₁, _, rfl, .failed hx (.inl ⟨rfl, rfl⟩) hmakes, h.leaves hmakes rfl⟩
  rw [if_pos haccepts] at hmakes
  have h₁ := h.goesOn hmakes rfl
  obtain ⟨b, steps₂, rfl, hfrom₁⟩ := h₁.uncons
  have hb : b.task.stage ≠ .choosing := by rw [hfrom₁.stage]; exact Stage.noConfusion
  rcases hfrom₁.makes_binding rfl with ⟨token, hmakes₁⟩ | hmakes₁
  · obtain ⟨visit, rest, status, rfl, hvisited, hleaves⟩ :=
      (h₁.goesOn hmakes₁ rfl).given rfl hname hmode
    exact ⟨x :: b :: visit, rest, status, rfl, (hvisited.connects hb hmakes₁).ahead hx hmakes,
      hleaves⟩
  · -- the agent does not connect
    rw [show (Visit.mk q e.mode).package.name = e.package from hname] at hmakes₁
    have hfailed : Visited c e false [b] .agentFailure :=
      .failed hb (.inl ⟨rfl, rfl⟩) hmakes₁
    exact ⟨[x, b], steps₂, _, rfl, hfailed.ahead hx hmakes, h₁.leaves hmakes₁ rfl⟩

/-- **A package that is chosen has its round.** -/
theorem round (h : Course (c.seat p) steps none) (hstage : p.stage = .choosing)
    {entries : List Entry} (hentries : p.entries = e :: entries)
    (hcanceled : ∀ x ∈ steps.head?, x.task.canceled = false)
    (hmode : (e.call c.nonIncremental).payload? = some e) :
    ∃ round rest, steps = round ++ rest ∧ Round c e round ∧
      Leaves c p.rest (Fate.of e round).status rest := by
  obtain ⟨x, steps₁, rfl, hfrom⟩ := h.uncons
  have hx : x.choice? = some e := hfrom.choice? hstage hentries
  have hmakes := hfrom.makes_choosing hstage hentries (hcanceled x rfl)
  have hsign := hmakes.sign
  unfold Entry.chosen at hmakes
  by_cases hmeta : e.isMetadata = true
  · -- the metadata needs no agent
    rw [if_pos hmeta] at hmakes
    have h₁ := h.goesOn hmakes rfl
    obtain ⟨k, steps₂, reply, rfl, hmakes₁, hk, hleaves⟩ := h₁.answer rfl hmode
    have hsign₁ := hmakes₁.sign
    have hfate : (Fate.of e [x, k]).isOffered = true ∧
        (Fate.of e [x, k]).reply = some reply := by
      simp [Fate.of, Fate.isOffered, hmeta, hsign, hsign₁, Sign.reply?]
    have hstatus : (Fate.of e [x, k]).status = Status.ofReply reply := by
      rw [Fate.status, if_pos hfate.1, hfate.2]
      rfl
    refine ⟨[x, k], steps₂, rfl, ⟨⟨x, [k], rfl, hx, by simp [hk]⟩, by simp [hsign, hk], ?_, ?_⟩, ?_⟩
    · rw [hfate.1, hfate.2]
      rfl
    · rw [hfate.1, hstatus]
      exact .answered hmakes hmakes₁
    · rw [hstatus]
      exact hleaves
  rw [if_neg hmeta] at hmakes
  have hmeta' : e.isMetadata = false := by simpa using hmeta
  cases hlisted : x.before.device.package? e.package with
  | none =>
    rw [hlisted] at hmakes
    have hfate : (Fate.of e [x]).isOffered = false ∧ (Fate.of e [x]).reply = none ∧
        (Fate.of e [x]).status = .packageNotFound := by
      simp [Fate.of, Fate.isOffered, Fate.status, hmeta', hsign, hlisted, Sign.reply?]
    refine ⟨[x], steps₁, rfl, ⟨⟨x, [], rfl, hx, by simp⟩, by simp [hsign], ?_, ?_⟩, ?_⟩
    · rw [hfate.1, hfate.2.1]
      rfl
    · rw [hfate.1, hfate.2.2]
      exact .done hmakes (by decide)
    · rw [hfate.2.2]
      exact h.leaves hmakes rfl
  | some q =>
    rw [hlisted] at hmakes
    simp only at hmakes
    by_cases hadmits : e.admits q = true
    · rw [if_pos hadmits] at hmakes
      have hname : q.name = e.package := by simpa using List.find?_some hlisted
      have h₁ := h.goesOn hmakes rfl
      obtain ⟨visit, rest, status, rfl, hvisited, hleaves⟩ := h₁.visited rfl hname hmode
      have hfate : (Fate.of e (x :: visit)).isOffered =
          (visit.any (·.sign = .bound) && visit.any (·.sign = .acknowledged)) ∧
          (Fate.of e (x :: visit)).reply = visit.findSome? (·.sign.reply?) ∧
          (Fate.of e (x :: visit)).abandoned = visit.any (·.sign = .abandoned) ∧
          (Fate.of e (x :: visit)).listed = some q := by
        simp [Fate.of, Fate.isOffered, hmeta', hsign, hlisted, hadmits, Sign.reply?]
      have hstatus : (Fate.of e (x :: visit)).status = status := by
        rw [hvisited.status, Fate.status, hfate.1, hfate.2.1, hfate.2.2.1, hfate.2.2.2]
        simp [Fate.of, hadmits]
      refine ⟨x :: visit, rest, rfl,
        ⟨⟨x, visit, rfl, hx, hvisited.chooses⟩, ?_, ?_, ?_⟩, ?_⟩
      · simpa [hsign] using hvisited.asked
      · rw [hfate.1, hfate.2.1]
        exact hvisited.answered
      · rw [hfate.1, hstatus]
        exact hvisited.handled.ahead hvisited.some hmakes
      · rw [hstatus]
        exact hleaves
    · rw [if_neg hadmits] at hmakes
      have hfate : (Fate.of e [x]).isOffered = false ∧ (Fate.of e [x]).reply = none ∧
          (Fate.of e [x]).status = .packageNotEligible := by
        simp [Fate.of, Fate.isOffered, Fate.status, hmeta', hsign, hlisted, hadmits, Sign.reply?]
      refine ⟨[x], steps₁, rfl, ⟨⟨x, [], rfl, hx, by simp⟩, by simp [hsign], ?_, ?_⟩, ?_⟩
      · rw [hfate.1, hfate.2.1]
        rfl
      · rw [hfate.1, hfate.2.2]
        exact .done hmakes (by decide)
      · rw [hfate.2.2]
        exact h.leaves hmakes rfl

end Course

/-! ## Whole passes -/

/-- A pass takes its packages one by one, in rounds, and then it announces its end. -/
inductive Handles (c : Charter) : List Entry → List (List Step) → List Step → Status → Prop where
  /-- There is no package left, and what was sent is committed. -/
  | commit {x y : Step} {next next' : Standing} {reply : Device.Reply} :
    x.task.stage = .choosing →
    x.Makes c { calls := [.finishBackup], outlook := .goesOn next } .quiet →
    y.task.stage = .calling .finishBackup → y.before.wantsDataset reply = false →
    y.Makes c { outlook := .ends next' (System.commitStatus reply) } (.replied reply) →
    Handles c [] [] [x, y] (System.commitStatus reply)
  /-- What was sent is committed as the first of a dataset, and the transport tells which. -/
  | commitFirst {x y z : Step} {next next' next'' : Standing} {reply : Device.Reply} :
    x.task.stage = .choosing →
    x.Makes c { calls := [.finishBackup], outlook := .goesOn next } .quiet →
    y.task.stage = .calling .finishBackup → y.before.wantsDataset reply = true →
    y.Makes c { calls := [.currentRestoreSet], outlook := .goesOn next' } (.replied reply) →
    z.task.stage = .calling .currentRestoreSet →
    z.Makes c { outlook := .ends next'' .success } .quiet →
    Handles c [] [] [x, y, z] .success
  /-- The pass was canceled between two packages. -/
  | cancel {e : Entry} {entries : List Entry} {x : Step} {next : Standing} :
    x.task.stage = .choosing → x.task.canceled = true →
    x.Makes c { outlook := .ends next .cancelled } .quiet →
    Handles c (e :: entries) [] [x] .cancelled
  /-- The result of a package ends the pass. -/
  | breakOff {e : Entry} {entries : List Entry} {round : List Step} :
    Round c e round → (Fate.of e round).status.endsPass = true →
    Handles c (e :: entries) [round] [] (Fate.of e round).status
  /-- A package is done, and the pass takes the next one. -/
  | next {e : Entry} {entries : List Entry} {round closing : List Step} {rounds : List (List Step)}
      {status : Status} :
    Round c e round → (Fate.of e round).status.endsPass = false →
    Handles c entries rounds closing status →
    Handles c (e :: entries) (round :: rounds) closing status

/-- The entries of a pass are of the two kinds that it backs up. -/
theorem Standing.payload?_call {p : Standing} {e : Entry} (he : e ∈ p.entries)
    (nonIncremental : Bool) : (e.call nonIncremental).payload? = some e := by
  rcases List.mem_append.1 he with he | he
  · obtain ⟨package, -, rfl⟩ := List.mem_map.1 he
    rfl
  · obtain ⟨package, -, rfl⟩ := List.mem_map.1 he
    rfl

/-- A pass that has announced its end makes one more step. -/
theorem Course.departs {c : Charter} {p : Standing} {steps : List Step}
    (h : Course (c.seat p) steps none) {status : Status} (hstage : p.stage = .closing status) :
    ∃ last, steps = [last] ∧ last.Departs c status := by
  obtain ⟨x, rest, rfl, hfrom⟩ := h.uncons
  have hmakes := hfrom.makes_closing hstage
  obtain ⟨rfl, -⟩ := h.ended hmakes rfl
  exact ⟨x, rfl, hmakes.departs (hfrom.stage.trans hstage)⟩

/-- A pass with no package left is committed. -/
theorem Course.commits {c : Charter} {p : Standing} {steps : List Step}
    (h : Course (c.seat p) steps none) (hentries : p.entries = []) (hstage : p.stage = .choosing) :
    ∃ closing last status, steps = closing ++ [last] ∧ Handles c [] [] closing status ∧
      last.Departs c status := by
  obtain ⟨x, steps₁, rfl, hfrom⟩ := h.uncons
  have hmakes := hfrom.makes_commit hstage hentries
  have h₁ := h.goesOn hmakes rfl
  obtain ⟨y, steps₂, rfl, hfrom₁⟩ := h₁.uncons
  obtain ⟨reply, hmakes₁⟩ := hfrom₁.makes_calling rfl (by decide)
  simp only [TransportCall.payload?] at hmakes₁
  cases hwants : y.before.wantsDataset reply with
  | false =>
    rw [if_neg (by simp [hwants])] at hmakes₁
    obtain ⟨last, rfl, hdeparts⟩ := (h₁.announced hmakes₁ rfl).departs rfl
    exact ⟨[x, y], last, _, rfl,
      .commit (hfrom.stage.trans hstage) hmakes hfrom₁.stage hwants hmakes₁, hdeparts⟩
  | true =>
    rw [if_pos hwants] at hmakes₁
    have h₂ := h₁.goesOn hmakes₁ rfl
    obtain ⟨z, steps₃, rfl, hfrom₂⟩ := h₂.uncons
    have hmakes₂ := hfrom₂.makes_dataset rfl
    obtain ⟨last, rfl, hdeparts⟩ := (h₂.announced hmakes₂ rfl).departs rfl
    exact ⟨[x, y, z], last, _, rfl,
      .commitFirst (hfrom.stage.trans hstage) hmakes hfrom₁.stage hwants hmakes₁ hfrom₂.stage
        hmakes₂, hdeparts⟩

/-- **The course of every pass that is over is one of rounds**, up to its last step. -/
theorem Course.handles {c : Charter} {entries : List Entry} :
    ∀ {p : Standing} {steps : List Step}, p.entries = entries → p.stage = .choosing →
      Course (c.seat p) steps none →
      ∃ rounds closing last status, steps = rounds.flatten ++ closing ++ [last] ∧
        Handles c entries rounds closing status ∧ last.Departs c status := by
  -- on the packages that are left: after each round the pass stands at its next choice
  induction entries with
  | nil =>
    intro p steps hentries hstage h
    obtain ⟨closing, last, status, rfl, hhandles, hdeparts⟩ := h.commits hentries hstage
    exact ⟨[], closing, last, status, rfl, hhandles, hdeparts⟩
  | cons e entries ih =>
    intro p steps hentries hstage h
    obtain ⟨x, steps₁, rfl, hfrom⟩ := h.uncons
    cases hcanceled : x.task.canceled with
    | true =>
      have hmakes := hfrom.makes_canceled hstage (by rw [hentries]; simp) hcanceled
      obtain ⟨last, rfl, hdeparts⟩ := (h.announced hmakes rfl).departs rfl
      exact ⟨[], [x], last, _, rfl, .cancel (hfrom.stage.trans hstage) hcanceled hmakes, hdeparts⟩
    | false =>
      have hmode := Standing.payload?_call (show e ∈ p.entries by rw [hentries]; simp)
        c.nonIncremental
      obtain ⟨round, rest, hsteps, hround, hleaves⟩ := h.round hstage hentries
        (fun y hy => Option.some.inj hy ▸ hcanceled) hmode
      unfold Course.Leaves at hleaves
      by_cases hends : (Fate.of e round).status.endsPass = true
      · rw [if_pos hends] at hleaves
        obtain ⟨last, rfl, hdeparts⟩ := hleaves.departs rfl
        exact ⟨[round], [], last, _, by simp [hsteps], .breakOff hround hends, hdeparts⟩
      · rw [if_neg hends] at hleaves
        have hrest : ({ p.rest with stage := .choosing } : Standing).entries = entries :=
          Standing.rest_entries hentries
        obtain ⟨rounds, closing, last, status, rfl, hhandles, hdeparts⟩ := ih hrest rfl hleaves
        exact ⟨round :: rounds, closing, last, status, by simp [hsteps],
          .next hround (by simpa using hends) hhandles, hdeparts⟩

end Holdfast
