import Holdfast.Proofs.Engine.Turn
import Holdfast.Proofs.Pending.Staging

/-!
# What one step of a key-value pass can be seen to do

A pass is seen from outside by the calls it makes to its transport, by what its observer is told,
and by three stores: the packages processed, the schedule of full backups and the pending set. The
chronicle is the extract of these, together with the tasks.

- `Charter`: what stays the same all through a pass; `Standing`: where the pass stands;
- `Stride`: what a step of a pass does; `Chronicle.record` enters it into the chronicle;
- `System.stepTask_opening` to `System.stepTask_closing`: **what a step does at each stage**, for
  every answer of the catalog, the agents and the transport.
-/

namespace Holdfast

/-! ## Passes -/

/-- A package that a pass is to back up, in one of the two ways. -/
structure Entry where
  package : String
  mode : AgentMode
  deriving DecidableEq, Repr

namespace Entry

/-- Whether this is the list of installed packages, which needs no agent. -/
def isMetadata (e : Entry) : Bool := e.mode == .incremental && e.package == metadataPackage

/-- Whether an installed package is backed up in this way. -/
def admits (e : Entry) (p : Package) : Bool :=
  match e.mode with
  | .incremental => p.isParticipant
  | .full | .restore => p.getsFullBackup

/-- The call that hands the data to the transport. -/
def call (e : Entry) (nonIncremental : Bool) : TransportCall :=
  match e.mode with
  | .incremental => .performBackup e.package nonIncremental
  | .full | .restore => .performFullBackup e.package

end Entry

/-- The package whose data a call hands to a transport. -/
def TransportCall.payload? : TransportCall → Option Entry
  | .performBackup package _ => some ⟨package, .incremental⟩
  | .performFullBackup package => some ⟨package, .full⟩
  | _ => none

/-- What stays the same all through a key-value pass. -/
structure Charter where
  number : Nat
  lease : Option Lease
  token : Option OpToken
  drained : Option Drained
  observer : Option String
  nonIncremental : Bool

/-- Where a pass stands: the packages still to be taken, and what it waits for. -/
structure Standing where
  keyValue : List String
  full : List String
  stage : Stage

namespace Standing

/-- The packages still to be taken, in order. -/
def entries (p : Standing) : List Entry :=
  p.keyValue.map (⟨·, .incremental⟩) ++ p.full.map (⟨·, .full⟩)

/-- The standing without the package that is taken next. -/
def rest (p : Standing) : Standing :=
  match p.keyValue with
  | [] => { p with full := p.full.tail }
  | _ :: keyValue => { p with keyValue }

theorem rest_entries {p : Standing} {e : Entry} {entries : List Entry}
    (h : p.entries = e :: entries) : p.rest.entries = entries := by
  obtain ⟨keyValue, full, stage⟩ := p
  cases keyValue with
  | cons package keyValue => exact (List.cons.inj h).2
  | nil =>
    cases full with
    | cons package full => exact (List.cons.inj h).2
    | nil => cases h

end Standing

namespace Charter

/-- The transport of a pass. -/
def transport (c : Charter) : String :=
  match c.lease with
  | some lease => lease.transport
  | none => ""

/-- The entry of a pass in the books. -/
def seat (c : Charter) (p : Standing) : Seat :=
  ⟨c.number, .keyValue c.drained p.keyValue p.full c.observer c.nonIncremental, p.stage, c.lease,
    c.token⟩

end Charter

/-- How a pass goes on. -/
inductive Outlook where
  | goesOn (standing : Standing)
  /-- It is done with its packages: it closes what it drained and announces its end. -/
  | ends (standing : Standing) (status : Status)
  /-- It has announced its end: it tells its observer, and it is gone. -/
  | departs (status : Status)

/-- A package is done: the pass takes the next one, or it breaks off. -/
def Outlook.after (status : Status) (next : Standing) : Outlook :=
  if status.endsPass then .ends next status else .goesOn { next with stage := .choosing }

/-- What a step of a pass does. -/
structure Stride where
  /-- Calls to the transport. -/
  calls : List TransportCall := []
  /-- The package that is done, and how. -/
  result : Option (String × Status) := none
  /-- The package whose data the transport took. -/
  taken : Option Entry := none
  outlook : Outlook

/-- A package is done without its data having been taken. -/
def Stride.done (package : String) (status : Status) (next : Standing) : Stride :=
  { result := some (package, status), outlook := .after status next }

/-- How a package is taken, by what the catalog lists under its name. -/
def Entry.chosen (e : Entry) (nonIncremental : Bool) (listed : Option Package) (ticket : Nat)
    (next : Standing) : Stride :=
  if e.isMetadata then
    { calls := [e.call nonIncremental]
      outlook := .goesOn { next with stage := .calling (e.call nonIncremental) } }
  else match listed with
    | none => .done e.package .packageNotFound next
    | some q =>
      if e.admits q then { outlook := .goesOn { next with stage := .queued ⟨q, e.mode⟩ ticket } }
      else .done e.package .packageNotEligible next

/-! ## The chronicle -/

/-- The call that a transport was given. -/
def Device.Notice.call? : Notice → Option (String × TransportCall)
  | .transport name call => some (name, call)
  | _ => none

/-- The extract of the state by which a pass is seen. -/
structure Chronicle where
  /-- Calls to transports, oldest first. -/
  calls : List (String × TransportCall)
  /-- What observers were told, oldest first. -/
  told : List Device.Notice
  processed : NameSet
  schedule : Schedule
  pending : NameSet
  seats : List Seat

/-- The pending packages after a pass: unless it succeeded, what it drained is back. -/
def Pending.closed (pending : NameSet) (drained : Option Drained) (status : Status) : NameSet :=
  match drained with
  | some pass => if status = .success then pending else pending.union (NameSet.ofList pass.packages)
  | none => pending

theorem Pending.mem_closed {pending : NameSet} {drained : Option Drained} {status : Status}
    {x : String} : x ∈ closed pending drained status ↔
      x ∈ pending ∨ (status ≠ .success ∧ ∃ pass, drained = some pass ∧ x ∈ pass.packages) := by
  cases drained with
  | none => simp [closed]
  | some pass =>
    rw [closed]
    split
    · rename_i h
      simp [h]
    · rename_i h
      simp [h]

namespace Chronicle

/-- The parts of the state that the chronicle is read from. -/
def parts : Footprint :=
  [.notices .transports, .notices .observers, .processed, .schedule, .pending, .tasks]

/-- The transport took the data of a package at some time. -/
def take (b : Chronicle) (now : Int) : Option Entry → Chronicle
  | none => b
  | some e =>
    { b with
      processed := if e.package = metadataPackage then b.processed else b.processed.insert e.package
      schedule := if e.mode = .full then b.schedule.enqueue e.package now else b.schedule }

/-- A call was made to a transport. -/
def ask (b : Chronicle) (transport : String) (calls : List TransportCall) : Chronicle :=
  { b with calls := b.calls ++ calls.map (transport, ·) }

/-- Observers were told something. -/
def tell (b : Chronicle) (said : List Device.Notice) : Chronicle :=
  { b with told := b.told ++ said }

/-- A pass stands at another place. -/
def stand (b : Chronicle) (c : Charter) (standing : Standing) : Chronicle :=
  { b with
    seats := b.seats.map fun other => if other.number = c.number then c.seat standing else other }

/-- A pass goes on or ends. -/
def proceed (b : Chronicle) (c : Charter) : Outlook → Chronicle
  | .goesOn standing => b.stand c standing
  | .ends standing status =>
    { b.stand c { standing with stage := .closing status } with
      pending := Pending.closed b.pending c.drained status }
  | .departs status =>
    { b.tell (System.finishedNotice c.observer status) with
      seats := b.seats.filter (fun e => e.number ≠ c.number) }

/-- A pass made a step at some time. -/
def record (b : Chronicle) (c : Charter) (now : Int) (d : Stride) : Chronicle :=
  (((b.take now d.taken).ask c.transport d.calls).tell
    (d.result.toList.flatMap fun result =>
      System.resultNotice c.observer result.1 result.2)).proceed c d.outlook

@[simp] theorem ask_nil (b : Chronicle) (transport : String) : b.ask transport [] = b := by
  simp [ask]

@[simp] theorem tell_nil (b : Chronicle) : b.tell [] = b := by
  simp [tell]

end Chronicle

namespace System

/-- The chronicle of the engine. -/
def chronicle (s : System) : Chronicle where
  calls := (s.device.log.filterMap Device.Notice.call?).reverse
  told := (s.device.log.filter Device.Notice.isTold).reverse
  processed := s.engine.processed.packages
  schedule := s.engine.schedule
  pending := s.engine.pending.packages
  seats := s.engine.tasks.map Task.seat

/-- Transports were asked nothing. -/
theorem Within.log_calls {s s' : System} {parts : Footprint} (h : s.Within parts s')
    (hparts : .notices .transports ∉ parts) :
    s'.device.log.filterMap Device.Notice.call? = s.device.log.filterMap Device.Notice.call? :=
  h.log_filterMap hparts fun notice hother => by
    cases notice <;> first | rfl | exact absurd rfl hother

/-- What keeps away from its parts leaves the chronicle as it is. -/
theorem Within.chronicle {s s' : System} {parts : Footprint} (h : s.Within parts s')
    (hparts : ∀ p ∈ Chronicle.parts, p ∉ parts) : s'.chronicle = s.chronicle := by
  have hcalls := h.log_calls (hparts _ (by decide))
  have htold := h.log_told (hparts _ (by decide))
  have hprocessed : s'.engine.processed.packages = s.engine.processed.packages :=
    h.same .processed (hparts _ (by decide))
  have hschedule : s'.engine.schedule = s.engine.schedule := h.same .schedule (hparts _ (by decide))
  have hpending : s'.engine.pending = s.engine.pending := h.same .pending (hparts _ (by decide))
  have htasks : s'.engine.tasks = s.engine.tasks := h.same .tasks (hparts _ (by decide))
  simp only [System.chronicle, hcalls, htold, hprocessed, hschedule, hpending, htasks]

/-! ### Small changes -/

theorem note_chronicle (s : System) {notice : Device.Notice} (h : notice.isTold = false)
    (h' : notice.call? = none) : (s.note notice).chronicle = s.chronicle := by
  simp only [chronicle, note, Device.note, List.filter_cons, h, Bool.false_eq_true, if_false,
    List.filterMap_cons, h']

@[simp] theorem note_agent_chronicle (s : System) (package : String) (notice : AgentNotice) :
    (s.note (.agent package notice)).chronicle = s.chronicle := s.note_chronicle rfl rfl

theorem note_transport_chronicle (s : System) (name : String) (call : TransportCall) :
    (s.note (.transport name call)).chronicle = s.chronicle.ask name [call] := by
  simp [chronicle, note, Device.note, Device.Notice.isTold, Device.Notice.call?, Chronicle.ask]

theorem note_told_chronicle (s : System) {notice : Device.Notice} (h : notice.isTold = true)
    (h' : notice.call? = none) : (s.note notice).chronicle = s.chronicle.tell [notice] := by
  simp only [chronicle, note, Device.note, List.filter_cons, h, if_true, List.filterMap_cons, h',
    List.reverse_cons, Chronicle.tell]

theorem tellResult_chronicle (s : System) (observer : Option String) (package : String)
    (status : Status) :
    (s.tellResult observer package status).chronicle =
      s.chronicle.tell (resultNotice observer package status) := by
  cases observer with
  | none => exact (Chronicle.tell_nil _).symm
  | some id => exact s.note_told_chronicle rfl rfl

theorem tellFinished_chronicle (s : System) (observer : Option String) (status : Status) :
    (s.tellFinished observer status).chronicle =
      s.chronicle.tell (finishedNotice observer status) := by
  cases observer with
  | none => exact (Chronicle.tell_nil _).symm
  | some id => exact s.note_told_chronicle rfl rfl

@[simp] theorem post_chronicle (s : System) (command : Command) :
    (s.post command).chronicle = s.chronicle := by
  unfold post
  split <;> rfl

@[simp] theorem scheduleKeyValueJob_chronicle (s : System) :
    s.scheduleKeyValueJob.chronicle = s.chronicle :=
  s.scheduleKeyValueJob_within.chronicle (by decide)

@[simp] theorem requestScheduleWrite_chronicle (s : System) :
    s.requestScheduleWrite.chronicle = s.chronicle :=
  s.requestScheduleWrite_within.chronicle (by decide)

@[simp] theorem heedInit_chronicle (s : System) (t : Task) :
    (s.heedInit t).chronicle = s.chronicle := (s.heedInit_within t).chronicle (by decide)

@[simp] theorem dropToken_chronicle (s : System) (t : Task) :
    (s.dropToken t).chronicle = s.chronicle := (s.dropToken_within t).chronicle (by decide)

@[simp] theorem dispose_chronicle (s : System) (lease : Option Lease) :
    (s.dispose lease).chronicle = s.chronicle := (s.dispose_within lease).chronicle (by decide)

@[simp] theorem writeMetadata_chronicle (s : System) (transport : String) :
    (s.writeMetadata transport).chronicle = s.chronicle :=
  (s.writeMetadata_within transport).chronicle (by decide)

@[simp] theorem tearDown_chronicle (s : System) (p : Package) :
    (s.tearDown p).chronicle = s.chronicle := (s.tearDown_within p).chronicle (by decide)

/-- What is pending after a pass was closed. -/
theorem closeDrained_chronicle (s : System) (drained : Option Drained) (status : Status) :
    (s.closeDrained drained (status == .success)).chronicle =
      { s.chronicle with pending := Pending.closed s.chronicle.pending drained status } := by
  cases drained with
  | none => rfl
  | some pass =>
    have hpending : (s.engine.pending.finish pass (status == .success) s.disk).1.packages =
        Pending.closed s.engine.pending.packages (some pass) status := by
      refine NameSet.ext fun x => ?_
      by_cases hstatus : status = .success
      · simp [Pending.finish, Pending.closed, hstatus]
      · simp [Pending.finish, Pending.closed, hstatus, Pending.mem_restage]
    rw [← show _ = Pending.closed s.chronicle.pending (some pass) status from hpending]
    rfl

/-- Packages that are recorded twice, and the metadata, change nothing. -/
theorem recordProcessed_chronicle (s : System) (package : String) :
    (s.recordProcessed package).chronicle =
      { s.chronicle with
        processed :=
          if package = metadataPackage then s.chronicle.processed
          else s.chronicle.processed.insert package } := by
  have hadd : (s.engine.processed.add package s.disk).2.1.packages =
      if package = metadataPackage then s.engine.processed.packages
      else s.engine.processed.packages.insert package := by
    unfold Processed.add
    by_cases hmeta : package = metadataPackage
    · simp [hmeta]
    · by_cases hhas : s.engine.processed.has package = true
      · have hmem : package ∈ s.engine.processed.packages := NameSet.contains_eq.1 hhas
        have hsame : s.engine.processed.packages.insert package = s.engine.processed.packages :=
          NameSet.ext fun x => by
            rw [NameSet.mem_insert]
            exact ⟨fun h => h.elim (fun heq => heq ▸ hmem) id, .inr⟩
        simp [hmeta, hhas, hsame]
      · simp [hmeta, hhas]
  rw [← show _ = (if package = metadataPackage then s.chronicle.processed
    else s.chronicle.processed.insert package) from hadd]
  rfl

theorem enqueueFull_chronicle (s : System) (package : String) (lastBackup : Int) :
    (s.enqueueFull package lastBackup).chronicle =
      { s.chronicle with schedule := s.chronicle.schedule.enqueue package lastBackup } := by
  rw [enqueueFull, requestScheduleWrite_chronicle]
  rfl

/-- The call after a first commit. -/
def datasetCalls (s : System) (reply : Device.Reply) : List TransportCall :=
  if reply = .ok .ok ∧ s.engine.datasets.current = 0 then [.currentRestoreSet] else []

theorem datasetCalls_eq (s : System) (reply : Device.Reply) :
    s.datasetCalls reply = if s.wantsDataset reply then [.currentRestoreSet] else [] := by
  simp only [datasetCalls, ← wantsDataset_iff]

/-- The dataset that a pass wrote is no part of the chronicle. -/
@[simp] theorem storeDataset_chronicle (s : System) (transport : String) :
    (s.storeDataset transport).chronicle = s.chronicle :=
  (s.storeDataset_within transport).chronicle (by decide)

/-- A token is drawn from the device's random words, which nobody sees. -/
@[simp] theorem freshToken_chronicle (s : System) : s.freshToken.2.chronicle = s.chronicle :=
  s.freshToken_within.chronicle (by decide)

/-- Canceling an operation leaves every entry of a task as it was. -/
theorem cancelOperation_chronicle {s : System} (hs : s.Distinct) (token : OpToken) :
    (s.cancelOperation token).chronicle = s.chronicle := by
  obtain ⟨keys, -, hledger⟩ := cancelOperation_ledger hs token
  have hseats : (s.cancelOperation token).chronicle.seats = s.chronicle.seats :=
    congrArg Ledger.seats hledger
  have hrest : (s.cancelOperation token).chronicle =
      { s.chronicle with seats := (s.cancelOperation token).chronicle.seats } := by
    unfold cancelOperation
    simp only
    split
    · split
      · split <;> rfl
      · rfl
    · rfl
    · rfl
  rw [hrest, hseats]

/-! ### Tasks -/

section Tasks

variable {s : System} {t : Task} {c : Charter} {p : Standing}

theorem transport_of_seat (ht : t.seat = c.seat p) : t.transport = c.transport := by
  have hlease : t.lease = c.lease := congrArg Seat.lease ht
  unfold Task.transport Charter.transport
  cases hsome : c.lease <;> simp [hlease, hsome]

theorem setTask_chronicle (s : System) (ht : t.seat = c.seat p) :
    (s.setTask t).chronicle = s.chronicle.proceed c (.goesOn p) := by
  have hseats := congrArg Ledger.seats (s.setTask_ledger t)
  rw [ht] at hseats
  have hrest : (s.setTask t).chronicle =
      { s.chronicle with seats := (s.setTask t).ledger.seats } := rfl
  rw [hrest, hseats]
  rfl

theorem moveTo_chronicle (s : System) (ht : t.seat = c.seat p) (stage : Stage) :
    (s.moveTo t stage).chronicle = s.chronicle.proceed c (.goesOn { p with stage }) := by
  refine s.setTask_chronicle ?_
  show { t.seat with stage } = _
  rw [ht]
  rfl

theorem call_chronicle (s : System) (ht : t.seat = c.seat p) (call : TransportCall) :
    (s.call t call).chronicle =
      (s.chronicle.ask c.transport [call]).proceed c
        (.goesOn { p with stage := .calling call }) := by
  rw [System.call, moveTo_chronicle _ ht, note_transport_chronicle, transport_of_seat ht]

theorem dropTask_chronicle (s : System) (number : Nat) :
    (s.dropTask number).chronicle =
      { s.chronicle with seats := s.chronicle.seats.filter (fun e => e.number ≠ number) } := by
  have hseats := congrArg Ledger.seats (s.dropTask_ledger number)
  have hrest : (s.dropTask number).chronicle =
      { s.chronicle with seats := (s.dropTask number).ledger.seats } := rfl
  rw [hrest, hseats]
  rfl

/-- A pass closes what it drained and announces its end. -/
theorem endKeyValue_chronicle (s : System) (ht : t.seat = c.seat p) (status : Status) :
    (s.endKeyValue t c.drained status).chronicle = s.chronicle.proceed c (.ends p status) := by
  rw [endKeyValue, moveTo_chronicle _ ht, post_chronicle, closeDrained_chronicle,
    heedInit_chronicle]
  rfl

/-- A pass that has announced its end tells its observer and is gone. -/
theorem closeKeyValue_chronicle (s : System) (ht : t.seat = c.seat p) (status : Status) :
    (s.closeKeyValue t c.observer status).chronicle = s.chronicle.proceed c (.departs status) := by
  have hnumber : t.number = c.number := congrArg Seat.number ht
  have hjob : ∀ s : System,
      (if status = .success ∨ status = .cancelled then s else s.scheduleKeyValueJob).chronicle =
        s.chronicle := by
    intro s
    split
    · rfl
    · exact s.scheduleKeyValueJob_chronicle
  have hwake : ∀ s : System, s.releaseWake.chronicle = s.chronicle := fun _ => rfl
  simp only [closeKeyValue, dropTask_chronicle, dispose_chronicle, hwake, hjob,
    dropToken_chronicle, tellFinished_chronicle, hnumber]
  rfl

/-- A package is done: its observer is told, and the pass goes on or breaks off. -/
theorem packageDone_chronicle (s : System) (ht : t.seat = c.seat p) (package : String)
    (status : Status) (now : Int) :
    (s.packageDone t c.drained c.observer package status).chronicle =
      s.chronicle.record c now (.done package status p) := by
  have hrecord : s.chronicle.record c now (.done package status p) =
      (s.tellResult c.observer package status).chronicle.proceed c (.after status p) := by
    rw [tellResult_chronicle]
    simp [Chronicle.record, Chronicle.take, Stride.done]
  rw [hrecord, packageDone, Outlook.after]
  split
  · exact endKeyValue_chronicle _ ht status
  · exact moveTo_chronicle _ ht .choosing

theorem visitFailed_chronicle (s : System) (ht : t.seat = c.seat p) (v : Visit) (status : Status)
    (now : Int) :
    (s.visitFailed t v status).chronicle =
      s.chronicle.record c now (.done v.package.name status p) := by
  have hjob : t.job = (c.seat p).job := congrArg Seat.job ht
  unfold visitFailed
  rw [hjob]
  exact s.packageDone_chronicle ht v.package.name status now

/-- The wait for an agent is registered. -/
theorem prepare_chronicle (s : System) (ht : t.seat = c.seat p) (v : Visit) :
    (s.prepare t v).chronicle =
      s.chronicle.proceed c (.goesOn { p with stage := .prepared v s.freshToken.1 }) := by
  have ht' : ∀ agentToken, Task.seat { t with agentToken } = c.seat p := fun _ => ht
  have hfresh := s.freshToken_chronicle
  unfold prepare
  simp only
  rw [moveTo_chronicle _ (ht' _), ← hfresh]
  rfl

/-- The pass looks whether it was canceled. -/
theorem heedCancel_chronicle (hs : s.Distinct) (ht : t.seat = c.seat p) (v : Visit)
    (token : OpToken) :
    (s.heedCancel t v token).chronicle =
      s.chronicle.proceed c (.goesOn { p with
        stage := if t.canceled then .working v token else .starting v token }) := by
  unfold heedCancel
  split
  · rw [moveTo_chronicle _ ht, cancelOperation_chronicle hs]
  · exact moveTo_chronicle _ ht _

/-- An agent is given its work. -/
theorem giveWork_chronicle (s : System) (ht : t.seat = c.seat p) (v : Visit) (token : OpToken) :
    (s.giveWork t v token).chronicle =
      s.chronicle.proceed c (.goesOn { p with stage := .working v token }) := by
  have hnote := s.note_agent_chronicle v.package.name (workNotice t v.mode)
  unfold giveWork
  simp only
  rw [moveTo_chronicle _ ht, ← hnote]
  rfl

/-! ### Stages -/

/-- A step that makes no call and finishes no package. -/
theorem record_quiet (b : Chronicle) (c : Charter) (now : Int) (outlook : Outlook) :
    b.record c now { outlook } = b.proceed c outlook := by
  simp [Chronicle.record, Chronicle.take]

/-- A step that makes calls and finishes no package. -/
theorem record_calls (b : Chronicle) (c : Charter) (now : Int) (calls : List TransportCall)
    (outlook : Outlook) :
    b.record c now { calls, outlook } = (b.ask c.transport calls).proceed c outlook := by
  simp [Chronicle.record, Chronicle.take]

theorem stepTask_opening (s : System) (ht : t.seat = c.seat p) (hstage : p.stage = .opening) :
    (s.stepTask t).chronicle =
      s.chronicle.record c s.now
        { outlook :=
            if s.engine.transports.isInitPending c.transport then .ends p .transportAborted
            else .goesOn { p with stage := .choosing } } := by
  have hstage' : t.stage = .opening := (congrArg Seat.stage ht).trans hstage
  have hjob : t.job = (c.seat p).job := congrArg Seat.job ht
  unfold stepTask openTask
  rw [hstage', hjob, record_quiet]
  simp only [Charter.seat]
  rw [transport_of_seat ht]
  by_cases hinit : s.engine.transports.isInitPending c.transport = true
  · rw [if_pos hinit,
      if_pos (show s.acquireWake.engine.transports.isInitPending _ = true from hinit)]
    exact endKeyValue_chronicle _ ht _
  · rw [if_neg hinit,
      if_neg (show ¬ s.acquireWake.engine.transports.isInitPending _ = true from hinit)]
    exact moveTo_chronicle _ ht _

/-- The choice of the next package, or of the commit. -/
theorem stepTask_chooses (s : System) (ht : t.seat = c.seat p) (hstage : p.stage = .choosing) :
    s.stepTask t =
      s.chooseKeyValue t c.drained p.keyValue p.full c.observer c.nonIncremental := by
  have hstage' : t.stage = .choosing := (congrArg Seat.stage ht).trans hstage
  have hjob : t.job = (c.seat p).job := congrArg Seat.job ht
  unfold stepTask choose
  rw [hstage', hjob]
  rfl

/-- With no package left the pass is committed. -/
theorem stepTask_commit (s : System) (ht : t.seat = c.seat p) (hstage : p.stage = .choosing)
    (hentries : p.entries = []) :
    (s.stepTask t).chronicle =
      s.chronicle.record c s.now
        { calls := [.finishBackup]
          outlook := .goesOn { p with stage := .calling .finishBackup } } := by
  obtain ⟨keyValue, full, stage⟩ := p
  simp only [Standing.entries, List.append_eq_nil_iff, List.map_eq_nil_iff] at hentries
  obtain ⟨rfl, rfl⟩ := hentries
  rw [stepTask_chooses s ht hstage, record_calls]
  exact s.call_chronicle ht .finishBackup

/-- A canceled pass ends before its next package. -/
theorem stepTask_breaksOff (s : System) (ht : t.seat = c.seat p) (hstage : p.stage = .choosing)
    (hentries : p.entries ≠ []) (hcanceled : t.canceled = true) :
    s.stepTask t = s.endKeyValue t c.drained .cancelled := by
  rw [stepTask_chooses s ht hstage]
  unfold chooseKeyValue
  split
  · rename_i hkeyValue hfull
    exact absurd (by simp [Standing.entries, hkeyValue, hfull]) hentries
  · rw [if_pos hcanceled]
  · rw [if_pos hcanceled]

theorem stepTask_canceled (s : System) (ht : t.seat = c.seat p) (hstage : p.stage = .choosing)
    (hentries : p.entries ≠ []) (hcanceled : t.canceled = true) :
    (s.stepTask t).chronicle = s.chronicle.record c s.now { outlook := .ends p .cancelled } := by
  rw [s.stepTask_breaksOff ht hstage hentries hcanceled, record_quiet]
  exact s.endKeyValue_chronicle ht .cancelled

/-- The agent of a package is brought up, or the package is done already. -/
theorem visit_or_done (s : System) (ht : t.seat = c.seat p) (e : Entry)
    (hmeta : e.isMetadata = false) :
    (match s.device.package? e.package with
      | none => s.packageDone t c.drained c.observer e.package .packageNotFound
      | some q =>
        if e.admits q then s.visit t ⟨q, e.mode⟩
        else s.packageDone t c.drained c.observer e.package .packageNotEligible).chronicle =
      s.chronicle.record c s.now (e.chosen c.nonIncremental (s.device.package? e.package)
        s.engine.binder.nextTicket p) := by
  unfold Entry.chosen
  rw [if_neg (by rw [hmeta]; decide)]
  cases s.device.package? e.package with
  | none => exact s.packageDone_chronicle ht _ _ _
  | some q =>
    by_cases hadmits : e.admits q = true
    · simp only [if_pos hadmits]
      rw [record_quiet]
      exact moveTo_chronicle _ ht _
    · simp only [if_neg hadmits]
      exact s.packageDone_chronicle ht _ _ _

/-- The next package is taken. -/
theorem stepTask_choosing (s : System) (ht : t.seat = c.seat p) (hstage : p.stage = .choosing)
    {e : Entry} {rest : List Entry} (hentries : p.entries = e :: rest)
    (hcanceled : t.canceled = false) :
    (s.stepTask t).chronicle =
      s.chronicle.record c s.now (e.chosen c.nonIncremental (s.device.package? e.package)
        s.engine.binder.nextTicket p.rest) := by
  have hnot : ¬ t.canceled = true := by simp [hcanceled]
  rw [stepTask_chooses s ht hstage]
  obtain ⟨keyValue, full, stage⟩ := p
  have ht' : ∀ kv rest,
      Task.seat { t with job := .keyValue c.drained kv rest c.observer c.nonIncremental } =
        c.seat ⟨kv, rest, stage⟩ := by
    intro kv rest
    show Seat.mk t.seat.number _ t.seat.stage t.seat.lease t.seat.token = _
    rw [ht]
    rfl
  cases keyValue with
  | cons package keyValue =>
    obtain ⟨rfl, -⟩ := List.cons.inj hentries
    unfold chooseKeyValue
    simp only [if_neg hnot, Standing.rest]
    by_cases hmeta : package = metadataPackage
    · have hentry : (Entry.mk package .incremental).isMetadata = true := by
        simp [Entry.isMetadata, hmeta]
      unfold Entry.chosen
      rw [if_pos hmeta, if_pos hentry, record_calls]
      exact s.call_chronicle (ht' keyValue full) _
    · have hentry : (Entry.mk package .incremental).isMetadata = false := by
        simp [Entry.isMetadata, hmeta]
      rw [if_neg hmeta]
      exact s.visit_or_done (ht' keyValue full) _ hentry
  | nil =>
    cases full with
    | nil => cases hentries
    | cons package full =>
      obtain ⟨rfl, -⟩ := List.cons.inj hentries
      unfold chooseKeyValue
      simp only [if_neg hnot, Standing.rest]
      exact s.visit_or_done (ht' [] full) ⟨package, .full⟩ rfl

/-- Whether the host accepts to bring up the agent of a package. -/
def hostAccepts (s : System) (v : Visit) : Bool :=
  (hostReacts (s.device.behaviour v.package.name) v.package.name
    (s.engine.binder.await v.package.name)).1

theorem stepTask_queued (s : System) (ht : t.seat = c.seat p) {v : Visit} {ticket : Nat}
    (hstage : p.stage = .queued v ticket) :
    (s.stepTask t).chronicle =
      s.chronicle.record c s.now
        (if s.hostAccepts v then { outlook := .goesOn { p with stage := .binding v ticket } }
          else .done v.package.name .agentFailure p) := by
  have hstage' : t.stage = .queued v ticket := (congrArg Seat.stage ht).trans hstage
  have hnote := s.note_agent_chronicle v.package.name (.bind v.mode)
  unfold stepTask askHost hostAccepts
  simp only [hstage']
  -- the notice changes neither the agent's behaviour nor the line of binds
  show System.chronicle (if (hostReacts (s.device.behaviour v.package.name) v.package.name
    (s.engine.binder.await v.package.name)).1 = true then _ else _) = _
  generalize hostReacts _ _ _ = reaction
  obtain ⟨accepted, binder⟩ := reaction
  cases accepted with
  | true =>
    simp only [if_true]
    rw [moveTo_chronicle _ ht, record_quiet]
    congr 1
    split
    · exact hnote
    · exact hnote
  | false =>
    simp only [Bool.false_eq_true, if_false]
    rw [visitFailed_chronicle _ ht _ _ s.now]
    congr 1

theorem stepTask_binding (s : System) (ht : t.seat = c.seat p) {v : Visit} {ticket : Nat}
    (hstage : p.stage = .binding v ticket) :
    ∃ token, (s.stepTask t).chronicle =
      s.chronicle.record c s.now
        (if s.engine.binder.arrival = some (.connected ()) then
            { outlook := .goesOn { p with stage := .prepared v token } }
          else .done v.package.name .agentFailure p) := by
  have hstage' : t.stage = .binding v ticket := (congrArg Seat.stage ht).trans hstage
  let left := s.onEngine fun e => { e with binder := e.binder.leave }
  have hleft : left.chronicle = s.chronicle := rfl
  refine ⟨left.freshToken.1, ?_⟩
  unfold stepTask meetAgent
  simp only [hstage']
  cases s.engine.binder.arrival with
  | none =>
    rw [if_neg (by decide), ← hleft]
    exact left.visitFailed_chronicle ht v _ _
  | some arrival =>
    cases arrival with
    | connected =>
      rw [if_pos rfl, record_quiet]
      exact left.prepare_chronicle ht v
    | disconnected =>
      rw [if_neg (by decide), ← hleft]
      exact left.visitFailed_chronicle ht v _ _
    | timedOut =>
      rw [if_neg (by decide), ← hleft, ← left.note_chronicle
        (rfl : Device.Notice.clearPending.isTold = false) rfl]
      exact (left.note .clearPending).visitFailed_chronicle ht v _ _

theorem stepTask_prepared (hs : s.Distinct) (ht : t.seat = c.seat p) {v : Visit} {token : OpToken}
    (hstage : p.stage = .prepared v token) :
    (s.stepTask t).chronicle =
      s.chronicle.record c s.now
        { outlook := .goesOn { p with
            stage := if t.canceled then .working v token else .starting v token } } := by
  have hstage' : t.stage = .prepared v token := (congrArg Seat.stage ht).trans hstage
  unfold stepTask
  simp only [hstage']
  rw [record_quiet]
  exact heedCancel_chronicle hs ht v token

theorem stepTask_starting (s : System) (ht : t.seat = c.seat p) {v : Visit} {token : OpToken}
    (hstage : p.stage = .starting v token) :
    (s.stepTask t).chronicle =
      s.chronicle.record c s.now { outlook := .goesOn { p with stage := .working v token } } := by
  have hstage' : t.stage = .starting v token := (congrArg Seat.stage ht).trans hstage
  unfold stepTask
  simp only [hstage']
  rw [record_quiet]
  exact s.giveWork_chronicle ht v token

theorem stepTask_working (s : System) (ht : t.seat = c.seat p) {v : Visit} {token : OpToken}
    (hstage : p.stage = .working v token) :
    (s.stepTask t).chronicle =
      s.chronicle.record c s.now
        (if (s.engine.ops.wait token).1 = some true then
            { calls := [Entry.call ⟨v.package.name, v.mode⟩ c.nonIncremental]
              outlook := .goesOn { p with
                stage := .calling (Entry.call ⟨v.package.name, v.mode⟩ c.nonIncremental) } }
          else .done v.package.name (if t.canceled then .cancelled else .agentFailure) p) := by
  obtain ⟨number, job, stage, lease, key, canceled, agentToken, needsInit⟩ := t
  obtain rfl : job = (c.seat p).job := congrArg Seat.job ht
  obtain rfl : stage = .working v token := (congrArg Seat.stage ht).trans hstage
  have ht' : Task.seat ⟨number, (c.seat p).job, .working v token, lease, key, canceled, none,
    needsInit⟩ = c.seat p := ht
  have hdown := (s.onEngine fun e =>
    { e with ops := (s.engine.ops.wait token).2 }).tearDown_chronicle v.package
  unfold stepTask collectWork
  simp only
  generalize (s.onEngine fun e => { e with ops := _ }).tearDown v.package = s' at hdown ⊢
  have hdown' : s'.chronicle = s.chronicle := hdown
  by_cases hdone : (s.engine.ops.wait token).1 = some true
  · rw [if_pos hdone, if_pos hdone, record_calls, ← hdown']
    cases v.mode <;> exact s'.call_chronicle ht' _
  · rw [if_neg hdone, if_neg hdone, ← hdown']
    exact s'.visitFailed_chronicle ht' v _ _

/-- The package that the transport took, by its answer. -/
def takenBy (reply : Device.Reply) (e : Entry) : Option Entry :=
  if reply = .ok .ok then some e else none

/-- What the stores gain when a transport has answered for a package. -/
theorem stored_chronicle (s s' : System) (e : Entry) (reply : Device.Reply)
    (hs' : s'.chronicle = s.chronicle.take s.now (some e)) :
    (if Status.ofReply reply = .success then s' else s).chronicle =
      s.chronicle.take s.now (takenBy reply e) := by
  rw [takenBy]
  by_cases hreply : reply = .ok .ok
  · rw [if_pos hreply, if_pos (ofReply_eq_success.2 hreply), hs']
  · rw [if_neg hreply, if_neg fun h => hreply (ofReply_eq_success.1 h)]
    rfl

/-- What a transport's answer does for a pass. An accepted commit is followed by the question
which dataset was written, unless that is known. -/
theorem stepTask_calling (s : System) (ht : t.seat = c.seat p) {call : TransportCall}
    (hstage : p.stage = .calling call) (hcall : call ≠ .currentRestoreSet) {reply : Device.Reply}
    (hreply : (s.device.answer c.transport call).1 = reply) :
    (s.stepTask t).chronicle =
      s.chronicle.record c s.now
        (match call.payload? with
          | some e =>
            { Stride.done e.package (Status.ofReply reply) p with taken := takenBy reply e }
          | none =>
            if s.wantsDataset reply then
              { calls := [.currentRestoreSet]
                outlook := .goesOn { p with stage := .calling .currentRestoreSet } }
            else { outlook := .ends p (commitStatus reply) }) := by
  have hstage' : t.stage = .calling call := (congrArg Seat.stage ht).trans hstage
  have hjob : t.job = (c.seat p).job := congrArg Seat.job ht
  have ht' : (t.heed reply).seat = c.seat p := (heed_seat t reply).trans ht
  -- the answer uses up a line of the script and nothing else
  let answered : System := { s with device := (s.device.answer c.transport call).2 }
  have hstep : s.stepTask t = answered.replyKeyValue t c.drained c.observer call reply := by
    have htake : s.stepTask t = s.takeReply t call := by
      unfold stepTask
      rw [hstage']
      cases call <;> first | rfl | exact absurd rfl hcall
    rw [htake, takeReply, transport_of_seat ht]
    simp only [hreply, hjob]
    rfl
  have hdone : ∀ (stored : System) (e : Entry),
      stored.chronicle = answered.chronicle.take answered.now (takenBy reply e) →
      (stored.packageDone (t.heed reply) c.drained c.observer e.package
        (Status.ofReply reply)).chronicle =
        s.chronicle.record c s.now
          { Stride.done e.package (Status.ofReply reply) p with taken := takenBy reply e } := by
    intro stored e hstored
    rw [stored.packageDone_chronicle ht' _ _ s.now, hstored]
    rfl
  rw [hstep]
  unfold replyKeyValue
  cases call with
  | performBackup package nonIncremental =>
    refine hdone _ ⟨package, .incremental⟩ (stored_chronicle answered _ _ reply ?_)
    by_cases hmeta : package = metadataPackage
    · rw [if_pos hmeta, writeMetadata_chronicle]
      simp [Chronicle.take, hmeta]
    · rw [if_neg hmeta, recordProcessed_chronicle]
      rfl
  | performFullBackup package =>
    refine hdone _ ⟨package, .full⟩ (stored_chronicle answered _ _ reply ?_)
    rw [enqueueFull_chronicle, recordProcessed_chronicle]
    rfl
  | currentRestoreSet => exact absurd rfl hcall
  | restoreSets | initializeDevice | finishBackup | clearBackupData _ | startRestore _ _
  | finishRestore =>
    simp only [TransportCall.payload?]
    by_cases hwants : s.wantsDataset reply = true
    · rw [if_pos (show answered.wantsDataset reply = true from hwants), if_pos hwants,
        record_calls]
      exact answered.call_chronicle ht' _
    · rw [if_neg (show ¬ answered.wantsDataset reply = true from hwants), if_neg hwants,
        record_quiet]
      exact answered.endKeyValue_chronicle ht' _

/-- A pass that asked which dataset it wrote is done, whatever the answer. -/
theorem stepTask_dataset (s : System) (ht : t.seat = c.seat p)
    (hstage : p.stage = .calling .currentRestoreSet) :
    (s.stepTask t).chronicle = s.chronicle.record c s.now { outlook := .ends p .success } := by
  have hstage' : t.stage = .calling .currentRestoreSet := (congrArg Seat.stage ht).trans hstage
  have hjob : t.job = (c.seat p).job := congrArg Seat.job ht
  unfold stepTask takeDataset
  rw [hstage', hjob, record_quiet, ← s.storeDataset_chronicle t.transport]
  exact endKeyValue_chronicle _ ht .success

theorem stepTask_closing (s : System) (ht : t.seat = c.seat p) {status : Status}
    (hstage : p.stage = .closing status) :
    (s.stepTask t).chronicle = s.chronicle.record c s.now { outlook := .departs status } := by
  have hstage' : t.stage = .closing status := (congrArg Seat.stage ht).trans hstage
  have hjob : t.job = (c.seat p).job := congrArg Seat.job ht
  unfold stepTask closeTask
  rw [hstage', hjob, record_quiet]
  exact s.closeKeyValue_chronicle ht status

end Tasks

end System

end Holdfast
