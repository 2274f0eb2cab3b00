import Holdfast.Proofs.Engine.Ledger

/-!
# What one step of a task does to the books

A task takes its wake lock in its first step and collects what its agent did when it stood
waiting for one (`Ledger.arrive`). Then it goes on to another stage, or it ends and gives
everything back (`Ledger.finish`). A pass winds down in several steps: a key-value pass first
announces its end to the loop, and a full backup first puts its package back into the schedule and
then gives up its place.

- `Ledger.Turn`: everything that a step can do;
- `System.stepTask_turn`: **each step of a ready task is of this kind**, whatever the task does
  and however transports and agents answer.
-/

namespace Holdfast

/-- What a task does, without how far it has come. -/
def Job.kind : Job → Pass.Kind
  | .keyValue _ _ _ _ _ => .keyValue
  | .full _ _ => .full
  | .wipe _ _ _ => .wipe
  | .clearData _ => .clearData
  | .restore _ _ => .restore

/-- Who is told of the results of a task. -/
def Job.observer : Job → Option String
  | .keyValue _ _ _ observer _ | .wipe _ observer _ => observer
  | .full _ _ | .clearData _ | .restore _ _ => none

/-- Results of packages that one observer was told. -/
def Device.AreResults (observer : Option String) (said : List Device.Notice) : Prop :=
  ∀ notice ∈ said, ∃ id package status, notice = .result id package status ∧ observer = some id

theorem Device.AreResults.append {observer : Option String} {said said' : List Device.Notice}
    (h : AreResults observer said) (h' : AreResults observer said') :
    AreResults observer (said ++ said') := by
  intro notice hmem
  rcases List.mem_append.1 hmem with hmem | hmem
  · exact h notice hmem
  · exact h' notice hmem

theorem System.areResults_result (observer : Option String) (package : String) (status : Status) :
    Device.AreResults observer (System.resultNotice observer package status) := by
  intro notice hmem
  obtain ⟨id, hid, rfl⟩ := List.mem_map.1 hmem
  exact ⟨id, package, status, rfl, Option.mem_toList.1 hid⟩

/-- Whether a task that has begun stands at a stage with no agent at work, and not near its end. -/
def Stage.isBetween : Stage → Bool
  | .choosing | .queued _ _ | .binding _ _ | .calling _ => true
  | .opening | .prepared _ _ | .starting _ _ | .working _ _ | .closing _ | .leaving | .fallen =>
    false

/-- Whether a pass is done with its packages and has said so. -/
def Stage.isClosing : Stage → Bool
  | .closing _ => true
  | _ => false

/-- Whether a full backup has given up its place. -/
def Stage.isLeaving : Stage → Bool
  | .leaving => true
  | _ => false

/-- Whether a task stands at a stage from which a step may lead anywhere: not while its agent is
being given work, and not near its end. -/
def Stage.isOpen : Stage → Bool
  | .opening | .working _ _ => true
  | stage => stage.isBetween

theorem Stage.isOpen_of_between {stage : Stage} (h : stage.isBetween = true) :
    stage.isOpen = true := by
  unfold isOpen
  split
  · rfl
  · rfl
  · exact h

namespace Seat

/-- Whether a task holds the wake lock. A full backup takes it before its first step. -/
def isAwake (e : Seat) : Bool :=
  match e.stage with
  | .opening => e.job.kind == .full
  | _ => true

/-- The token under which a pass can be canceled. -/
def passKey (e : Seat) : Option OpToken :=
  match e.job.kind with
  | .keyValue | .full => e.token
  | .wipe | .clearData | .restore => none

/-- The agent at work for a task, or about to be: its package and its operation. -/
def working (e : Seat) : Option (String × OpToken) :=
  match e.stage with
  | .prepared v token | .starting v token | .working v token => some (v.package.name, token)
  | _ => none

/-- A wipe has no agents and holds no lease between two transports. Only passes wind down in several
steps, and only full backups can break down, which leaves them without a lease. -/
structure Fit (e : Seat) : Prop where
  wipe : e.job.kind = .wipe →
    (e.lease = none ∧ (e.stage = .opening ∨ e.stage = .choosing)) ∨ ∃ call, e.stage = .calling call
  closing : ∀ status, e.stage = .closing status → e.job.kind = .keyValue ∨ e.job.kind = .full
  leaving : e.stage = .leaving → e.job.kind = .full
  fallen : e.stage = .fallen → e.job.kind = .full ∧ e.lease = none

theorem Fit.lease {e : Seat} (h : e.Fit) (hkind : e.job.kind = .wipe)
    (hstage : ∀ call, e.stage ≠ .calling call) : e.lease = none := by
  rcases h.wipe hkind with ⟨hlease, -⟩ | ⟨call, hcall⟩
  · exact hlease
  · exact absurd hcall (hstage call)

/-- Where only a wipe could go wrong. -/
theorem Fit.of_stage {e : Seat}
    (hstage : e.stage.isBetween = true ∨ e.stage = .opening ∨ e.working.isSome = true)
    (hwipe : e.job.kind = .wipe →
      (e.lease = none ∧ (e.stage = .opening ∨ e.stage = .choosing)) ∨
        ∃ call, e.stage = .calling call) : e.Fit := by
  refine ⟨hwipe, ?_, ?_, ?_⟩ <;> intros <;> simp_all [Stage.isBetween, working]

/-- Two entries of one task that holds the same things in both. -/
structure Alike (e e' : Seat) : Prop where
  number : e'.number = e.number
  lease : e'.lease = e.lease
  token : e'.token = e.token
  kind : e'.job.kind = e.job.kind
  observer : e'.job.observer = e.job.observer

theorem Alike.refl (e : Seat) : Alike e e := ⟨rfl, rfl, rfl, rfl, rfl⟩

theorem Alike.trans {e e' e'' : Seat} (h : Alike e e') (h' : Alike e' e'') : Alike e e'' :=
  ⟨h'.number.trans h.number, h'.lease.trans h.lease, h'.token.trans h.token,
    h'.kind.trans h.kind, h'.observer.trans h.observer⟩

/-- A task goes on from one entry to another. -/
structure Continues (e e' : Seat) : Prop extends Alike e e' where
  between : e'.stage.isBetween = true
  fit : e'.Fit

/-- A task that is not a wipe can go on to every stage between steps. -/
theorem Alike.continues {e e' : Seat} (h : e.Alike e') {stage : Stage}
    (hstage : stage.isBetween = true) (hkind : e.job.kind ≠ .wipe) :
    e.Continues { e' with stage } :=
  ⟨⟨h.number, h.lease, h.token, h.kind, h.observer⟩, hstage,
    .of_stage (.inl hstage) fun hwipe => absurd (h.kind.symm.trans hwipe) hkind⟩

/-- A pass is done with its packages, with some status. -/
structure Closes (e : Seat) (status : Status) (e' : Seat) : Prop extends Alike e e' where
  stage : e'.stage = .closing status

/-- The last step of a pass: a key-value pass has announced its end, and a full backup has given up
its place. -/
inductive Departs (e : Seat) (status : Status) : Prop where
  | keyValue : e.job.kind = .keyValue → e.stage = .closing status → Departs e status
  | full : e.job.kind = .full → e.stage = .leaving → Departs e status

/-- Results told to the observer of a task. -/
def Reports (e : Seat) (said : List Device.Notice) : Prop := Device.AreResults e.job.observer said

theorem reports_nil (e : Seat) : e.Reports [] := fun _ h => absurd h List.not_mem_nil

theorem reports_result {e : Seat} {observer : Option String} (h : e.job.observer = observer)
    (package : String) (status : Status) :
    e.Reports (System.resultNotice observer package status) :=
  h ▸ System.areResults_result _ package status

end Seat

namespace Ledger

/-- A task begins its step: the first one takes the wake lock, and one that waited for an agent
collects its work and unbinds it. -/
def arrive (l : Ledger) (e : Seat) : Ledger :=
  match e.stage with
  | .opening => if e.job.kind = .full then l else l.acquire
  | .working v token => (l.forget (some token)).unbind v.package.name
  | _ => l

/-- A task ends and gives back what it holds. -/
def finish (l : Ledger) (e : Seat) : Ledger :=
  ((l.forget e.passKey).release.reclaim e.lease).unseat e.number

/-- How a step goes on once it has begun. -/
inductive Proceeds (l : Ledger) (e : Seat) : List Device.Notice → Ledger → Prop where
  /-- The task stands at another stage. -/
  | go {e' : Seat} {said : List Device.Notice} (k : Nat) :
    e.Continues e' → e.Reports said → Proceeds l e said ((l.later k said).reseat e')
  /-- A key-value pass is done with its packages, and the loop learns of it. -/
  | announce {e' : Seat} {said : List Device.Notice} {status : Status} (k : Nat) :
    e.job.kind = .keyValue → e.Closes status e' → e.Reports said →
    Proceeds l e said (((l.later k said).post .passFinished).reseat e')
  /-- A full backup is done with its package. -/
  | close {e' : Seat} {said : List Device.Notice} {status : Status} (k : Nat) :
    e.job.kind = .full → e.Closes status e' → e.Reports said →
    Proceeds l e said ((l.later k said).reseat e')
  /-- A full backup breaks down. -/
  | fall {e' : Seat} {said : List Device.Notice} (k : Nat) :
    e.job.kind = .full → Seat.Alike { e with lease := none } e' → e'.stage = .fallen →
    e.Reports said → Proceeds l e said (((l.later k said).reclaim e.lease).reseat e')
  /-- A task that is not a pass ends. -/
  | finish {results : List Device.Notice} (k : Nat) (status : Status) :
    e.job.kind ≠ .keyValue → e.job.kind ≠ .full → e.Reports results →
    Proceeds l e (results ++ System.finishedNotice e.job.observer status)
      ((l.later k (results ++ System.finishedNotice e.job.observer status)).finish e)

/-- Everything that a step of a task can do: who was bound in it, what was told, and the books
afterwards. -/
inductive Turn (l : Ledger) (e : Seat) : List String → List Device.Notice → Ledger → Prop where
  | proceed {said : List Device.Notice} {l' : Ledger} :
    e.stage.isOpen = true → Proceeds (l.arrive e) e said l' → Turn l e [] said l'
  /-- An agent has connected, and the wait for it is registered. -/
  | prepare {v : Visit} {ticket : Nat} {token : OpToken} {keys : List OpToken} :
    e.stage = .binding v ticket → keys ⊆ token :: l.keys →
    Turn l e [v.package.name] [] ((l.withKeys keys).reseat { e with stage := .prepared v token })
  /-- An agent is being given work. -/
  | equip {v : Visit} {token : OpToken} {stage : Stage} {keys : List OpToken} :
    e.stage = .prepared v token ∨ e.stage = .starting v token →
    stage = .starting v token ∨ stage = .working v token → keys ⊆ l.keys →
    Turn l e [] [] ((l.withKeys keys).reseat { e with stage })
  /-- A wipe leases its next transport. -/
  | borrow {e' : Seat} {lease : Lease} :
    e.lease = none → e.stage = .choosing → lease.number = l.nextLease →
    Seat.Continues { e with lease := some lease } e' →
    Turn l e [] [] ((l.lend lease).reseat e')
  /-- A wipe gives a transport back. -/
  | giveBack {e' : Seat} {said : List Device.Notice} {call : TransportCall} (k : Nat) :
    e.stage = .calling call → Seat.Continues { e with lease := none } e' → e.Reports said →
    Turn l e [] said (((l.later k said).reclaim e.lease).reseat e')
  /-- A full backup whose package is back gives up its place. -/
  | vacate {status : Status} :
    e.job.kind = .full → e.stage = .closing status →
    Turn l e [] [] ((l.endFull e.token).reseat { e with stage := .leaving })
  /-- A pass ends. -/
  | depart {status : Status} :
    e.Departs status →
    Turn l e [] (System.finishedNotice e.job.observer status)
      ((l.later 0 (System.finishedNotice e.job.observer status)).finish e)

/-- Between two steps there is nothing to take and nothing to collect. -/
theorem arrive_between (l : Ledger) {e : Seat} (h : e.stage.isBetween = true) :
    l.arrive e = l := by
  unfold arrive
  split
  · rename_i hstage
    simp [hstage, Stage.isBetween] at h
  · rename_i hstage
    simp [hstage, Stage.isBetween] at h
  · rfl

theorem Turn.of_between {l l' : Ledger} {e : Seat} {said : List Device.Notice}
    (h : e.stage.isBetween = true) (hproceeds : Proceeds l e said l') : Turn l e [] said l' :=
  .proceed (Stage.isOpen_of_between h) (by rwa [arrive_between l h])

theorem finish_congr {l : Ledger} {e e' : Seat} (h : e.Alike e') : l.finish e' = l.finish e := by
  simp only [finish, Seat.passKey, h.number, h.lease, h.token, h.kind]

namespace Proceeds

variable {l l' : Ledger} {e e' : Seat} {said said' : List Device.Notice}

theorem of_alike (h : Proceeds l e' said l') (halike : e.Alike e') : Proceeds l e said l' := by
  have hreports : ∀ {said}, e'.Reports said → e.Reports said := by
    intro said hs notice hmem
    obtain ⟨id, package, status, heq, hobserver⟩ := hs notice hmem
    exact ⟨id, package, status, heq, halike.observer.symm.trans hobserver⟩
  have hkind : ∀ {kind}, e'.job.kind = kind → e.job.kind = kind := halike.kind.symm.trans
  cases h with
  | go k hcontinues hs =>
    exact .go k ⟨halike.trans hcontinues.toAlike, hcontinues.between, hcontinues.fit⟩ (hreports hs)
  | announce k hpass hcloses hs =>
    exact .announce k (hkind hpass) ⟨halike.trans hcloses.toAlike, hcloses.stage⟩ (hreports hs)
  | close k hfull hcloses hs =>
    exact .close k (hkind hfull) ⟨halike.trans hcloses.toAlike, hcloses.stage⟩ (hreports hs)
  | fall k hfull halike' hstage hs =>
    have hbare : Seat.Alike { e with lease := none } { e' with lease := none } :=
      ⟨halike.number, rfl, halike.token, halike.kind, halike.observer⟩
    rw [halike.lease]
    exact .fall k (hkind hfull) (hbare.trans halike') hstage (hreports hs)
  | finish k status hkeyValue hfull hs =>
    rw [finish_congr halike, halike.observer]
    exact .finish k status (fun h => hkeyValue (halike.kind.trans h))
      (fun h => hfull (halike.kind.trans h)) (hreports hs)

/-- Something was told before. -/
theorem after_told (k : Nat) (hs : e.Reports said) (h : Proceeds (l.later k said) e said' l') :
    Proceeds l e (said ++ said') l' := by
  have happend : ∀ {said'}, e.Reports said' → e.Reports (said ++ said') :=
    Device.AreResults.append hs
  cases h with
  | go k' hcontinues hs' =>
    rw [later_later]
    exact .go (k + k') hcontinues (happend hs')
  | announce k' hpass hcloses hs' =>
    rw [later_later]
    exact .announce (k + k') hpass hcloses (happend hs')
  | close k' hfull hcloses hs' =>
    rw [later_later]
    exact .close (k + k') hfull hcloses (happend hs')
  | fall k' hfull halike hstage hs' =>
    rw [later_later]
    exact .fall (k + k') hfull halike hstage (happend hs')
  | finish k' status hkeyValue hfull hs' =>
    rw [later_later, ← List.append_assoc]
    exact .finish (k + k') status hkeyValue hfull (happend hs')

/-- Upkeep was done before. -/
theorem after_later {s s' : System} (hlater : s.Later [] s')
    (h : Proceeds s'.ledger e said l') : Proceeds s.ledger e said l' := by
  obtain ⟨k, hk⟩ := hlater
  rw [hk] at h
  exact h.after_told k (Seat.reports_nil e)

/-- A task that has nobody to tell, and is not a pass, ends. -/
theorem quit (hkeyValue : e.job.kind ≠ .keyValue) (hfull : e.job.kind ≠ .full)
    (hobserver : e.job.observer = none) : Proceeds l e [] (l.finish e) := by
  have hend := Proceeds.finish (l := l) 0 .success hkeyValue hfull (Seat.reports_nil e)
  rwa [hobserver, show [] ++ System.finishedNotice none .success = [] from rfl, later_zero] at hend

end Proceeds

end Ledger

namespace System

open Ledger

variable {s : System} {t : Task}

/-! ## Winding down -/

theorem clearRunningFull_ledger (s : System) (token : Option OpToken) :
    (s.clearRunningFull token).ledger = s.ledger.endFull token := by
  unfold clearRunningFull Ledger.endFull
  cases hrunning : s.engine.runningFull with
  | none =>
    have hfull : s.ledger.full = none := by simp [ledger, hrunning]
    simp only [hfull, ite_self]
    rw [← hfull]
  | some running =>
    obtain ⟨running, package⟩ := running
    have hfull : s.ledger.full = some running := by simp [ledger, hrunning]
    simp only [hfull]
    split
    · rfl
    · rw [← hfull]

/-- A key-value pass announces its end, after some upkeep. -/
theorem endKeyValue_proceeds {drained : Option Drained} (status : Status)
    (hkind : t.job.kind = .keyValue) :
    Proceeds s.ledger t.seat [] (s.endKeyValue t drained status).ledger := by
  obtain ⟨k, hk⟩ := s.heedInit_later t
  have hend : (s.endKeyValue t drained status).ledger =
      ((s.ledger.later k []).post .passFinished).reseat
        { t.seat with stage := .closing status } := by
    rw [endKeyValue, moveTo_ledger, post_counts _ rfl, closeDrained_ledger, hk]
  rw [hend]
  exact .announce k hkind ⟨⟨rfl, rfl, rfl, rfl, rfl⟩, rfl⟩ (Seat.reports_nil _)

/-- A full backup is done with its package, unless the due time breaks it. -/
theorem endFull_proceeds {package : String} {lastBackup : Int} {status : Status}
    (hkind : t.job.kind = .full) :
    Proceeds s.ledger t.seat [] (s.endFull t package lastBackup status).ledger := by
  have hcloses : t.seat.Closes status { t.seat with stage := .closing status } :=
    ⟨⟨rfl, rfl, rfl, rfl, rfl⟩, rfl⟩
  refine endFull_elim ?succeeds ?retries ?falls
  case succeeds =>
    intro _
    obtain ⟨k, hk⟩ := s.heedInit_later t
    rw [moveTo_ledger, enqueueFull_ledger, hk]
    exact .close k hkind hcloses (Seat.reports_nil _)
  case retries =>
    intro _ dueAt
    obtain ⟨k, hk⟩ := s.drawnRetry_later t
    rw [moveTo_ledger, deferFull_ledger, hk]
    exact .close k hkind hcloses (Seat.reports_nil _)
  case falls =>
    intro _
    obtain ⟨k, hk⟩ := s.drawnRetry_later t
    rw [fall, setTask_ledger, dispose_ledger, hk]
    exact .fall k hkind ⟨rfl, rfl, rfl, rfl, rfl⟩ rfl (Seat.reports_nil _)

/-- A full backup whose package is back gives up its place. -/
theorem vacate_turn {status : Status} (hkind : t.job.kind = .full)
    (hstage : t.stage = .closing status) : Turn s.ledger t.seat [] [] (s.vacate t).ledger := by
  rw [vacate, moveTo_ledger, clearRunningFull_ledger]
  exact .vacate hkind hstage

/-- The rest that a pass holds is given back together. -/
theorem depart_ledger (s : System) (hkind : t.job.kind = .keyValue ∨ t.job.kind = .full) :
    (((s.dropToken t).releaseWake.dispose t.lease).dropTask t.number).ledger =
      s.ledger.finish t.seat := by
  have hkey : t.seat.passKey = t.token := by
    rcases hkind with hkind | hkind <;> simp only [Seat.passKey, Task.seat, hkind]
  rw [dropTask_ledger, dispose_ledger, releaseWake_ledger, dropToken_ledger, Ledger.finish, hkey]
  rfl

/-- A key-value pass that has announced its end tells its observer and gives the rest back. -/
theorem closeKeyValue_turn {observer : Option String} {status : Status}
    (hkind : t.job.kind = .keyValue) (hobserver : t.job.observer = observer)
    (hstage : t.stage = .closing status) :
    Turn s.ledger t.seat [] (finishedNotice observer status)
      (s.closeKeyValue t observer status).ledger := by
  have hjob : ∀ s : System,
      (if status = .success ∨ status = .cancelled then s else s.scheduleKeyValueJob).ledger =
        s.ledger := by
    intro s
    split
    · rfl
    · exact s.scheduleKeyValueJob_ledger
  have hend := depart_ledger (t := t) (s.tellFinished observer status) (.inl hkind)
  rw [dropTask_ledger, dispose_ledger, releaseWake_ledger, tellFinished_ledger] at hend
  have hclose : (s.closeKeyValue t observer status).ledger =
      (s.ledger.later 0 (finishedNotice observer status)).finish t.seat := by
    rw [closeKeyValue, dropTask_ledger, dispose_ledger, releaseWake_ledger, hjob, hend]
  rw [hclose, ← hobserver]
  exact .depart (.keyValue hkind hstage)

/-- A full backup that has given up its place gives the rest back. -/
theorem leave_turn (hkind : t.job.kind = .full) (hstage : t.stage = .leaving) :
    Turn s.ledger t.seat [] [] (s.leave t).ledger := by
  have hend := depart_ledger (t := t) s (.inr hkind)
  rw [dropTask_ledger, dispose_ledger] at hend
  have hobserver : t.seat.job.observer = none := by
    show t.job.observer = none
    cases hjob : t.job <;> first | rfl | simp [hjob, Job.kind] at hkind
  have hleave : (s.leave t).ledger = s.ledger.finish t.seat := by
    unfold leave
    split
    · rw [dropTask_ledger, dispose_ledger, scheduleNextFullJob_ledger, hend]
    all_goals
      rename_i hjob
      simp [hjob, Job.kind] at hkind
  have hdeparts : t.seat.Departs .success := .full (show t.seat.job.kind = .full from hkind) hstage
  have hdepart : Turn s.ledger t.seat [] (finishedNotice t.seat.job.observer .success) _ :=
    .depart hdeparts
  rwa [hobserver, show finishedNotice none .success = [] from rfl, later_zero, ← hleave] at hdepart

theorem endPlain_ledger (s : System) (hkind : t.job.kind ≠ .keyValue)
    (hkind' : t.job.kind ≠ .full) :
    (s.endPlain t).ledger = s.ledger.finish t.seat := by
  have hkey : t.seat.passKey = none := by
    simp only [Seat.passKey, Task.seat]
    split
    · exact absurd ‹_› hkind
    · exact absurd ‹_› hkind'
    all_goals rfl
  rw [endPlain, dropTask_ledger, dispose_ledger, releaseWake_ledger, Ledger.finish, hkey]
  rfl

theorem endPlain_proceeds (hkeyValue : t.job.kind ≠ .keyValue) (hfull : t.job.kind ≠ .full)
    (hobserver : t.job.observer = none) : Proceeds s.ledger t.seat [] (s.endPlain t).ledger := by
  rw [s.endPlain_ledger hkeyValue hfull]
  exact .quit hkeyValue hfull hobserver

theorem endRestore_proceeds {order : RestoreOrder} {started : Bool}
    (hkind : t.job.kind = .restore) (hobserver : t.job.observer = none) :
    Proceeds s.ledger t.seat [] (s.endRestore t order started).ledger := by
  have hkeyValue : t.job.kind ≠ .keyValue := by simp [hkind]
  have hfull : t.job.kind ≠ .full := by simp [hkind]
  have hdatasets : ∀ s : System, ∀ datasets : Datasets,
      (if started && order.recordAncestral then (s.setDatasets datasets).2 else s).ledger =
        s.ledger := by
    intro s datasets
    split <;> rfl
  have hend : (s.endRestore t order started).ledger = s.ledger.finish t.seat := by
    have hinstalled : ∀ (s : System) (token : Int),
        (s.note (.installed token true)).ledger = s.ledger := fun s _ => s.note_ledger rfl rfl
    rw [← s.endPlain_ledger hkeyValue hfull]
    unfold endRestore endPlain
    cases order.installToken <;>
      simp only [dropTask_ledger, @post_ledger _ (.restoreFinished _) rfl, dispose_ledger,
        releaseWake_ledger, hinstalled, hdatasets]
  rw [hend]
  exact .quit hkeyValue hfull hobserver

/-! ## Packages of a pass -/

theorem moveTo_proceeds {t' : Task} (halike : t.seat.Alike t'.seat) {stage : Stage}
    (hstage : stage.isBetween = true) (hkind : t.job.kind ≠ .wipe) :
    Proceeds s.ledger t.seat [] (s.moveTo t' stage).ledger := by
  have hgo := @Proceeds.go s.ledger t.seat _ _ 0 (halike.continues hstage hkind)
    (Seat.reports_nil _)
  rw [later_zero] at hgo
  rwa [moveTo_ledger]

theorem call_proceeds {t' : Task} (halike : t.seat.Alike t'.seat) (call : TransportCall)
    (hkind : t.job.kind ≠ .wipe) : Proceeds s.ledger t.seat [] (s.call t' call).ledger := by
  have hnote : (s.note (.transport t'.transport call)).ledger = s.ledger := note_ledger _ rfl rfl
  rw [← hnote]
  exact moveTo_proceeds halike rfl hkind

theorem packageDone_proceeds {drained : Option Drained} {observer : Option String}
    (package : String) (status : Status) (hkind : t.job.kind = .keyValue)
    (hobserver : t.job.observer = observer) :
    ∃ said, Proceeds s.ledger t.seat said
      (s.packageDone t drained observer package status).ledger := by
  have htold := s.tellResult_ledger observer package status
  have hreports : t.seat.Reports (resultNotice observer package status) :=
    Seat.reports_result hobserver package status
  unfold packageDone
  split
  · have hend := @endKeyValue_proceeds (s.tellResult observer package status) t drained status hkind
    rw [htold] at hend
    exact ⟨_, hend.after_told 0 hreports⟩
  · have hgo := @moveTo_proceeds (s.tellResult observer package status) t t (Seat.Alike.refl _)
      .choosing rfl (by rw [hkind]; decide)
    rw [htold] at hgo
    exact ⟨_, hgo.after_told 0 hreports⟩

theorem visit_proceeds {t' : Task} (halike : t.seat.Alike t'.seat) (v : Visit)
    (hkind : t.job.kind ≠ .wipe) : Proceeds s.ledger t.seat [] (s.visit t' v).ledger :=
  @moveTo_proceeds (s.onEngine fun e => { e with binder := e.binder.join.2 }) t t' halike _ rfl
    hkind

theorem visitFailed_proceeds (v : Visit) (status : Status) (hkind : t.job.kind ≠ .wipe) :
    ∃ said, Proceeds s.ledger t.seat said (s.visitFailed t v status).ledger := by
  unfold visitFailed
  split
  · rename_i hjob
    exact packageDone_proceeds _ _ (by rw [hjob]; rfl) (by rw [hjob]; rfl)
  · rename_i hjob
    exact ⟨_, endFull_proceeds (by rw [hjob]; rfl)⟩
  all_goals exact ⟨_, moveTo_proceeds (Seat.Alike.refl _) rfl hkind⟩

theorem askHost_proceeds (v : Visit) (ticket : Nat) (hkind : t.job.kind ≠ .wipe) :
    ∃ said, Proceeds s.ledger t.seat said (s.askHost t v ticket).ledger := by
  have hnote : (s.note (.agent v.package.name (.bind v.mode))).ledger = s.ledger :=
    note_ledger _ rfl rfl
  unfold askHost
  simp only
  rw [← hnote]
  generalize s.note (.agent v.package.name (.bind v.mode)) = s
  generalize hostReacts _ _ _ = reaction
  obtain ⟨accepted, binder⟩ := reaction
  simp only
  split
  · split
    · exact ⟨_, @moveTo_proceeds (s.onEngine fun e => { e with binder }) _ _ (Seat.Alike.refl _)
        (.binding v ticket) rfl hkind⟩
    · have htimer := setTimer_later (s.onEngine fun e => { e with binder })
        (rfl : (TimerAction.expireBind ticket).counted? = none) s.engine.settings.bindTimeout
      exact ⟨_, Proceeds.after_later htimer
        (@moveTo_proceeds _ t t (Seat.Alike.refl _) (.binding v ticket) rfl hkind)⟩
  · exact @visitFailed_proceeds (s.onEngine fun e => { e with binder := binder.leave }) _ _ _ hkind

/-! ## Agents -/

/-- What an agent does at once touches only its own token. -/
theorem agentReacts_subset (behaviour : Device.Behaviour) (token : OpToken)
    (ops : OperationTable Watcher) : (agentReacts behaviour token ops).tokens ⊆ ops.tokens := by
  have honce := ops.complete_subset token 0
  have htwice := List.Subset.trans ((ops.complete token 0).complete_subset token 1) honce
  cases behaviour with
  | silent | unreachable => exact List.Subset.refl _
  | double => exact htwice
  | normal | refuse | disconnect | wrong => exact honce

theorem workNotice_unbound (t : Task) (mode : AgentMode) (package : String) :
    (Device.Notice.agent package (workNotice t mode)).unbound? = none := by
  unfold workNotice
  split <;> rfl

/-- The wait for an agent is registered under a token of its own. -/
theorem prepare_ledger (v : Visit) :
    ∃ token keys, keys ⊆ token :: s.ledger.keys ∧
      (s.prepare t v).ledger =
        (s.ledger.withKeys keys).reseat { t.seat with stage := .prepared v token } := by
  have hledger := s.freshToken_ledger
  unfold prepare
  simp only [moveTo_ledger]
  generalize s.freshToken = fresh at hledger
  obtain ⟨token, s'⟩ := fresh
  have hregister := s'.engine.ops.tokens_register token (workKind v.mode)
    (Watcher.agent v.package.name) (workTimeout s'.engine.settings v.mode)
  rw [show s'.engine.ops.tokens = s.ledger.keys from congrArg Ledger.keys hledger] at hregister
  have hregistered := withOps_ledger s' fun ops =>
    ops.register token (workKind v.mode) (.agent v.package.name)
      (workTimeout s'.engine.settings v.mode)
  simp only [hledger] at hregistered
  exact ⟨token, _, hregister, by rw [hregistered]; rfl⟩

/-- A task that was canceled while its agent came up takes the wait for it along. -/
theorem heedCancel_turn {v : Visit} {token : OpToken} (hstage : t.stage = .prepared v token)
    (hs : s.Distinct) : Turn s.ledger t.seat [] [] (s.heedCancel t v token).ledger := by
  unfold heedCancel
  split
  · obtain ⟨keys, hsubset, hcancel⟩ := cancelOperation_ledger hs token
    rw [moveTo_ledger, hcancel]
    exact .equip (.inl hstage) (.inr rfl) hsubset
  · rw [moveTo_ledger]
    exact .equip (.inl hstage) (.inl rfl) (List.Subset.refl s.ledger.keys)

/-- An agent that is given its work may be done at once. -/
theorem giveWork_turn {v : Visit} {token : OpToken} (hstage : t.stage = .starting v token) :
    Turn s.ledger t.seat [] [] (s.giveWork t v token).ledger := by
  have hnote := s.note_ledger (rfl : (Device.Notice.agent v.package.name
    (workNotice t v.mode)).isTold = false) (workNotice_unbound t v.mode v.package.name)
  unfold giveWork
  simp only [moveTo_ledger]
  generalize s.note _ = noted at hnote ⊢
  have hreacts := agentReacts_subset (noted.device.behaviour v.package.name) token noted.engine.ops
  rw [show noted.engine.ops.tokens = s.ledger.keys from congrArg Ledger.keys hnote] at hreacts
  have hgiven : (noted.onEngine fun e =>
      { e with
        handed := Device.setKey v.package.name token e.handed
        ops := agentReacts (noted.device.behaviour v.package.name) token e.ops }).ledger =
      s.ledger.withKeys
        (agentReacts (noted.device.behaviour v.package.name) token noted.engine.ops).tokens := by
    rw [← hnote]
    rfl
  rw [hgiven]
  exact .equip (.inr hstage) (.inr rfl) hreacts

/-- The package whose agent a task meets in its next step. -/
def greeted (s : System) (t : Task) : List String :=
  match t.stage, s.engine.binder.arrival with
  | .binding v _, some (.connected ()) => [v.package.name]
  | _, _ => []

theorem meetAgent_turn {v : Visit} {ticket : Nat} (hstage : t.stage = .binding v ticket)
    (hkind : t.job.kind ≠ .wipe) :
    ∃ said, Turn s.ledger t.seat (s.greeted t) said (s.meetAgent t v).ledger := by
  refine meetAgent_elim ?prepares ?fails
  case prepares =>
    intro harrival
    have hgreeted : s.greeted t = [v.package.name] := by simp [greeted, hstage, harrival]
    obtain ⟨token, keys, hkeys, hledger⟩ := @prepare_ledger
      (s.onEngine fun e => { e with binder := e.binder.leave }) t v
    rw [hledger, hgreeted]
    exact ⟨[], .prepare hstage hkeys⟩
  case fails =>
    intro left harrival hleft
    have hgreeted : s.greeted t = [] := by
      unfold greeted
      split
      · exact absurd ‹_› harrival
      · rfl
    have hledger : left.ledger = s.ledger := by
      rcases hleft with rfl | rfl
      · rfl
      · exact note_ledger _ rfl rfl
    obtain ⟨said, h⟩ := @visitFailed_proceeds left t v .agentFailure hkind
    rw [hledger] at h
    rw [hgreeted]
    exact ⟨said, .of_between (congrArg Stage.isBetween hstage) h⟩

theorem tearDown_ledger (s : System) (p : Package) :
    (s.tearDown p).ledger = s.ledger.unbind p.name := by
  unfold tearDown
  simp only
  split
  · rw [note_ledger _ rfl rfl, note_unbind]
  · exact s.note_unbind _

theorem collectWork_proceeds {v : Visit} {token : OpToken} (hstage : t.stage = .working v token)
    (hready : s.isReady t = true) (hkind : t.job.kind ≠ .wipe) :
    ∃ said, Proceeds (s.ledger.arrive t.seat) t.seat said (s.collectWork t v token).ledger := by
  have hstate : s.engine.ops.state? token ≠ some .pending := by
    simpa [isReady, hstage] using hready
  have hledger : (s.collected v token).ledger = s.ledger.arrive t.seat := by
    rw [collected, tearDown_ledger, withOps_ledger _ fun _ => (s.engine.ops.wait token).2,
      OperationTable.tokens_wait _ hstate]
    simp only [Ledger.arrive, Task.seat, hstage]
    rfl
  have halike : t.seat.Alike ({ t with agentToken := none } : Task).seat := Seat.Alike.refl _
  rw [← hledger]
  refine collectWork_elim ?offers ?offersFull ?restores ?fails
  case offers => exact fun _ _ _ _ _ _ _ => ⟨_, call_proceeds halike _ hkind⟩
  case offersFull => exact fun _ _ _ => ⟨_, call_proceeds halike _ hkind⟩
  case restores => exact fun _ _ => ⟨_, moveTo_proceeds halike rfl hkind⟩
  case fails => exact @visitFailed_proceeds _ { t with agentToken := none } v _ hkind

/-! ## Stages -/

theorem openTask_proceeds (hstage : t.stage = .opening) (hfit : t.seat.Fit) :
    ∃ said, Proceeds (s.ledger.arrive t.seat) t.seat said (s.openTask t).ledger := by
  have harrive : t.job.kind ≠ .full → s.ledger.arrive t.seat = s.acquireWake.ledger := by
    intro hkind
    simp only [Ledger.arrive, Task.seat, hstage, if_neg hkind]
    rfl
  unfold openTask
  split
  · rename_i hjob
    rw [harrive (by simp [hjob, Job.kind])]
    simp only
    split
    · exact ⟨_, endKeyValue_proceeds _ (by rw [hjob]; rfl)⟩
    · exact ⟨_, moveTo_proceeds (Seat.Alike.refl _) rfl (by simp [hjob, Job.kind])⟩
  · rename_i hjob
    have hfull : s.ledger.arrive t.seat = s.ledger := by
      simp only [Ledger.arrive, Task.seat, hstage, hjob, Job.kind, if_true]
    rw [hfull]
    exact ⟨_, visit_proceeds (Seat.Alike.refl _) _ (by simp [hjob, Job.kind])⟩
  · rename_i hjob
    rw [harrive (by simp [hjob, Job.kind])]
    have hlease : t.seat.lease = none :=
      hfit.lease (show t.job.kind = .wipe by rw [hjob]; rfl) (by simp [Task.seat, hstage])
    have hgo := @Proceeds.go s.acquireWake.ledger t.seat { t.seat with stage := .choosing } [] 0
      ⟨⟨rfl, rfl, rfl, rfl, rfl⟩, rfl, .of_stage (.inl rfl) fun _ => .inl ⟨hlease, .inr rfl⟩⟩
      (Seat.reports_nil _)
    rw [later_zero] at hgo
    exact ⟨[], by rwa [moveTo_ledger]⟩
  · rename_i hjob
    rw [harrive (by simp [hjob, Job.kind])]
    exact ⟨_, call_proceeds (Seat.Alike.refl _) _ (by simp [hjob, Job.kind])⟩
  · rename_i hjob
    rw [harrive (by simp [hjob, Job.kind])]
    exact ⟨_, call_proceeds (Seat.Alike.refl _) _ (by simp [hjob, Job.kind])⟩

theorem chooseKeyValue_proceeds {drained : Option Drained} {keyValue full : List String}
    {observer : Option String} {nonIncremental : Bool}
    (hjob : t.job = .keyValue drained keyValue full observer nonIncremental) :
    ∃ said, Proceeds s.ledger t.seat said
      (s.chooseKeyValue t drained keyValue full observer nonIncremental).ledger := by
  have hkind : t.job.kind = .keyValue := by rw [hjob]; rfl
  have hwipe : t.job.kind ≠ .wipe := by rw [hkind]; decide
  have hobserver : t.job.observer = observer := by rw [hjob]; rfl
  have halike : ∀ keyValue full, t.seat.Alike
      ({ t with job := .keyValue drained keyValue full observer nonIncremental } : Task).seat :=
    fun _ _ => ⟨rfl, rfl, rfl, hkind.symm, hobserver.symm⟩
  refine chooseKeyValue_elim ?commits ?breaksOff ?offers ?visits ?skips
  case commits => exact ⟨_, call_proceeds (Seat.Alike.refl _) _ hwipe⟩
  case breaksOff => exact fun _ => ⟨_, endKeyValue_proceeds _ hkind⟩
  case offers => exact fun _ _ => ⟨_, call_proceeds (halike _ _) _ hwipe⟩
  case visits => exact fun _ _ _ => ⟨_, visit_proceeds (halike _ _) _ hwipe⟩
  case skips =>
    intro keyValue full package status _
    obtain ⟨said, h⟩ := @packageDone_proceeds s
      { t with job := .keyValue drained keyValue full observer nonIncremental } drained observer
      package status rfl rfl
    exact ⟨said, h.of_alike (halike _ _)⟩

theorem chooseRestore_proceeds {order : RestoreOrder} {rest : List String}
    (hjob : t.job = .restore order rest) :
    Proceeds s.ledger t.seat [] (s.chooseRestore t order rest).ledger := by
  have hwipe : t.job.kind ≠ .wipe := by simp [hjob, Job.kind]
  have halike : ∀ rest, t.seat.Alike ({ t with job := .restore order rest } : Task).seat :=
    fun _ => ⟨rfl, rfl, rfl, (congrArg Job.kind hjob).symm, (congrArg Job.observer hjob).symm⟩
  refine chooseRestore_elim ?commits ?visits ?skips
  case commits => exact call_proceeds (Seat.Alike.refl _) _ hwipe
  case visits => exact fun _ _ => visit_proceeds (halike _) _ hwipe
  case skips => exact fun _ => moveTo_proceeds (halike _) rfl hwipe

/-- A wipe takes a lease for each of its transports. -/
theorem chooseInit_turn {names : List String} {observer : Option String} {overall : Status}
    (hjob : t.job = .wipe names observer overall) (hstage : t.stage = .choosing)
    (hfit : t.seat.Fit) :
    ∃ said, Turn s.ledger t.seat [] said (s.chooseInit t names observer overall).ledger := by
  have hbetween : t.seat.stage.isBetween = true := congrArg Stage.isBetween hstage
  have hkind : t.job.kind = .wipe := by rw [hjob]; rfl
  have hobserver : t.job.observer = observer := by rw [hjob]; rfl
  have hlease : t.seat.lease = none := hfit.lease hkind (by simp [Task.seat, hstage])
  clear hjob
  refine chooseInit_elim ?ends ?skips ?wipes
  case ends =>
    refine ⟨finishedNotice observer overall, .of_between hbetween ?_⟩
    rw [endPlain_ledger _ (by simp [hkind]) (by simp [hkind]), tellFinished_ledger,
      ← hobserver]
    exact .finish 0 overall (by simp [Task.seat, hkind]) (by simp [Task.seat, hkind])
      (Seat.reports_nil _)
  case skips =>
    intro name rest _
    refine ⟨resultNotice observer name .transportAborted, .of_between hbetween ?_⟩
    rw [moveTo_ledger, tellResult_ledger]
    refine .go 0 ⟨⟨rfl, rfl, rfl, ?_, ?_⟩, rfl, .of_stage (.inl rfl) fun _ =>
      .inl ⟨hlease, .inr rfl⟩⟩ (Seat.reports_result hobserver _ _)
    · exact hkind.symm
    · exact hobserver.symm
  case wipes =>
    intro name rest
    refine ⟨[], ?_⟩
    rw [call_ledger, lend_ledger]
    exact .borrow hlease hstage rfl
      ⟨⟨rfl, rfl, rfl, hkind.symm, hobserver.symm⟩, rfl, .of_stage (.inl rfl) fun _ =>
        .inr ⟨_, rfl⟩⟩

theorem choose_turn (hstage : t.stage = .choosing) (hfit : t.seat.Fit) :
    ∃ said, Turn s.ledger t.seat [] said (s.choose t).ledger := by
  have hbetween : t.seat.stage.isBetween = true := congrArg Stage.isBetween hstage
  unfold choose
  split
  · rename_i hjob
    obtain ⟨said, h⟩ := chooseKeyValue_proceeds hjob
    exact ⟨said, .of_between hbetween h⟩
  · rename_i hjob
    exact ⟨_, .of_between hbetween (endFull_proceeds (by rw [hjob]; rfl))⟩
  · rename_i hjob
    exact chooseInit_turn hjob hstage hfit
  · rename_i hjob
    exact ⟨[], .of_between hbetween (endPlain_proceeds (by simp [hjob, Job.kind])
      (by simp [hjob, Job.kind]) (congrArg Job.observer hjob))⟩
  · rename_i hjob
    exact ⟨_, .of_between hbetween (chooseRestore_proceeds hjob)⟩

/-! ## Answers of transports -/

/-- A wipe gives its transport back, whatever came of it. -/
theorem initDone_turn {rest : List String} {observer : Option String} {overall : Status}
    {call : TransportCall} (hjob : t.job = .wipe rest observer overall)
    (hstage : t.stage = .calling call) (reply : Device.Reply) :
    ∃ said, Turn s.ledger t.seat [] said (s.initDone t rest observer overall reply).ledger := by
  have hkind : t.job.kind = .wipe := by rw [hjob]; rfl
  have hobserver : t.job.observer = observer := by rw [hjob]; rfl
  -- the books after the upkeep, the notice and the return of the lease
  have hend : ∀ (s' : System) (result overall : Status), s.Later [] s' →
      ∃ said, Turn s.ledger t.seat [] said
        (((s'.tellResult observer t.transport result).dispose t.lease).moveTo
          { t with job := .wipe rest observer overall, lease := none } .choosing).ledger := by
    intro s' result overall ⟨k, hk⟩
    refine ⟨resultNotice observer t.transport result, ?_⟩
    rw [moveTo_ledger, dispose_ledger, tellResult_ledger, hk, later_later, List.nil_append]
    exact .giveBack (k + 0) hstage
      ⟨⟨rfl, rfl, rfl, hkind.symm, hobserver.symm⟩, rfl, .of_stage (.inl rfl) fun _ =>
        .inl ⟨rfl, .inr rfl⟩⟩ (Seat.reports_result hobserver _ _)
  unfold initDone
  simp only
  split
  · simp only
    have hreset := s.resetBackupState_ledger t.transport
    split
    · exact hend _ _ _ (.of_eq (by rw [setInitPending_ledger, hreset]))
    · exact hend _ _ _ (.of_eq hreset)
  · exact hend _ _ _ (s.retryInit_later _)

theorem ofReply_ne_cancelled (reply : Device.Reply) : Status.ofReply reply ≠ .cancelled := by
  unfold Status.ofReply
  split <;> simp

theorem ofReply_eq_success {reply : Device.Reply} :
    Status.ofReply reply = .success ↔ reply = .ok .ok := by
  unfold Status.ofReply
  split <;> simp

theorem heed_seat (t : Task) (reply : Device.Reply) : (t.heed reply).seat = t.seat := by
  unfold Task.heed
  split <;> rfl

theorem replyKeyValue_proceeds {drained : Option Drained} {observer : Option String}
    (call : TransportCall) (reply : Device.Reply) (hkind : t.job.kind = .keyValue)
    (hobserver : t.job.observer = observer) :
    ∃ said, Proceeds s.ledger t.seat said
      (s.replyKeyValue t drained observer call reply).ledger := by
  have hseat := heed_seat t reply
  rw [← hseat]
  rw [show t.job = (t.heed reply).job from (congrArg Seat.job hseat).symm] at hkind hobserver
  -- a package is done after some upkeep
  have hdone : ∀ (s' : System) (package : String) (status : Status), s'.ledger = s.ledger →
      ∃ said, Proceeds s.ledger (t.heed reply).seat said
        (s'.packageDone (t.heed reply) drained observer package status).ledger := by
    intro s' package status hs'
    rw [← hs']
    exact packageDone_proceeds package _ hkind hobserver
  refine replyKeyValue_elim ?done ?doneFull ?asks ?commits
  case done =>
    rintro left package (rfl | rfl | rfl)
    · exact hdone _ _ _ rfl
    · exact hdone _ _ _ (s.writeMetadata_ledger _)
    · exact hdone _ _ _ rfl
  case doneFull => exact fun package _ => hdone _ _ _ (enqueueFull_ledger _ _ _)
  case asks =>
    exact fun _ => ⟨_, call_proceeds (Seat.Alike.refl _) _ (by simp [hkind])⟩
  case commits => exact fun _ => ⟨_, endKeyValue_proceeds _ hkind⟩

theorem replyFull_proceeds {package : String} {lastBackup : Int} (call : TransportCall)
    (reply : Device.Reply) (hkind : t.job.kind = .full) :
    Proceeds s.ledger t.seat [] (s.replyFull t package lastBackup call reply).ledger := by
  have hseat := heed_seat t reply
  rw [← hseat]
  rw [show t.job = (t.heed reply).job from (congrArg Seat.job hseat).symm] at hkind
  refine replyFull_elim ?commits ?fails ?asks ?ends
  case commits =>
    exact @call_proceeds (s.recordProcessed package) (t.heed reply) _ (Seat.Alike.refl _) _
      (by simp [hkind])
  case fails => exact endFull_proceeds hkind
  case asks => exact fun _ => call_proceeds (Seat.Alike.refl _) _ (by simp [hkind])
  case ends => exact fun _ => endFull_proceeds hkind

theorem takeReply_turn {call : TransportCall} (hstage : t.stage = .calling call) :
    ∃ said, Turn s.ledger t.seat [] said (s.takeReply t call).ledger := by
  -- an answer uses up a line of the script, and that is in no book
  have hbetween : t.seat.stage.isBetween = true := congrArg Stage.isBetween hstage
  have hsame : (s.answered t call).ledger = s.ledger := s.answer_ledger t.transport call
  rw [← hsame]
  refine takeReply_elim ?keyValue ?full ?wipeGoesOn ?wiped ?clearGoesOn ?cleared ?restoreGoesOn
    ?restoreFails ?restored
  case keyValue =>
    intro drained keyValue full observer nonIncremental hjob
    obtain ⟨said, h⟩ := replyKeyValue_proceeds call (s.device.answer t.transport call).1
      (congrArg Job.kind hjob) (congrArg Job.observer hjob)
    exact ⟨said, .of_between hbetween h⟩
  case full =>
    intro p lastBackup hjob
    exact ⟨_, .of_between hbetween (replyFull_proceeds call _ (congrArg Job.kind hjob))⟩
  case wipeGoesOn =>
    intro rest observer overall _ _
    have hgo := @Proceeds.go (s.answered t call).ledger t.seat
      { t.seat with stage := .calling .finishBackup } [] 0
      ⟨⟨rfl, rfl, rfl, rfl, rfl⟩, rfl, .of_stage (.inl rfl) fun _ => .inr ⟨_, rfl⟩⟩
      (Seat.reports_nil _)
    rw [later_zero, ← call_ledger] at hgo
    exact ⟨[], .of_between hbetween hgo⟩
  case wiped => exact fun _ _ _ hjob _ => initDone_turn hjob hstage _
  case clearGoesOn =>
    intro package hjob
    exact ⟨_, .of_between hbetween (call_proceeds (Seat.Alike.refl t.seat) .finishBackup
      (by simp [hjob, Job.kind]))⟩
  case cleared =>
    intro package hjob
    exact ⟨[], .of_between hbetween (endPlain_proceeds (by simp [hjob, Job.kind])
      (by simp [hjob, Job.kind]) (congrArg Job.observer hjob))⟩
  case restoreGoesOn =>
    intro order rest hjob
    exact ⟨_, .of_between hbetween (moveTo_proceeds (Seat.Alike.refl _) rfl
      (by simp [hjob, Job.kind]))⟩
  case restoreFails =>
    intro order rest _ _ hjob _ _
    exact ⟨_, .of_between hbetween (endRestore_proceeds (congrArg Job.kind hjob)
      (congrArg Job.observer hjob))⟩
  case restored =>
    intro order rest hjob _
    exact ⟨_, .of_between hbetween (endRestore_proceeds (congrArg Job.kind hjob)
      (congrArg Job.observer hjob))⟩

/-- A pass that asked for the dataset it wrote comes to its end. -/
theorem takeDataset_turn (hstage : t.stage = .calling .currentRestoreSet) :
    ∃ said, Turn s.ledger t.seat [] said (s.takeDataset t).ledger := by
  have hbetween : t.seat.stage.isBetween = true := congrArg Stage.isBetween hstage
  have hstored := s.storeDataset_ledger t.transport
  unfold takeDataset
  split
  · rename_i hjob
    rw [← hstored]
    exact ⟨_, .of_between hbetween (endKeyValue_proceeds _ (congrArg Job.kind hjob))⟩
  · rename_i hjob
    rw [← hstored]
    exact ⟨_, .of_between hbetween (endFull_proceeds (congrArg Job.kind hjob))⟩
  all_goals exact takeReply_turn hstage

/-- A pass that winds down goes on with that. -/
theorem closeTask_turn {status : Status} (hstage : t.stage = .closing status)
    (hfit : t.seat.Fit) : ∃ said, Turn s.ledger t.seat [] said (s.closeTask t status).ledger := by
  have hkind : t.job.kind = .keyValue ∨ t.job.kind = .full := hfit.closing status hstage
  unfold closeTask
  split
  · rename_i hjob
    exact ⟨_, closeKeyValue_turn (congrArg Job.kind hjob) (congrArg Job.observer hjob) hstage⟩
  · rename_i hjob
    exact ⟨_, vacate_turn (congrArg Job.kind hjob) hstage⟩
  all_goals
    rename_i hjob
    simp [hjob, Job.kind] at hkind

/-- **Every step of a ready task is a turn.** -/
theorem stepTask_turn (hs : s.Distinct) (hfit : t.seat.Fit) (hready : s.isReady t = true) :
    ∃ said, Turn s.ledger t.seat (s.greeted t) said (s.stepTask t).ledger := by
  -- a wipe never brings up an agent
  have hagent : (∀ call, t.stage ≠ .calling call) → t.stage ≠ .opening → t.stage ≠ .choosing →
      t.job.kind ≠ .wipe := by
    intro hcalling hopening hchoosing hkind
    rcases hfit.wipe hkind with ⟨-, hstage | hstage⟩ | ⟨call, hcall⟩
    · exact hopening hstage
    · exact hchoosing hstage
    · exact hcalling call hcall
  -- only a task whose bind came to its end meets an agent
  have hgreeted : (∀ v ticket, t.stage ≠ .binding v ticket) → s.greeted t = [] := by
    intro hstage
    unfold greeted
    split
    · exact absurd ‹_› (hstage _ _)
    · rfl
  refine stepTask_elim ?opening ?choosing ?queued ?binding ?prepared ?starting ?working ?asking
    ?calling ?closing ?leaving ?fallen
  case opening =>
    intro hstage
    obtain ⟨said, h⟩ := openTask_proceeds hstage hfit
    rw [hgreeted (by simp [hstage])]
    exact ⟨said, .proceed (congrArg Stage.isOpen hstage) h⟩
  case choosing =>
    intro hstage
    rw [hgreeted (by simp [hstage])]
    exact choose_turn hstage hfit
  case queued =>
    intro v ticket hstage
    obtain ⟨said, h⟩ := @askHost_proceeds s t v ticket (hagent (by simp [hstage])
      (by simp [hstage]) (by simp [hstage]))
    rw [hgreeted (by simp [hstage])]
    exact ⟨said, .of_between (congrArg Stage.isBetween hstage) h⟩
  case binding =>
    intro v ticket hstage
    exact meetAgent_turn hstage (hagent (by simp [hstage]) (by simp [hstage]) (by simp [hstage]))
  case prepared =>
    intro v token hstage
    rw [hgreeted (by simp [hstage])]
    exact ⟨_, heedCancel_turn hstage hs⟩
  case starting =>
    intro v token hstage
    rw [hgreeted (by simp [hstage])]
    exact ⟨_, giveWork_turn hstage⟩
  case working =>
    intro v token hstage
    obtain ⟨said, h⟩ := collectWork_proceeds hstage hready (hagent (by simp [hstage])
      (by simp [hstage]) (by simp [hstage]))
    rw [hgreeted (by simp [hstage])]
    exact ⟨said, .proceed (congrArg Stage.isOpen hstage) h⟩
  case asking =>
    intro hstage
    rw [hgreeted (by simp [hstage])]
    exact takeDataset_turn hstage
  case calling =>
    intro call hstage _
    rw [hgreeted (by simp [hstage])]
    exact takeReply_turn hstage
  case closing =>
    intro status hstage
    rw [hgreeted (by simp [hstage])]
    exact closeTask_turn hstage hfit
  case leaving =>
    intro hstage
    rw [hgreeted (by simp [hstage])]
    exact ⟨_, leave_turn (hfit.leaving hstage) hstage⟩
  case fallen =>
    intro hstage
    simp [isReady, hstage] at hready

end System

end Holdfast
