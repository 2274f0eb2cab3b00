import Holdfast.Operation

/-!
# The table of operations in flight

Each operation has a watcher, told of its result or of its cancellation. A result is not
told at once: it is posted as an event for the control loop to dispatch. A cancellation is
told by whoever cancels. Deadlines run on the table's own clock, in milliseconds, and post
an event when they elapse.

* `OperationTable.register` and `OperationTable.registerTask` enter operations;
* `OperationTable.complete` and `OperationTable.cancel` decide a pending one;
* `OperationTable.dispatch` runs a posted event;
* `OperationTable.wait` collects the outcome;
* `OperationTable.tick` lets a millisecond pass.
-/

namespace Holdfast

/-- An operation in flight. -/
structure Operation (κ : Type) where
  state : OpState
  kind : OpKind
  watcher : κ
  /-- Number of the deadline armed for it. -/
  deadline : Option Nat

/-- An armed deadline. -/
structure Deadline where
  number : Nat
  token : OpToken
  /-- Clock reading at which it elapses. -/
  due : Nat
  deriving DecidableEq, Repr

/-- What the table hands to the control loop. -/
inductive OpEvent (κ : Type) where
  | completed (token : OpToken) (watcher : κ) (result : Int)
  | deadlineElapsed (token : OpToken)

/-- What a watcher is told. -/
inductive OpCall (κ : Type) where
  | complete (watcher : κ) (result : Int)
  | cancel (watcher : κ) (cancelAll : Bool)

/-- The operations in flight. -/
structure OperationTable (κ : Type) where
  operations : List (OpToken × Operation κ) := []
  /-- Armed deadlines, oldest first. -/
  deadlines : List Deadline := []
  /-- Posted events, oldest first. -/
  events : List (OpEvent κ) := []
  /-- Whether posted events are still received. -/
  listening : Bool := true
  /-- Whether deadlines are armed at all. -/
  timed : Bool := true
  /-- Milliseconds since the table was made. -/
  clock : Nat := 0
  /-- Number of the next deadline. -/
  nextDeadline : Nat := 0

namespace OperationTable

variable {κ : Type}

/-- The operation of a token. -/
def get? (t : OperationTable κ) (token : OpToken) : Option (Operation κ) :=
  t.operations.lookup token

/-- The state of a token's operation. -/
def state? (t : OperationTable κ) (token : OpToken) : Option OpState :=
  (t.get? token).map (·.state)

/-- Number of operations. -/
def size (t : OperationTable κ) : Nat := t.operations.length

/-- The operations without a token. -/
def dropToken (token : OpToken) (ops : List (OpToken × Operation κ)) :
    List (OpToken × Operation κ) :=
  ops.filter (fun entry => entry.1 ≠ token)

/-- Enter an operation under a token, in place of an earlier one. -/
def put (t : OperationTable κ) (token : OpToken) (op : Operation κ) : OperationTable κ :=
  { t with operations := (token, op) :: dropToken token t.operations }

/-- Take a token out of the table; a deadline armed for it keeps running. -/
def erase (t : OperationTable κ) (token : OpToken) : OperationTable κ :=
  { t with operations := dropToken token t.operations }

/-- Stop a deadline. -/
def disarm (t : OperationTable κ) : Option Nat → OperationTable κ
  | none => t
  | some number =>
    { t with deadlines := t.deadlines.filter (fun deadline => deadline.number ≠ number) }

/-- Post an event; it is lost when nobody listens any more. -/
def post (t : OperationTable κ) (event : OpEvent κ) : OperationTable κ :=
  if t.listening then { t with events := t.events ++ [event] } else t

/-- Arm a deadline for a token, if deadlines are armed at all. -/
def arm (t : OperationTable κ) (token : OpToken) (timeout : Nat) :
    Option Nat × OperationTable κ :=
  if t.timed then
    (some t.nextDeadline,
      { t with
        deadlines := t.deadlines ++ [⟨t.nextDeadline, token, t.clock + timeout⟩]
        nextDeadline := t.nextDeadline + 1 })
  else (none, t)

/-- Enter an operation that is waited for, with a deadline. An earlier operation under the
token is replaced and its deadline stopped. A kind that is not waited for is refused. -/
def register (t : OperationTable κ) (token : OpToken) (kind : OpKind) (watcher : κ)
    (timeout : Nat) : OperationTable κ :=
  if kind.isWaitable then
    let (deadline, t) := t.arm token timeout
    let earlier := (t.get? token).bind (·.deadline)
    (t.put token ⟨.pending, kind, watcher, deadline⟩).disarm earlier
  else t

/-- Enter a whole pass, without a deadline. An earlier operation under the token is
replaced. -/
def registerTask (t : OperationTable κ) (token : OpToken) (watcher : κ) : OperationTable κ :=
  t.put token ⟨.pending, .backupTask, watcher, none⟩

/-- Report a result. The first report acknowledges a pending operation; a report on an
acknowledged one drops it, and one after a timeout changes nothing. -/
def complete (t : OperationTable κ) (token : OpToken) (result : Int) : OperationTable κ :=
  match t.get? token with
  | none => t
  | some op =>
    match op.state with
    | .timeout => t
    -- nobody collected the first report
    | .acknowledged => t.erase token
    | .pending =>
      ((t.put token { op with state := .acknowledged, deadline := none }).disarm
        op.deadline).post (.completed token op.watcher result)

/-- Cancel an operation; the watcher to be told, if the operation was pending. -/
def cancel (t : OperationTable κ) (token : OpToken) : Option κ × OperationTable κ :=
  match t.get? token with
  | none => (none, t)
  | some op =>
    match op.state with
    | .acknowledged => (none, t.erase token)
    | .timeout => (none, t)
    | .pending =>
      (some op.watcher,
        (t.put token { op with state := .timeout, deadline := none }).disarm op.deadline)

/-- Run a posted event; what its watcher is told. -/
def dispatch (t : OperationTable κ) : OpEvent κ → Option (OpCall κ) × OperationTable κ
  | .completed _ watcher result => (some (.complete watcher result), t)
  | .deadlineElapsed token =>
    if t.state? token = some .pending then
      let (watcher, t) := t.cancel token
      (watcher.map (.cancel · false), t)
    else (none, t)

/-- Run events one after the other; what their watchers are told. -/
def dispatchEach (t : OperationTable κ) : List (OpEvent κ) → List (OpCall κ) × OperationTable κ
  | [] => ([], t)
  | event :: rest =>
    let (call, t) := t.dispatch event
    let (calls, t) := t.dispatchEach rest
    (call.toList ++ calls, t)

/-- Run every posted event; what the watchers are told. -/
def dispatchAll (t : OperationTable κ) : List (OpCall κ) × OperationTable κ :=
  { t with events := [] }.dispatchEach t.events

/-- Collect the outcome of an operation and drop it: whether it was acknowledged, `none`
while it is pending. One that vanished counts as acknowledged. -/
def wait (t : OperationTable κ) (token : OpToken) : Option Bool × OperationTable κ :=
  match t.get? token with
  | none => (some true, t)
  | some op =>
    match op.state with
    | .pending => (none, t)
    | .acknowledged => (some true, (t.erase token).disarm op.deadline)
    | .timeout => (some false, (t.erase token).disarm op.deadline)

/-- Collect the outcomes that several callers wait for, in turn; those that are decided, and
the tokens of those that are not. -/
def collect (t : OperationTable κ) :
    List OpToken → List (OpToken × Bool) × List OpToken × OperationTable κ
  | [] => ([], [], t)
  | token :: rest =>
    match t.wait token with
    | (some outcome, t) =>
      let (decided, waiting, t) := t.collect rest
      ((token, outcome) :: decided, waiting, t)
    | (none, t) =>
      let (decided, waiting, t) := t.collect rest
      (decided, token :: waiting, t)

/-- Drop an operation without telling its watcher. -/
def remove (t : OperationTable κ) (token : OpToken) : OperationTable κ :=
  match t.get? token with
  | none => t
  | some op => (t.erase token).disarm op.deadline

/-- Tokens of the passes that can still be canceled. -/
def pendingTasks (t : OperationTable κ) : List OpToken :=
  (t.operations.filter fun entry =>
    entry.2.kind = .backupTask && entry.2.state = .pending).map (·.1)

/-- Whether a pass can still be canceled. -/
def isBackupInProgress (t : OperationTable κ) : Bool := !t.pendingTasks.isEmpty

/-- Post an event for every deadline that has elapsed, oldest first. -/
def elapse (t : OperationTable κ) : OperationTable κ :=
  let elapsed := t.deadlines.filter (fun deadline => deadline.due ≤ t.clock)
  let running := t.deadlines.filter (fun deadline => ¬ deadline.due ≤ t.clock)
  elapsed.foldl (fun t deadline => t.post (.deadlineElapsed deadline.token))
    { t with deadlines := running }

/-- Let one millisecond pass. -/
def tick (t : OperationTable κ) : OperationTable κ :=
  { t with clock := t.clock + 1 }.elapse

/-- Let several milliseconds pass. -/
def advance (t : OperationTable κ) : Nat → OperationTable κ
  | 0 => t.elapse
  | ms + 1 => (t.elapse.tick).advance ms

end OperationTable

end Holdfast
