/-!
# Passes: kinds, states and events

A pass is one run of work against a transport: a key-value or full backup, a restore, the
initialization of a transport, or the clearing of one package's data.

* `Pass.Kind` says what a pass does;
* `Pass.State` says how far it has come, `Pass.State.isTerminal` which states are final;
* `Pass.Event` is what can happen to it.

Each name is the spelling used in files, answers and messages.
-/

namespace Holdfast.Pass

/-- What a pass does. -/
inductive Kind where
  | keyValue
  | full
  | restore
  | wipe
  | clearData
  deriving DecidableEq, Repr

/-- Spelling of a kind. -/
def Kind.name : Kind → String
  | .keyValue => "key_value"
  | .full => "full"
  | .restore => "restore"
  | .wipe => "initialize"
  | .clearData => "clear_data"

/-- Every kind. -/
def Kind.all : List Kind := [.keyValue, .full, .restore, .wipe, .clearData]

/-- The kind of a given spelling. -/
def Kind.ofName? (s : String) : Option Kind := Kind.all.find? (·.name == s)

/-- How far a pass has come. -/
inductive State where
  | requested
  /-- Refused before any transport was bound. -/
  | gated
  | transportBound
  | dispatched
  | completed
  | canceled
  | timedOut
  deriving DecidableEq, Repr

/-- A new pass has only been requested. -/
instance : Inhabited State := ⟨.requested⟩

/-- Spelling of a state. -/
def State.name : State → String
  | .requested => "requested"
  | .gated => "gated"
  | .transportBound => "transport_bound"
  | .dispatched => "dispatched"
  | .completed => "completed"
  | .canceled => "canceled"
  | .timedOut => "timed_out"

/-- Every state. -/
def State.all : List State :=
  [.requested, .gated, .transportBound, .dispatched, .completed, .canceled, .timedOut]

/-- The state of a given spelling. -/
def State.ofName? (s : String) : Option State := State.all.find? (·.name == s)

/-- Whether nothing can happen to a pass any more. -/
def State.isTerminal : State → Bool
  | .gated | .completed | .canceled | .timedOut => true
  | .requested | .transportBound | .dispatched => false

/-- Whether a pass in this state has a transport lease. -/
def State.holdsTransport : State → Bool
  | .transportBound | .dispatched => true
  | .requested | .gated | .completed | .canceled | .timedOut => false

/-- What can happen to a pass. -/
inductive Event where
  /-- Policy or preconditions refused the pass. -/
  | reject (reason : String)
  /-- A transport was leased for the pass. -/
  | bindTransport (transport : String)
  /-- The work was handed out. -/
  | dispatch
  /-- The pass ran to its end. -/
  | complete
  /-- The pass ran to its end, but a transport or an agent failed it. -/
  | fail (reason : String)
  /-- The pass was canceled from outside. -/
  | cancel
  /-- A deadline ended the pass. -/
  | timeout
  deriving DecidableEq, Repr

/-- Spelling of the sort of event in messages and histories. -/
def Event.name : Event → String
  | .reject _ => "reject"
  | .bindTransport _ => "bind_transport"
  | .dispatch => "dispatch"
  | .complete => "complete"
  | .fail _ => "fail"
  | .cancel => "cancel"
  | .timeout => "timeout"

/-- The reason that an event gives for a pass that did not succeed. -/
def Event.failure? : Event → Option String
  | .reject reason | .fail reason => some reason
  | .bindTransport _ | .dispatch | .complete | .cancel | .timeout => none

/-- Whether an event, once accepted, ends its pass. -/
def Event.isTerminal : Event → Bool
  | .reject _ | .complete | .fail _ | .cancel | .timeout => true
  | .bindTransport _ | .dispatch => false

end Holdfast.Pass
