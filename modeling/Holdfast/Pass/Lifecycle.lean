import Holdfast.Fault

/-!
# The lifecycle of one pass

`Lifecycle` follows a pass from its request to its end and keeps the transitions it made.

* `Lifecycle.target` is the transition table;
* `Lifecycle.apply` takes one event, or refuses it and changes nothing.
-/

namespace Holdfast.Pass

/-- One accepted event. -/
structure Transition where
  source : State
  event : Event
  target : State
  deriving DecidableEq, Repr

/-- A pass on its way. -/
structure Lifecycle where
  kind : Kind
  state : State := .requested
  /-- The transport bound to the pass. -/
  transport : Option String := none
  /-- Why the pass was refused or failed. -/
  failure : Option String := none
  /-- The accepted events, oldest first. -/
  history : List Transition := []
  deriving Repr

namespace Lifecycle

/-- Where an event leads from a state, if it is accepted there. -/
def target : State → Event → Option State
  | .requested, .reject _ => some .gated
  | .requested, .bindTransport _ => some .transportBound
  | .transportBound, .dispatch => some .dispatched
  | .transportBound, .cancel => some .canceled
  | .dispatched, .complete => some .completed
  | .dispatched, .fail _ => some .completed
  | .dispatched, .cancel => some .canceled
  | .dispatched, .timeout => some .timedOut
  | _, _ => none

/-- The pass after an accepted event. -/
def enter (p : Lifecycle) (event : Event) (next : State) : Lifecycle where
  kind := p.kind
  state := next
  transport := match event with
    | .bindTransport name => some name
    | _ => p.transport
  failure := match event.failure? with
    | some reason => some reason
    | none => p.failure
  history := p.history ++ [⟨p.state, event, next⟩]

/-- Take one event. A refused event leaves the pass as it was. -/
def apply (p : Lifecycle) (event : Event) : Except Fault Lifecycle :=
  match target p.state event with
  | some next => .ok (p.enter event next)
  | none => .error (.illegalEvent event p.state)

/-- Take one event, ignoring it when it is refused. -/
def advance (p : Lifecycle) (event : Event) : Lifecycle :=
  match p.apply event with
  | .ok next => next
  | .error _ => p

end Lifecycle

end Holdfast.Pass
