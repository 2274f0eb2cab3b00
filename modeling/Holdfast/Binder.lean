/-!
# Binding agents

Agents are brought up one at a time. A bind waits for its turn, then the host is asked and
the bind waits for the agent to connect, to go away, or for its time to run out.

* `Binder.join` lines a bind up, `Binder.leave` ends the bind whose turn it is;
* `Binder.await` opens the slot that a connection fills;
* `Binder.connected`, `Binder.disconnected` and `Binder.expire` fill it, whichever is first.
-/

namespace Holdfast

/-- What came of a bind. -/
inductive Arrival (Agent : Type) where
  | connected (agent : Agent)
  | disconnected
  | timedOut
  deriving DecidableEq, Repr

/-- The line of binds. Where agents are told apart by their packages alone, nothing else has to be
known of an agent. -/
structure Binder (Agent : Type := Unit) where
  /-- Tickets in the order in which they are served; it is the turn of the first one. -/
  line : List Nat := []
  /-- The package whose agent is awaited. -/
  awaited : Option String := none
  /-- What came of the bind whose turn it is. -/
  arrival : Option (Arrival Agent) := none
  /-- The next ticket. -/
  nextTicket : Nat := 0
  deriving DecidableEq, Repr

namespace Binder

variable {Agent : Type}

/-- Line up a bind. -/
def join (b : Binder Agent) : Nat × Binder Agent :=
  (b.nextTicket, { b with line := b.line ++ [b.nextTicket], nextTicket := b.nextTicket + 1 })

/-- Whether it is a ticket's turn. -/
def isTurn (b : Binder Agent) (ticket : Nat) : Bool := b.line.head? == some ticket

/-- Wait for the agent of a package. -/
def await (b : Binder Agent) (package : String) : Binder Agent :=
  { b with awaited := some package, arrival := none }

/-- An agent connected; whether it was awaited. -/
def connected (b : Binder Agent) (package : String) (agent : Agent) : Bool × Binder Agent :=
  if b.awaited = some package then
    (true, { b with awaited := none, arrival := some (.connected agent) })
  else (false, b)

/-- An agent went away. -/
def disconnected (b : Binder Agent) (package : String) : Binder Agent :=
  if b.awaited = some package then
    { b with awaited := none, arrival := some .disconnected }
  else b

/-- The time of a bind ran out; one that has ended is not affected. -/
def expire (b : Binder Agent) (ticket : Nat) : Binder Agent :=
  if b.isTurn ticket && b.awaited.isSome then
    { b with awaited := none, arrival := some .timedOut }
  else b

/-- End the bind whose turn it is. -/
def leave (b : Binder Agent) : Binder Agent :=
  { b with line := b.line.tail, awaited := none, arrival := none }

end Binder

end Holdfast
