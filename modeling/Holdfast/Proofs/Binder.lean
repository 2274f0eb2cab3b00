import Holdfast.Engine.Tasks
import Mathlib.Logic.Function.Basic

/-!
# The bind protocol

Any number of binds can be under way while agents connect and go away at any time, also inside the
call that asks the host for an agent. A connector is the line of binds together with the binds that
were called, and every step of it is one that a bind, the host or an agent takes by itself.

- `Connector.Step`: the steps, each with what can be seen of it; `Connector.Steps`: what is seen one
  after the other;
- `Connector.Orderly`: the line is made up of the binds that have not returned, only the first of
  them can be open, and the slot is taken by an open bind or empty;
- `Connector.Told`: what was seen since an open bind asked says what has arrived for it;
- `Connector.Protocol`, `Connector.bind_protocol`: **one bind at a time, and each returns what came
  first**;
- `Connector.hostReacts_steps`, `System.meetAgent_of_arrival`: the binds of the engine take such
  steps, whatever its host does when it is asked.
-/

namespace Holdfast

variable {Agent : Type}

namespace Arrival

/-- The agent that a bind returns. -/
def agent? : Arrival Agent → Option Agent
  | .connected agent => some agent
  | .disconnected | .timedOut => none

def isTimedOut : Arrival Agent → Bool
  | .timedOut => true
  | .connected _ | .disconnected => false

end Arrival

theorem Binder.join_fst (b : Binder Agent) : b.join.1 = b.nextTicket := rfl

/-! ## Binds and what can be seen of them -/

/-- How far a bind has come. -/
inductive BindStage (Agent : Type) where
  /-- It is not its turn yet. -/
  | lined
  /-- The host is being asked. -/
  | asking
  /-- The host accepted, and the agent can be met. -/
  | waiting
  /-- The host did not accept. -/
  | refused
  /-- The time ran out, and the host was told to forget the bind. -/
  | cleared
  | returned (agent : Option Agent)

namespace BindStage

/-- Whether the turn has come and the bind has not returned. -/
def isOpen : BindStage Agent → Bool
  | .asking | .waiting | .refused | .cleared => true
  | .lined | .returned _ => false

def isOver : BindStage Agent → Bool
  | .returned _ => true
  | .lined | .asking | .waiting | .refused | .cleared => false

def isCleared : BindStage Agent → Bool
  | .cleared => true
  | .lined | .asking | .waiting | .refused | .returned _ => false

theorem isOver_of_isOpen {stage : BindStage Agent} (h : stage.isOpen = true) :
    stage.isOver = false := by
  cases stage with
  | asking | waiting | refused | cleared => rfl
  | lined | returned _ => cases h

end BindStage

/-- A bind that was called. -/
structure BindCall (Agent : Type) where
  package : String
  stage : BindStage Agent

/-- What can be seen of binds. -/
inductive Happening (Agent : Type) where
  | called (ticket : Nat) (package : String)
  /-- The turn of a bind came, and the host is asked. -/
  | asked (ticket : Nat) (package : String)
  | answered (ticket : Nat) (accepted : Bool)
  /-- An agent connected, and the connector said whether it was awaited. -/
  | connected (package : String) (agent : Agent) (awaited : Bool)
  | disconnected (package : String)
  /-- The time of a bind ran out. -/
  | elapsed (ticket : Nat)
  /-- The host was told to forget a bind. -/
  | cleared
  | returned (ticket : Nat) (agent : Option Agent)

namespace Happening

def isCleared : Happening Agent → Bool
  | .cleared => true
  | _ => false

/-- Whether it is something that only binds and the host do. -/
def isOwn : Happening Agent → Bool
  | .asked _ _ | .answered _ _ | .elapsed _ | .cleared | .returned _ _ => true
  | .called _ _ | .connected _ _ _ | .disconnected _ => false

/-- What a happening means to a bind that is open. -/
def heard (ticket : Nat) (package : String) : Happening Agent → Option (Arrival Agent)
  | .connected other agent _ => if other = package then some (.connected agent) else none
  | .disconnected other => if other = package then some .disconnected else none
  | .elapsed other => if other = ticket then some .timedOut else none
  | .called _ _ | .asked _ _ | .answered _ _ | .cleared | .returned _ _ => none

end Happening

/-- The line of binds with the binds that were called, by their tickets. -/
structure Connector (Agent : Type) where
  binder : Binder Agent := {}
  call? : Nat → Option (BindCall Agent) := fun _ => none

namespace Connector

variable {s s' s'' : Connector Agent} {x : Happening Agent} {h h' mid : List (Happening Agent)}
  {ticket other : Nat} {package : String} {call : BindCall Agent}

/-- A bind comes to a stage. -/
def goOn (s : Connector Agent) (ticket : Nat) (package : String) (stage : BindStage Agent)
    (binder : Binder Agent) : Connector Agent :=
  ⟨binder, Function.update s.call? ticket (some ⟨package, stage⟩)⟩

/-- The steps of binds, of the host and of agents. -/
inductive Step (s : Connector Agent) : Happening Agent → Connector Agent → Prop where
  | called (package : String) : Step s (.called s.binder.join.1 package)
    (s.goOn s.binder.join.1 package .lined s.binder.join.2)
  | asked {ticket : Nat} {package : String} : s.call? ticket = some ⟨package, .lined⟩ →
    s.binder.isTurn ticket = true →
    Step s (.asked ticket package) (s.goOn ticket package .asking (s.binder.await package))
  | answered {ticket : Nat} {package : String} (accepted : Bool) :
    s.call? ticket = some ⟨package, .asking⟩ →
    Step s (.answered ticket accepted)
      (s.goOn ticket package (if accepted then .waiting else .refused) s.binder)
  | connected (package : String) (agent : Agent) :
    Step s (.connected package agent (s.binder.connected package agent).1)
      { s with binder := (s.binder.connected package agent).2 }
  | disconnected (package : String) :
    Step s (.disconnected package) { s with binder := s.binder.disconnected package }
  /-- The time that a bind waits begins when the host has accepted. -/
  | elapsed {ticket : Nat} {package : String} : s.call? ticket = some ⟨package, .waiting⟩ →
    Step s (.elapsed ticket) { s with binder := s.binder.expire ticket }
  | cleared {ticket : Nat} {package : String} : s.call? ticket = some ⟨package, .waiting⟩ →
    s.binder.arrival = some .timedOut →
    Step s .cleared (s.goOn ticket package .cleared s.binder)
  | met {ticket : Nat} {package : String} {agent : Agent} :
    s.call? ticket = some ⟨package, .waiting⟩ → s.binder.arrival = some (.connected agent) →
    Step s (.returned ticket (some agent))
      (s.goOn ticket package (.returned (some agent)) s.binder.leave)
  | missed {ticket : Nat} {package : String} : s.call? ticket = some ⟨package, .waiting⟩ →
    s.binder.arrival = some .disconnected →
    Step s (.returned ticket none) (s.goOn ticket package (.returned none) s.binder.leave)
  | gaveUp {ticket : Nat} {package : String} : s.call? ticket = some ⟨package, .cleared⟩ →
    Step s (.returned ticket none) (s.goOn ticket package (.returned none) s.binder.leave)
  | turnedAway {ticket : Nat} {package : String} : s.call? ticket = some ⟨package, .refused⟩ →
    Step s (.returned ticket none) (s.goOn ticket package (.returned none) s.binder.leave)

/-- What is seen one after the other. -/
inductive Steps (s : Connector Agent) : List (Happening Agent) → Connector Agent → Prop where
  | refl : Steps s [] s
  | go {h : List (Happening Agent)} {x : Happening Agent} {s' s'' : Connector Agent} :
    Steps s h s' → Step s' x s'' → Steps s (h ++ [x]) s''

namespace Steps

theorem single (hstep : s.Step x s') : s.Steps [x] s' := refl.go hstep

theorem trans (hsteps : s.Steps h s') (hsteps' : s'.Steps h' s'') : s.Steps (h ++ h') s'' := by
  induction hsteps' with
  | refl => rwa [List.append_nil]
  | go _ hstep ih =>
    rw [← List.append_assoc]
    exact ih.go hstep

/-- What was seen up to some point was seen by itself. -/
theorem split (hsteps : s.Steps (h ++ h') s'') : ∃ s', s.Steps h s' ∧ s'.Steps h' s'' := by
  generalize hall : h ++ h' = all at hsteps
  induction hsteps generalizing h' with
  | refl =>
    obtain ⟨rfl, rfl⟩ := List.append_eq_nil_iff.1 hall
    exact ⟨s, .refl, .refl⟩
  | @go all x s' s'' hbefore hstep ih =>
    rcases List.eq_nil_or_concat h' with rfl | ⟨before, last, rfl⟩
    · rw [List.append_nil] at hall
      rw [hall]
      exact ⟨s'', hbefore.go hstep, .refl⟩
    · rw [List.concat_eq_append, ← List.append_assoc] at hall
      obtain ⟨hinit, hlast⟩ := List.append_inj' hall rfl
      obtain rfl : last = x := by simpa using hlast
      obtain ⟨mid, hmid, hrest⟩ := ih hinit
      rw [List.concat_eq_append]
      exact ⟨mid, hmid, hrest.go hstep⟩

/-- What was seen before and at one happening. -/
theorem split_cons (hsteps : s.Steps (h ++ x :: h') s'') :
    ∃ s₁ s₂, s.Steps h s₁ ∧ s₁.Step x s₂ ∧ s₂.Steps h' s'' := by
  rw [← List.singleton_append, ← List.append_assoc] at hsteps
  obtain ⟨s₂, hbefore, hrest⟩ := hsteps.split
  generalize hall : h ++ [x] = all at hbefore
  cases hbefore with
  | refl => simp at hall
  | @go before last s₁ _ hbefore hstep =>
    obtain ⟨rfl, hlast⟩ := List.append_inj' hall rfl
    obtain rfl : x = last := by simpa using hlast
    exact ⟨s₁, s₂, hbefore, hstep, hrest⟩

end Steps

/-! ## The line and the slot -/

/-- The slot is settled for the bind that it is open for. -/
def settle (s : Connector Agent) (r : Arrival Agent) : Connector Agent :=
  { s with binder := { s.binder with awaited := none, arrival := some r } }

/-- What a callback does: it settles the slot if it is taken for its package, and nothing else. -/
theorem connected_cases (s : Connector Agent) (package : String) (agent : Agent) :
    (s.binder.awaited = some package ∧ (s.binder.connected package agent).1 = true ∧
      { s with binder := (s.binder.connected package agent).2 } = s.settle (.connected agent)) ∨
    (s.binder.awaited ≠ some package ∧ (s.binder.connected package agent).1 = false ∧
      { s with binder := (s.binder.connected package agent).2 } = s) := by
  unfold Binder.connected
  split
  · exact .inl ⟨‹_›, rfl, rfl⟩
  · exact .inr ⟨‹_›, rfl, rfl⟩

theorem disconnected_cases (s : Connector Agent) (package : String) :
    (s.binder.awaited = some package ∧
      { s with binder := s.binder.disconnected package } = s.settle .disconnected) ∨
    (s.binder.awaited ≠ some package ∧
      { s with binder := s.binder.disconnected package } = s) := by
  unfold Binder.disconnected
  split
  · exact .inl ⟨‹_›, rfl⟩
  · exact .inr ⟨‹_›, rfl⟩

theorem expire_cases (s : Connector Agent) (hturn : s.binder.isTurn ticket = true) :
    (∃ package, s.binder.awaited = some package ∧
      { s with binder := s.binder.expire ticket } = s.settle .timedOut) ∨
    (s.binder.awaited = none ∧ { s with binder := s.binder.expire ticket } = s) := by
  unfold Binder.expire
  rw [hturn, Bool.true_and]
  cases hawaited : s.binder.awaited with
  | none => exact .inr ⟨rfl, rfl⟩
  | some package => exact .inl ⟨package, rfl, rfl⟩

theorem call?_goOn (s : Connector Agent) (ticket : Nat) (package : String)
    (stage : BindStage Agent) (binder : Binder Agent) (other : Nat) :
    (s.goOn ticket package stage binder).call? other =
      if other = ticket then some ⟨package, stage⟩ else s.call? other :=
  Function.update_apply _ _ _ _

theorem call?_goOn_self (s : Connector Agent) (ticket : Nat) (package : String)
    (stage : BindStage Agent) (binder : Binder Agent) :
    (s.goOn ticket package stage binder).call? ticket = some ⟨package, stage⟩ := by
  rw [call?_goOn, if_pos rfl]

/-- A bind is open: its turn has come and it has not returned. -/
def Open (s : Connector Agent) (ticket : Nat) (call : BindCall Agent) : Prop :=
  s.call? ticket = some call ∧ call.stage.isOpen = true

theorem open_goOn {stage : BindStage Agent} {binder : Binder Agent}
    (hopen : (s.goOn ticket package stage binder).Open other call) :
    (other = ticket ∧ call = ⟨package, stage⟩ ∧ stage.isOpen = true) ∨ s.Open other call := by
  obtain ⟨hcall, hstage⟩ := hopen
  rw [call?_goOn] at hcall
  split at hcall
  · cases hcall
    exact .inl ⟨‹_›, rfl, hstage⟩
  · exact .inr ⟨hcall, hstage⟩

theorem open_goOn_returned {agent : Option Agent} {binder : Binder Agent}
    (hopen : (s.goOn ticket package (.returned agent) binder).Open other call) :
    other ≠ ticket ∧ s.Open other call := by
  obtain ⟨hcall, hstage⟩ := hopen
  rw [call?_goOn] at hcall
  split at hcall
  · cases hcall
    cases hstage
  · exact ⟨‹_›, hcall, hstage⟩

theorem open_goOn_self (s : Connector Agent) {stage : BindStage Agent}
    (hstage : stage.isOpen = true) (binder : Binder Agent) :
    (s.goOn ticket package stage binder).Open ticket ⟨package, stage⟩ :=
  ⟨s.call?_goOn_self _ _ _ _, hstage⟩

theorem open_goOn_other {stage : BindStage Agent} {binder : Binder Agent} (hne : other ≠ ticket)
    (hopen : s.Open other call) : (s.goOn ticket package stage binder).Open other call := by
  refine ⟨?_, hopen.2⟩
  rw [call?_goOn, if_neg hne, hopen.1]

/-- The line is made up of the binds that have not returned, only the first of them can be open, and
the slot is taken by an open bind or empty. -/
structure Orderly (s : Connector Agent) : Prop where
  nodup : s.binder.line.Nodup
  fresh : ∀ ticket, s.binder.nextTicket ≤ ticket → s.call? ticket = none
  line : ∀ ticket, ticket ∈ s.binder.line ↔
    ∃ call, s.call? ticket = some call ∧ call.stage.isOver = false
  turn : ∀ ticket call, s.Open ticket call → s.binder.line.head? = some ticket
  idle : (∀ ticket call, ¬ s.Open ticket call) →
    s.binder.awaited = none ∧ s.binder.arrival = none
  slot : ∀ ticket call, s.Open ticket call →
    (s.binder.awaited = some call.package ∧ s.binder.arrival = none ∧
      call.stage.isCleared = false) ∨
    (s.binder.awaited = none ∧ s.binder.arrival ≠ none ∧
      (call.stage.isCleared = true → s.binder.arrival = some .timedOut))

namespace Orderly

theorem start : Orderly ({} : Connector Agent) := by
  refine ⟨.nil, fun _ _ => rfl, fun ticket => ?_, nofun, fun _ => ⟨rfl, rfl⟩, nofun⟩
  exact ⟨fun h => absurd h List.not_mem_nil, nofun⟩

/-- At most one bind is open. -/
theorem open_unique (hs : s.Orderly) {call' : BindCall Agent} (hopen : s.Open ticket call)
    (hopen' : s.Open other call') : other = ticket ∧ call' = call := by
  have hturn := hs.turn _ _ hopen
  rw [hs.turn _ _ hopen'] at hturn
  cases hturn
  exact ⟨rfl, Option.some.inj (hopen'.1.symm.trans hopen.1)⟩

theorem isTurn (hs : s.Orderly) (hopen : s.Open ticket call) :
    s.binder.isTurn ticket = true := by
  rw [Binder.isTurn, hs.turn _ _ hopen]
  exact beq_self_eq_true _

/-- No bind has the next ticket. -/
theorem ne_next (hs : s.Orderly) (hcall : s.call? ticket = some call) :
    ticket ≠ s.binder.nextTicket := by
  rintro rfl
  rw [hs.fresh _ (Nat.le_refl _)] at hcall
  cases hcall

/-- A slot that is taken is taken for the open bind, for which nothing has arrived yet. -/
theorem slot_taken (hs : s.Orderly) (hopen : s.Open ticket call)
    (hawaited : s.binder.awaited = some package) :
    package = call.package ∧ s.binder.arrival = none ∧ call.stage.isCleared = false := by
  rcases hs.slot _ _ hopen with ⟨hslot, hnone, hstage⟩ | ⟨hempty, -⟩
  · exact ⟨Option.some.inj (hawaited.symm.trans hslot), hnone, hstage⟩
  · rw [hawaited] at hempty
    cases hempty

theorem slot_settled (hs : s.Orderly) (hopen : s.Open ticket call)
    (hother : s.binder.awaited ≠ some call.package) : s.binder.arrival ≠ none := by
  rcases hs.slot _ _ hopen with ⟨hawaited, -⟩ | ⟨-, hsome, -⟩
  · exact absurd hawaited hother
  · exact hsome

/-- The slot can be settled only once, and not after the bind was given up. -/
theorem settle (hs : s.Orderly) (hawaited : s.binder.awaited = some package) (r : Arrival Agent) :
    (s.settle r).Orderly where
  nodup := hs.nodup
  fresh := hs.fresh
  line := hs.line
  turn := hs.turn
  idle hnone := by
    obtain ⟨hempty, -⟩ := hs.idle hnone
    rw [hawaited] at hempty
    cases hempty
  slot ticket call hopen := by
    obtain ⟨-, -, hstage⟩ := hs.slot_taken hopen hawaited
    refine .inr ⟨rfl, nofun, fun hcleared => ?_⟩
    rw [hstage] at hcleared
    cases hcleared

/-- Which binds have tickets, and which are in line, is not changed by a bind that goes on without
returning. -/
theorem fresh_goOn (hs : s.Orderly) (hcall : s.call? ticket = some call) (package : String)
    (stage : BindStage Agent) (binder : Binder Agent) {later : Nat}
    (hlater : s.binder.nextTicket ≤ later) :
    (s.goOn ticket package stage binder).call? later = none := by
  have hnone := hs.fresh later hlater
  rw [call?_goOn, if_neg, hnone]
  rintro rfl
  rw [hcall] at hnone
  cases hnone

theorem line_goOn (hs : s.Orderly) (hcall : s.call? ticket = some call)
    (hover : call.stage.isOver = false) {stage : BindStage Agent} (hstage : stage.isOver = false)
    (binder : Binder Agent) (other : Nat) :
    other ∈ s.binder.line ↔ ∃ call', (s.goOn ticket package stage binder).call? other = some call' ∧
      call'.stage.isOver = false := by
  rw [hs.line, call?_goOn]
  by_cases heq : other = ticket
  · subst heq
    rw [if_pos rfl]
    exact ⟨fun _ => ⟨_, rfl, hstage⟩, fun _ => ⟨call, hcall, hover⟩⟩
  · rw [if_neg heq]

/-- The bind that is open comes to another stage. -/
theorem goOn (hs : s.Orderly) (hopen : s.Open ticket call) {stage : BindStage Agent}
    (hstage : stage.isOpen = true)
    (hcleared : stage.isCleared = true → s.binder.arrival = some .timedOut) :
    (s.goOn ticket call.package stage s.binder).Orderly where
  nodup := hs.nodup
  fresh _ hlater := hs.fresh_goOn hopen.1 _ _ _ hlater
  line := hs.line_goOn hopen.1 (BindStage.isOver_of_isOpen hopen.2)
    (BindStage.isOver_of_isOpen hstage) _
  turn other call' hopen' := by
    rcases open_goOn hopen' with ⟨rfl, -, -⟩ | hopen'
    · exact hs.turn _ _ hopen
    · exact hs.turn _ _ hopen'
  idle hnone :=
    absurd (s.open_goOn_self hstage _) (hnone ticket ⟨call.package, stage⟩)
  slot other call' hopen' := by
    rcases open_goOn hopen' with ⟨rfl, rfl, -⟩ | hopen'
    · rcases hs.slot _ _ hopen with ⟨hawaited, hnone, -⟩ | ⟨hempty, hsome, -⟩
      · refine .inl ⟨hawaited, hnone, ?_⟩
        rw [← Bool.not_eq_true]
        intro h
        have harrival := hcleared h
        rw [hnone] at harrival
        cases harrival
      · exact .inr ⟨hempty, hsome, hcleared⟩
    · exact hs.slot _ _ hopen'

/-- A bind is lined up. -/
theorem called (hs : s.Orderly) (package : String) :
    (s.goOn s.binder.join.1 package .lined s.binder.join.2).Orderly where
  nodup := by
    refine List.nodup_append.2 ⟨hs.nodup, List.pairwise_singleton _ _, ?_⟩
    intro other hother new hnew
    obtain ⟨call, hcall, -⟩ := (hs.line other).1 hother
    rw [List.mem_singleton.1 hnew]
    exact hs.ne_next hcall
  fresh later hlater := by
    have hnew : s.binder.nextTicket < later := hlater
    rw [call?_goOn, Binder.join_fst, if_neg (Nat.ne_of_gt hnew)]
    exact hs.fresh later (Nat.le_of_lt hnew)
  line other := by
    rw [call?_goOn, Binder.join_fst]
    show other ∈ s.binder.line ++ [s.binder.nextTicket] ↔ _
    rw [List.mem_append, List.mem_singleton, hs.line]
    by_cases heq : other = s.binder.nextTicket
    · rw [if_pos heq]
      exact ⟨fun _ => ⟨_, rfl, rfl⟩, fun _ => .inr heq⟩
    · rw [if_neg heq]
      exact ⟨fun h => h.resolve_right heq, .inl⟩
  turn other call' hopen' := by
    rcases open_goOn hopen' with ⟨-, -, hstage⟩ | hopen'
    · cases hstage
    · show (s.binder.line ++ [s.binder.nextTicket]).head? = some other
      rw [List.head?_append, hs.turn _ _ hopen']
      rfl
  idle hnone := by
    exact hs.idle fun other call' hopen' =>
      hnone other call' (open_goOn_other (hs.ne_next hopen'.1) hopen')
  slot other call' hopen' := by
    rcases open_goOn hopen' with ⟨-, -, hstage⟩ | hopen'
    · cases hstage
    · exact hs.slot _ _ hopen'

/-- While the first of the line has not asked, no bind is open. -/
theorem not_open_of_lined (hs : s.Orderly) (hcall : s.call? ticket = some ⟨package, .lined⟩)
    (hturn : s.binder.isTurn ticket = true) (other : Nat) (call : BindCall Agent) :
    ¬ s.Open other call := by
  intro hopen
  rw [Binder.isTurn, hs.turn _ _ hopen] at hturn
  obtain rfl : other = ticket := by simpa using hturn
  cases hcall.symm.trans hopen.1
  cases hopen.2

/-- The turn of a bind comes. -/
theorem asked (hs : s.Orderly) (hcall : s.call? ticket = some ⟨package, .lined⟩)
    (hturn : s.binder.isTurn ticket = true) :
    (s.goOn ticket package .asking (s.binder.await package)).Orderly where
  nodup := hs.nodup
  fresh _ hlater := hs.fresh_goOn hcall _ _ _ hlater
  line := hs.line_goOn hcall rfl rfl _
  turn other call' hopen' := by
    rcases open_goOn hopen' with ⟨rfl, -, -⟩ | hopen'
    · exact beq_iff_eq.1 hturn
    · exact absurd hopen' (hs.not_open_of_lined hcall hturn _ _)
  idle hnone :=
    absurd (s.open_goOn_self rfl _) (hnone ticket ⟨package, .asking⟩)
  slot other call' hopen' := by
    rcases open_goOn hopen' with ⟨-, rfl, -⟩ | hopen'
    · exact .inl ⟨rfl, rfl, rfl⟩
    · exact absurd hopen' (hs.not_open_of_lined hcall hturn _ _)

/-- A bind returns. -/
theorem returned (hs : s.Orderly) (hopen : s.Open ticket call) (agent : Option Agent) :
    (s.goOn ticket call.package (.returned agent) s.binder.leave).Orderly := by
  obtain ⟨rest, hline⟩ := List.head?_eq_some_iff.1 (hs.turn _ _ hopen)
  have hnodup := hs.nodup
  rw [hline, List.nodup_cons] at hnodup
  have hleave : s.binder.leave.line = rest := by rw [Binder.leave, hline, List.tail_cons]
  have hnone : ∀ other call',
      ¬ (s.goOn ticket call.package (.returned agent) s.binder.leave).Open other call' := by
    intro other call' hopen'
    obtain ⟨hne, hopen'⟩ := open_goOn_returned hopen'
    exact hne (hs.open_unique hopen hopen').1
  refine ⟨?_, fun _ hlater => hs.fresh_goOn hopen.1 _ _ _ hlater, fun other => ?_,
    fun _ _ hopen' => absurd hopen' (hnone _ _), fun _ => ⟨rfl, rfl⟩,
    fun _ _ hopen' => absurd hopen' (hnone _ _)⟩
  · show s.binder.leave.line.Nodup
    rw [hleave]
    exact hnodup.2
  · show other ∈ s.binder.leave.line ↔ _
    rw [hleave, call?_goOn]
    by_cases heq : other = ticket
    · subst heq
      rw [if_pos rfl]
      refine ⟨fun hmem => absurd hmem hnodup.1, ?_⟩
      rintro ⟨call', hcall', hstage'⟩
      cases hcall'
      cases hstage'
    · rw [if_neg heq, ← hs.line, hline, List.mem_cons]
      exact ⟨.inr, fun h => h.resolve_left heq⟩

/-- **Every step keeps the line in order.** -/
theorem step (hs : s.Orderly) (hstep : s.Step x s') : s'.Orderly := by
  cases hstep with
  | called package => exact hs.called package
  | asked hcall hturn => exact hs.asked hcall hturn
  | answered accepted hcall =>
    refine hs.goOn ⟨hcall, rfl⟩ ?_ ?_
    · cases accepted <;> rfl
    · cases accepted <;> nofun
  | connected package agent =>
    rcases s.connected_cases package agent with ⟨hawaited, -, heq⟩ | ⟨-, -, heq⟩
    · rw [heq]
      exact hs.settle hawaited _
    · rw [heq]
      exact hs
  | disconnected package =>
    rcases s.disconnected_cases package with ⟨hawaited, heq⟩ | ⟨-, heq⟩
    · rw [heq]
      exact hs.settle hawaited _
    · rw [heq]
      exact hs
  | elapsed hcall =>
    rcases s.expire_cases (hs.isTurn ⟨hcall, rfl⟩) with ⟨package, hawaited, heq⟩ | ⟨-, heq⟩
    · rw [heq]
      exact hs.settle hawaited _
    · rw [heq]
      exact hs
  | cleared hcall harrival => exact hs.goOn ⟨hcall, rfl⟩ rfl fun _ => harrival
  | met hcall _ => exact hs.returned ⟨hcall, rfl⟩ _
  | missed hcall _ => exact hs.returned ⟨hcall, rfl⟩ _
  | gaveUp hcall => exact hs.returned ⟨hcall, rfl⟩ _
  | turnedAway hcall => exact hs.returned ⟨hcall, rfl⟩ _

end Orderly

theorem Steps.orderly (hs : s.Orderly) (hsteps : s.Steps h s') : s'.Orderly := by
  induction hsteps with
  | refl => exact hs
  | go _ hstep ih => exact ih.step hstep

/-! ## What was seen of a bind -/

/-- What was seen since a bind asked says what has arrived for it, whether the host was told to
forget it, and that the host did not accept if it did not. -/
structure Tells (s : Connector Agent) (ticket : Nat) (call : BindCall Agent)
    (mid : List (Happening Agent)) : Prop where
  isOpen : s.Open ticket call
  arrival : mid.findSome? (Happening.heard ticket call.package) = s.binder.arrival
  cleared : mid.countP Happening.isCleared = call.stage.isCleared.toNat
  refused : call.stage = .refused → .answered ticket false ∈ mid

/-- What was seen of binds that asked: each has returned, or is still open. -/
structure Told (h : List (Happening Agent)) (s : Connector Agent) : Prop where
  ended : ∀ ticket agent, .returned ticket agent ∈ h →
    ∃ package, s.call? ticket = some ⟨package, .returned agent⟩
  begun : ∀ before mid ticket package, h = before ++ .asked ticket package :: mid →
    (∃ agent, .returned ticket agent ∈ mid) ∨ ∃ stage, s.Tells ticket ⟨package, stage⟩ mid
  asked : ∀ ticket call, s.Open ticket call → ∃ before mid,
    h = before ++ .asked ticket call.package :: mid ∧ ∀ agent, .returned ticket agent ∉ mid

namespace Tells

/-- A happening that says nothing to an open bind. -/
theorem aside (ht : s.Tells ticket call mid) (hopen : s'.Open ticket call)
    (harrival : s'.binder.arrival = s.binder.arrival)
    (hheard : x.heard ticket call.package = none ∨ s.binder.arrival ≠ none)
    (hcleared : x.isCleared = false) : s'.Tells ticket call (mid ++ [x]) where
  isOpen := hopen
  arrival := by
    rw [List.findSome?_append, ht.arrival, harrival]
    rcases hheard with hnone | hsome
    · simp [hnone]
    · cases harrived : s.binder.arrival with
      | none => exact absurd harrived hsome
      | some r => rfl
  cleared := by
    rw [List.countP_append, ht.cleared]
    simp [hcleared]
  refused hstage := List.mem_append_left _ (ht.refused hstage)

/-- A callback settles the slot for an open bind, or says nothing to it. -/
theorem callback (hs : s.Orderly) (ht : s.Tells ticket call mid) {r : Arrival Agent}
    (hcleared : x.isCleared = false)
    (hcallback : (s.binder.awaited = some call.package ∧ x.heard ticket call.package = some r ∧
        s' = s.settle r) ∨
      ((x.heard ticket call.package = none ∨ s.binder.awaited ≠ some call.package) ∧ s' = s)) :
    s'.Tells ticket call (mid ++ [x]) := by
  rcases hcallback with ⟨hawaited, hheard, rfl⟩ | ⟨hnothing, rfl⟩
  · obtain ⟨-, hnone, -⟩ := hs.slot_taken ht.isOpen hawaited
    refine ⟨ht.isOpen, ?_, ?_, fun hstage => List.mem_append_left _ (ht.refused hstage)⟩
    · rw [List.findSome?_append, ht.arrival, hnone]
      simp [hheard, settle]
    · rw [List.countP_append, ht.cleared]
      simp [hcleared]
  · exact ht.aside ht.isOpen rfl (hnothing.imp_right (hs.slot_settled ht.isOpen)) hcleared

/-- **A step returns an open bind, or adds to what was seen of it.** -/
theorem step (hs : s.Orderly) (ht : s.Tells ticket call mid) (hstep : s.Step x s') :
    (∃ agent, x = .returned ticket agent) ∨
      ∃ stage, s'.Tells ticket ⟨call.package, stage⟩ (mid ++ [x]) := by
  have hopen := ht.isOpen
  have hsame : ∀ {other stage package}, s.call? other = some ⟨package, stage⟩ →
      stage.isOpen = true → other = ticket ∧ ⟨package, stage⟩ = call :=
    fun hcall hstage => hs.open_unique hopen ⟨hcall, hstage⟩
  cases hstep with
  | called package =>
    refine .inr ⟨call.stage, ht.aside ?_ rfl (.inl rfl) rfl⟩
    exact open_goOn_other (hs.ne_next hopen.1) hopen
  | asked hcall hturn => exact absurd hopen (hs.not_open_of_lined hcall hturn _ _)
  | @answered ticket package accepted hcall =>
    obtain ⟨rfl, rfl⟩ := hsame hcall rfl
    refine .inr ⟨if accepted then .waiting else .refused, ?_, ?_, ?_, ?_⟩
    · cases accepted <;> exact open_goOn_self _ rfl _
    · rw [List.findSome?_append, ht.arrival]
      exact Option.or_none
    · rw [List.countP_append, ht.cleared]
      cases accepted <;> rfl
    · cases accepted with
      | true => nofun
      | false => exact fun _ => List.mem_append_right _ (List.mem_singleton.2 rfl)
  | connected package agent =>
    refine .inr ⟨call.stage, callback hs ht rfl (r := .connected agent) ?_⟩
    rcases s.connected_cases package agent with ⟨hawaited, -, heq⟩ | ⟨hother, -, heq⟩
    · obtain ⟨hpackage, -⟩ := hs.slot_taken hopen hawaited
      exact .inl ⟨hpackage ▸ hawaited, if_pos hpackage, heq⟩
    · by_cases hpackage : package = call.package
      · exact .inr ⟨.inr (hpackage ▸ hother), heq⟩
      · exact .inr ⟨.inl (if_neg hpackage), heq⟩
  | disconnected package =>
    refine .inr ⟨call.stage, callback hs ht rfl (r := .disconnected) ?_⟩
    rcases s.disconnected_cases package with ⟨hawaited, heq⟩ | ⟨hother, heq⟩
    · obtain ⟨hpackage, -⟩ := hs.slot_taken hopen hawaited
      exact .inl ⟨hpackage ▸ hawaited, if_pos hpackage, heq⟩
    · by_cases hpackage : package = call.package
      · exact .inr ⟨.inr (hpackage ▸ hother), heq⟩
      · exact .inr ⟨.inl (if_neg hpackage), heq⟩
  | elapsed hcall =>
    obtain ⟨rfl, rfl⟩ := hsame hcall rfl
    refine .inr ⟨.waiting, callback hs ht rfl (r := .timedOut) ?_⟩
    rcases s.expire_cases (hs.isTurn hopen) with ⟨package, hawaited, heq⟩ | ⟨hempty, heq⟩
    · obtain ⟨hpackage, -⟩ := hs.slot_taken hopen hawaited
      exact .inl ⟨hpackage ▸ hawaited, if_pos rfl, heq⟩
    · refine .inr ⟨.inr ?_, heq⟩
      rw [hempty]
      nofun
  | cleared hcall harrival =>
    obtain ⟨rfl, rfl⟩ := hsame hcall rfl
    refine .inr ⟨.cleared, open_goOn_self _ rfl _, ?_, ?_, nofun⟩
    · rw [List.findSome?_append, ht.arrival]
      exact Option.or_none
    · rw [List.countP_append, ht.cleared]
      rfl
  | met hcall _ =>
    obtain ⟨rfl, -⟩ := hsame hcall rfl
    exact .inl ⟨_, rfl⟩
  | missed hcall _ =>
    obtain ⟨rfl, -⟩ := hsame hcall rfl
    exact .inl ⟨_, rfl⟩
  | gaveUp hcall =>
    obtain ⟨rfl, -⟩ := hsame hcall rfl
    exact .inl ⟨_, rfl⟩
  | turnedAway hcall =>
    obtain ⟨rfl, -⟩ := hsame hcall rfl
    exact .inl ⟨_, rfl⟩

end Tells

/-! ## What steps do to a single bind -/

/-- A bind that has returned stays as it is. -/
theorem Orderly.call?_of_over (hs : s.Orderly) (hstep : s.Step x s')
    (hcall : s.call? ticket = some call) (hover : call.stage.isOver = true) :
    s'.call? ticket = some call := by
  have hother : ∀ {other package stage binder} {call' : BindCall Agent},
      s.call? other = some call' → call'.stage.isOver = false →
      (s.goOn other package stage binder).call? ticket = some call := by
    intro other package stage binder call' hcall' hover'
    rw [call?_goOn, if_neg, hcall]
    rintro rfl
    cases hcall.symm.trans hcall'
    rw [hover] at hover'
    cases hover'
  cases hstep with
  | called package => exact (call?_goOn _ _ _ _ _ _).trans ((if_neg (hs.ne_next hcall)).trans hcall)
  | asked hcall' _ => exact hother hcall' rfl
  | answered _ hcall' => exact hother hcall' rfl
  | connected _ _ => exact hcall
  | disconnected _ => exact hcall
  | elapsed _ => exact hcall
  | cleared hcall' _ => exact hother hcall' rfl
  | met hcall' _ => exact hother hcall' rfl
  | missed hcall' _ => exact hother hcall' rfl
  | gaveUp hcall' => exact hother hcall' rfl
  | turnedAway hcall' => exact hother hcall' rfl

/-- Only an open bind returns. -/
theorem returned_cases {agent : Option Agent} (hstep : s.Step (.returned ticket agent) s') :
    ∃ call, s.Open ticket call ∧ s'.call? ticket = some ⟨call.package, .returned agent⟩ := by
  cases hstep with
  | met hcall _ => exact ⟨_, ⟨hcall, rfl⟩, s.call?_goOn_self _ _ _ _⟩
  | missed hcall _ => exact ⟨_, ⟨hcall, rfl⟩, s.call?_goOn_self _ _ _ _⟩
  | gaveUp hcall => exact ⟨_, ⟨hcall, rfl⟩, s.call?_goOn_self _ _ _ _⟩
  | turnedAway hcall => exact ⟨_, ⟨hcall, rfl⟩, s.call?_goOn_self _ _ _ _⟩

/-- A bind that has just asked has heard nothing. -/
theorem tells_of_asked (hstep : s.Step (.asked ticket package) s') :
    s'.Tells ticket ⟨package, .asking⟩ [] := by
  cases hstep with
  | asked hcall hturn => exact ⟨open_goOn_self _ rfl _, rfl, rfl, nofun⟩

/-- A bind is open because it has just asked, or it was open before and has not returned. -/
theorem open_cases (hstep : s.Step x s') (hopen : s'.Open ticket call) :
    x = .asked ticket call.package ∨
      ∃ call', s.Open ticket call' ∧ call'.package = call.package ∧
        ∀ agent, x ≠ .returned ticket agent := by
  have hleft : ∀ {other package agent binder},
      (s.goOn other package (.returned agent) binder).Open ticket call →
      ∃ call', s.Open ticket call' ∧ call'.package = call.package ∧
        ∀ agent', (Happening.returned other agent : Happening Agent) ≠ .returned ticket agent' := by
    intro other package agent binder hopen
    obtain ⟨hne, hopen⟩ := open_goOn_returned hopen
    refine ⟨call, hopen, rfl, fun agent' heq => ?_⟩
    cases heq
    exact hne rfl
  cases hstep with
  | called _ =>
    rcases open_goOn hopen with ⟨-, -, hstage⟩ | hopen
    · cases hstage
    · exact .inr ⟨call, hopen, rfl, nofun⟩
  | asked _ _ =>
    rcases open_goOn hopen with ⟨rfl, rfl, -⟩ | hopen
    · exact .inl rfl
    · exact .inr ⟨call, hopen, rfl, nofun⟩
  | answered _ hcall =>
    rcases open_goOn hopen with ⟨rfl, rfl, -⟩ | hopen
    · exact .inr ⟨_, ⟨hcall, rfl⟩, rfl, nofun⟩
    · exact .inr ⟨call, hopen, rfl, nofun⟩
  | connected _ _ => exact .inr ⟨call, hopen, rfl, nofun⟩
  | disconnected _ => exact .inr ⟨call, hopen, rfl, nofun⟩
  | elapsed _ => exact .inr ⟨call, hopen, rfl, nofun⟩
  | cleared hcall _ =>
    rcases open_goOn hopen with ⟨rfl, rfl, -⟩ | hopen
    · exact .inr ⟨_, ⟨hcall, rfl⟩, rfl, nofun⟩
    · exact .inr ⟨call, hopen, rfl, nofun⟩
  | met _ _ => exact .inr (hleft hopen)
  | missed _ _ => exact .inr (hleft hopen)
  | gaveUp _ => exact .inr (hleft hopen)
  | turnedAway _ => exact .inr (hleft hopen)

namespace Told

theorem start : Told [] ({} : Connector Agent) where
  ended := nofun
  begun before mid ticket package h := by simp at h
  asked := nofun

/-- **What was seen goes with the steps.** -/
theorem step (hs : s.Orderly) (ht : Told h s) (hstep : s.Step x s') : Told (h ++ [x]) s' where
  ended ticket agent hmem := by
    rcases List.mem_append.1 hmem with hbefore | hnow
    · obtain ⟨package, hcall⟩ := ht.ended ticket agent hbefore
      exact ⟨package, hs.call?_of_over hstep hcall rfl⟩
    · rw [← List.mem_singleton.1 hnow] at hstep
      obtain ⟨call, -, hcall⟩ := returned_cases hstep
      exact ⟨call.package, hcall⟩
  begun before mid ticket package hseen := by
    rcases List.eq_nil_or_concat mid with rfl | ⟨mid, last, rfl⟩
    · obtain ⟨-, hlast⟩ := List.append_inj' hseen rfl
      rw [List.singleton_inj.1 hlast] at hstep
      exact .inr ⟨.asking, tells_of_asked hstep⟩
    · rw [List.concat_eq_append, ← List.cons_append, ← List.append_assoc] at hseen
      obtain ⟨rfl, hlast⟩ := List.append_inj' hseen rfl
      obtain rfl : x = last := by simpa using hlast
      rw [List.concat_eq_append]
      rcases ht.begun before mid ticket package rfl with ⟨agent, hmem⟩ | ⟨stage, htells⟩
      · exact .inl ⟨agent, List.mem_append_left _ hmem⟩
      · refine (htells.step hs hstep).imp_left ?_
        rintro ⟨agent, rfl⟩
        exact ⟨agent, List.mem_append_right _ (List.mem_singleton.2 rfl)⟩
  asked ticket call hopen := by
    rcases open_cases hstep hopen with rfl | ⟨call', hopen', hpackage, hnot⟩
    · exact ⟨h, [], rfl, fun _ => List.not_mem_nil⟩
    · obtain ⟨before, mid, rfl, hmid⟩ := ht.asked ticket call' hopen'
      refine ⟨before, mid ++ [x], by simp [hpackage], fun agent hmem => ?_⟩
      rcases List.mem_append.1 hmem with hmem | hmem
      · exact hmid agent hmem
      · exact hnot agent (List.mem_singleton.1 hmem).symm

end Told

/-! ## Runs -/

/-- What can be seen from the beginning on. -/
def Run (h : List (Happening Agent)) (s : Connector Agent) : Prop := Steps {} h s

namespace Run

theorem orderly (hrun : Run h s) : s.Orderly := Steps.orderly .start hrun

/-- **In every run, what was seen goes with the state.** -/
theorem told (hrun : Run h s) : Told h s := by
  unfold Run at hrun
  induction hrun with
  | refl => exact .start
  | go hbefore hstep ih => exact ih.step (orderly hbefore) hstep

end Run

/-! ## What a bind returns -/

/-- A bind that the host did not refuse returns what came first, and the host is told to forget it
once if that was the end of its time. -/
theorem Tells.outcome (hs : s.Orderly) (ht : s.Tells ticket call mid) {agent : Option Agent}
    (hstep : s.Step (.returned ticket agent) s') (haccepted : .answered ticket false ∉ mid) :
    ∃ first, mid.findSome? (Happening.heard ticket call.package) = some first ∧
      agent = first.agent? ∧ mid.countP Happening.isCleared = first.isTimedOut.toNat := by
  rw [ht.arrival, ht.cleared]
  have hcall := ht.isOpen.1
  cases hstep with
  | @met _ _ agent hmet harrival =>
    cases hcall.symm.trans hmet
    exact ⟨.connected agent, harrival, rfl, rfl⟩
  | missed hmissed harrival =>
    cases hcall.symm.trans hmissed
    exact ⟨.disconnected, harrival, rfl, rfl⟩
  | gaveUp hgaveUp =>
    cases hcall.symm.trans hgaveUp
    rcases hs.slot _ _ ht.isOpen with ⟨-, -, hstage⟩ | ⟨-, -, harrival⟩
    · cases hstage
    · exact ⟨.timedOut, harrival rfl, rfl, rfl⟩
  | turnedAway hrefused =>
    cases hcall.symm.trans hrefused
    exact absurd (ht.refused rfl) haccepted

/-! ## No bind is stuck -/

/-- Steps of binds and of the host lead to a line. -/
def Leads (s : Connector Agent) (line : List Nat) : Prop :=
  ∃ h s', s.Steps h s' ∧ (∀ x ∈ h, x.isOwn = true) ∧ s'.binder.line = line

section

variable {line : List Nat}

theorem Leads.step (hstep : s.Step x s') (hown : x.isOwn = true) (hleads : s'.Leads line) :
    s.Leads line := by
  obtain ⟨h, s'', hsteps, howns, hline⟩ := hleads
  refine ⟨[x] ++ h, s'', (Steps.single hstep).trans hsteps, fun y hy => ?_, hline⟩
  rcases List.mem_append.1 hy with hy | hy
  · rw [List.mem_singleton.1 hy]
    exact hown
  · exact howns y hy

theorem Leads.refl (s : Connector Agent) : s.Leads s.binder.line := ⟨[], s, .refl, nofun, rfl⟩

/-- The bind whose turn it is comes to a stage, and from there on. -/
theorem Leads.goOn {stage : BindStage Agent} {binder : Binder Agent}
    (hstep : s.Step x (s.goOn ticket package stage binder)) (hown : x.isOwn = true)
    (hnext : (s.goOn ticket package stage binder).call? ticket = some ⟨package, stage⟩ →
      (s.goOn ticket package stage binder).Leads line) : s.Leads line :=
  .step hstep hown (hnext (s.call?_goOn_self ticket package stage binder))

/-- Once something has arrived for it, a bind that waits returns that. The host is told to forget it
before if its time ran out. -/
theorem steps_of_arrival (hcall : s.call? ticket = some ⟨package, .waiting⟩) {r : Arrival Agent}
    (harrival : s.binder.arrival = some r) :
    ∃ s', s.Steps ((if r.isTimedOut then [.cleared] else []) ++ [.returned ticket r.agent?]) s' ∧
      s'.binder = s.binder.leave := by
  cases r with
  | connected agent => exact ⟨_, .single (.met hcall harrival), rfl⟩
  | disconnected => exact ⟨_, .single (.missed hcall harrival), rfl⟩
  | timedOut =>
    have hcleared := Step.cleared hcall harrival
    exact ⟨_, (Steps.single hcleared).go (.gaveUp (s.call?_goOn_self _ _ _ _)), rfl⟩

theorem leads_of_arrival (hcall : s.call? ticket = some ⟨package, .waiting⟩) {r : Arrival Agent}
    (harrival : s.binder.arrival = some r) : s.Leads s.binder.line.tail := by
  obtain ⟨s', hsteps, hbinder⟩ := steps_of_arrival hcall harrival
  refine ⟨_, s', hsteps, ?_, congrArg Binder.line hbinder⟩
  cases r <;> simp [Arrival.isTimedOut, Happening.isOwn]

/-- A bind that waits returns, at the latest when its time runs out. -/
theorem leads_of_waiting (hs : s.Orderly) (hcall : s.call? ticket = some ⟨package, .waiting⟩) :
    s.Leads s.binder.line.tail := by
  cases harrival : s.binder.arrival with
  | none =>
    rcases s.expire_cases (hs.isTurn ⟨hcall, rfl⟩) with ⟨_, _, heq⟩ | ⟨hempty, -⟩
    · have hstep := Step.elapsed hcall
      rw [heq] at hstep
      exact .step hstep rfl (leads_of_arrival (s := s.settle .timedOut) hcall rfl)
    · refine absurd harrival (hs.slot_settled ⟨hcall, rfl⟩ ?_)
      rw [hempty]
      nofun
  | some r => exact leads_of_arrival hcall harrival

theorem leads_of_asking (hs : s.Orderly) (hcall : s.call? ticket = some ⟨package, .asking⟩) :
    s.Leads s.binder.line.tail :=
  have hstep := Step.answered true hcall
  .goOn hstep rfl (leads_of_waiting (hs.step hstep))

/-- The bind whose turn it is can return. -/
theorem leads_of_turn (hs : s.Orderly) (hline : s.binder.line = ticket :: line) :
    s.Leads line := by
  obtain ⟨⟨package, stage⟩, hcall, hover⟩ := (hs.line ticket).1 (hline ▸ List.mem_cons_self)
  have htail : line = s.binder.line.tail := by rw [hline, List.tail_cons]
  rw [htail]
  cases stage with
  | lined =>
    have hstep := Step.asked hcall (by rw [Binder.isTurn, hline]; exact beq_self_eq_true _)
    exact .goOn hstep rfl (leads_of_asking (hs.step hstep))
  | asking => exact leads_of_asking hs hcall
  | waiting => exact leads_of_waiting hs hcall
  | refused => exact .step (.turnedAway hcall) rfl (.refl _)
  | cleared => exact .step (.gaveUp hcall) rfl (.refl _)
  | returned agent => cases hover

end

/-- **No bind is stuck.** Whatever has happened, all binds can still return without anything that an
agent would have to do. -/
theorem Orderly.exists_returned (hs : s.Orderly) : ∃ h s', s.Steps h s' ∧
    (∀ x ∈ h, x.isOwn = true) ∧
      ∀ ticket call, s'.call? ticket = some call → call.stage.isOver = true := by
  generalize hline : s.binder.line = line
  induction line generalizing s with
  | nil =>
    refine ⟨[], s, .refl, nofun, fun ticket call hcall => ?_⟩
    rw [← Bool.not_eq_false]
    intro hover
    have hmem := (hs.line ticket).2 ⟨call, hcall, hover⟩
    rw [hline] at hmem
    cases hmem
  | cons ticket line ih =>
    obtain ⟨h, s', hsteps, howns, hline'⟩ := leads_of_turn hs hline
    obtain ⟨h', s'', hsteps', howns', hover⟩ := ih (hsteps.orderly hs) hline'
    refine ⟨h ++ h', s'', hsteps.trans hsteps', fun x hx => ?_, hover⟩
    rcases List.mem_append.1 hx with hx | hx
    · exact howns x hx
    · exact howns' x hx

/-! ## The protocol -/

/-- The protocol of binds, of what was seen and of the state that it led to. -/
structure Protocol (h : List (Happening Agent)) (s : Connector Agent) : Prop where
  /-- The host is asked for the next agent only after the bind before has returned. -/
  serial : ∀ before mid after ticket package other package',
    h = before ++ .asked ticket package :: (mid ++ .asked other package' :: after) →
    ∃ agent, .returned ticket agent ∈ mid
  /-- At most one bind has asked and not returned. -/
  single : ∀ ticket other call call', s.Open ticket call → s.Open other call' → other = ticket
  /-- The slot is empty while no bind is under way. -/
  idle : (∀ ticket call, s.call? ticket = some call → call.stage.isOver = true) →
    s.binder.awaited = none
  /-- A bind that was not refused returns the agent that connected, if that came first, and has the
  host forget it once if its time ran out first. -/
  outcome : ∀ before mid after ticket package agent,
    h = before ++ .asked ticket package :: (mid ++ .returned ticket agent :: after) →
    .answered ticket false ∉ mid →
    ∃ first, mid.findSome? (Happening.heard ticket package) = some first ∧
      agent = first.agent? ∧ mid.countP Happening.isCleared = first.isTimedOut.toNat
  /-- An agent can connect at any time. -/
  connects : ∀ package agent, ∃ awaited s', s.Step (.connected package agent awaited) s'
  /-- It is awaited if a bind of its package has asked, has not returned and has heard nothing yet.
  If it is not, nothing changes. -/
  awaited : ∀ package agent awaited s', s.Step (.connected package agent awaited) s' →
    (awaited = true ↔ ∃ before mid ticket, h = before ++ .asked ticket package :: mid ∧
      (∀ agent', .returned ticket agent' ∉ mid) ∧
      mid.findSome? (Happening.heard ticket package) = none) ∧
    (awaited = false → s' = s)
  /-- All binds can return. -/
  returns : ∃ h' s', s.Steps h' s' ∧ (∀ x ∈ h', x.isOwn = true) ∧
    ∀ ticket call, s'.call? ticket = some call → call.stage.isOver = true

/-- Which package is awaited can be told from what was seen. -/
theorem Told.awaited_iff (hs : s.Orderly) (ht : Told h s) : s.binder.awaited = some package ↔
    ∃ before mid ticket, h = before ++ .asked ticket package :: mid ∧
      (∀ agent, .returned ticket agent ∉ mid) ∧
      mid.findSome? (Happening.heard ticket package) = none := by
  constructor
  · intro hawaited
    obtain ⟨ticket, call, hopen⟩ : ∃ ticket call, s.Open ticket call := by
      by_contra hnone
      have hempty := (hs.idle fun ticket call hopen => hnone ⟨ticket, call, hopen⟩).1
      rw [hawaited] at hempty
      cases hempty
    obtain ⟨rfl, hnone, -⟩ := hs.slot_taken hopen hawaited
    obtain ⟨before, mid, hseen, hmid⟩ := ht.asked ticket call hopen
    refine ⟨before, mid, ticket, hseen, hmid, ?_⟩
    rcases ht.begun before mid ticket _ hseen with ⟨agent, hmem⟩ | ⟨stage, htells⟩
    · exact absurd hmem (hmid agent)
    · exact htells.arrival.trans hnone
  · rintro ⟨before, mid, ticket, hseen, hmid, hnothing⟩
    rcases ht.begun before mid ticket _ hseen with ⟨agent, hmem⟩ | ⟨stage, htells⟩
    · exact absurd hmem (hmid agent)
    · by_contra hother
      exact hs.slot_settled htells.isOpen hother (htells.arrival.symm.trans hnothing)

namespace Run

theorem serial (hrun : Run h s) {before after : List (Happening Agent)} {package' : String}
    (hseen : h = before ++ .asked ticket package :: (mid ++ .asked other package' :: after)) :
    ∃ agent, .returned ticket agent ∈ mid := by
  subst hseen
  unfold Run at hrun
  rw [← List.cons_append, ← List.append_assoc] at hrun
  obtain ⟨s₁, s₂, hbefore, hstep, -⟩ := hrun.split_cons
  have hs := orderly hbefore
  refine ((told hbefore).begun before mid ticket package rfl).resolve_right ?_
  rintro ⟨stage, htells⟩
  -- the other bind could not ask while this one is open
  cases hstep with
  | asked hcall hturn => exact hs.not_open_of_lined hcall hturn _ _ htells.isOpen

theorem outcome (hrun : Run h s) {before after : List (Happening Agent)}
    {agent : Option Agent}
    (hseen : h = before ++ .asked ticket package :: (mid ++ .returned ticket agent :: after))
    (haccepted : .answered ticket false ∉ mid) :
    ∃ first, mid.findSome? (Happening.heard ticket package) = some first ∧
      agent = first.agent? ∧ mid.countP Happening.isCleared = first.isTimedOut.toNat := by
  subst hseen
  unfold Run at hrun
  rw [← List.cons_append, ← List.append_assoc] at hrun
  obtain ⟨s₁, s₂, hbefore, hstep, -⟩ := hrun.split_cons
  have hs := orderly hbefore
  have ht := told hbefore
  rcases ht.begun before mid ticket package rfl with ⟨agent', hmem⟩ | ⟨stage, htells⟩
  · -- it would have returned twice
    obtain ⟨call, hopen, -⟩ := returned_cases hstep
    obtain ⟨_, hcall⟩ := ht.ended ticket agent' (by simp [hmem])
    cases hcall.symm.trans hopen.1
    cases hopen.2
  · exact htells.outcome hs hstep haccepted

end Run

/-- **One bind at a time, and each returns what came first.** -/
theorem bind_protocol {h : List (Happening Agent)} {s : Connector Agent} (hrun : Run h s) :
    Protocol h s where
  serial _ _ _ _ _ _ _ hseen := hrun.serial hseen
  single _ _ _ _ hopen hopen' := (hrun.orderly.open_unique hopen hopen').1
  idle hover := by
    refine (hrun.orderly.idle fun ticket call hopen => ?_).1
    have hdone := hover ticket call hopen.1
    rw [BindStage.isOver_of_isOpen hopen.2] at hdone
    cases hdone
  outcome _ _ _ _ _ _ hseen haccepted := hrun.outcome hseen haccepted
  connects package agent := ⟨_, _, .connected package agent⟩
  awaited package agent awaited s' hstep := by
    rw [← hrun.told.awaited_iff hrun.orderly]
    cases hstep with
    | connected =>
      rcases s.connected_cases package agent with ⟨hawaited, hyes, -⟩ | ⟨hother, hno, heq⟩
      · rw [hyes]
        exact ⟨⟨fun _ => hawaited, fun _ => rfl⟩, nofun⟩
      · rw [hno]
        exact ⟨⟨nofun, fun hawaited => absurd hawaited hother⟩, fun _ => heq⟩
  returns := hrun.orderly.exists_returned

/-- Two binds at once: the first agent comes up in time, although another one came up too early for
its bind, and the time of the second bind runs out. -/
theorem bind_protocol_overlapping : ∃ s : Connector String,
    Run [.called 0 "com.a", .called 1 "com.b", .asked 0 "com.a", .connected "com.b" "early" false,
        .answered 0 true, .connected "com.a" "agent" true, .returned 0 (some "agent"),
        .asked 1 "com.b", .answered 1 true, .elapsed 1, .cleared, .returned 1 none] s ∧
      Protocol [.called 0 "com.a", .called 1 "com.b", .asked 0 "com.a",
        .connected "com.b" "early" false, .answered 0 true, .connected "com.a" "agent" true,
        .returned 0 (some "agent"), .asked 1 "com.b", .answered 1 true, .elapsed 1, .cleared,
        .returned 1 none] s := by
  have hlined := ((Steps.refl (s := ({} : Connector String))).go (.called "com.a")).go
    (.called "com.b")
  have hfirst := (((hlined.go (@Step.asked _ _ 0 "com.a" rfl rfl)).go
    (.connected "com.b" "early")).go (@Step.answered _ _ 0 "com.a" true rfl)).go
    (.connected "com.a" "agent")
  have hmet := hfirst.go (@Step.met _ _ 0 "com.a" "agent" rfl rfl)
  have hsecond := ((hmet.go (@Step.asked _ _ 1 "com.b" rfl rfl)).go
    (@Step.answered _ _ 1 "com.b" true rfl)).go (@Step.elapsed _ _ 1 "com.b" rfl)
  have hrun := (hsecond.go (@Step.cleared _ _ 1 "com.b" rfl rfl)).go
    (@Step.gaveUp _ _ 1 "com.b" rfl)
  exact ⟨_, hrun, bind_protocol hrun⟩

/-! ## The binds of the engine -/

/-- Asking the host of the engine is such a run, whatever it does when it is asked. -/
theorem hostReacts_steps {s : Connector Unit} (behaviour : Device.Behaviour)
    (hcall : s.call? ticket = some ⟨package, .lined⟩) (hturn : s.binder.isTurn ticket = true) :
    ∃ h s', s.Steps ([.asked ticket package] ++ h ++ [.answered ticket
        (System.hostReacts behaviour package (s.binder.await package)).1]) s' ∧
      (∀ x ∈ h, x.isOwn = false) ∧
      s'.binder = (System.hostReacts behaviour package (s.binder.await package)).2 := by
  have hasked := Steps.single (.asked hcall hturn)
  generalize hs : s.goOn ticket package .asking (s.binder.await package) = asking at hasked
  have hasking : asking.call? ticket = some ⟨package, .asking⟩ := hs ▸ s.call?_goOn_self _ _ _ _
  have hbinder : s.binder.await package = asking.binder := by rw [← hs]; rfl
  rw [hbinder]
  cases behaviour with
  | normal | double | silent =>
    have hconnected := hasked.go (.connected package ())
    exact ⟨[_], _, hconnected.go (.answered _ hasking), by simp [Happening.isOwn], rfl⟩
  | unreachable | refuse =>
    exact ⟨[], _, hasked.go (.answered _ hasking), nofun, rfl⟩
  | disconnect =>
    have hdisconnected := hasked.go (.disconnected package)
    exact ⟨[_], _, hdisconnected.go (.answered _ hasking), by simp [Happening.isOwn], rfl⟩
  | wrong =>
    have hconnected := hasked.go (.connected "com.somebody.else" ())
    exact ⟨[_], _, hconnected.go (.answered _ hasking), by simp [Happening.isOwn], rfl⟩

end Connector

/-- What the engine does when a bind returns depends on what the bind returns and on whether its
time ran out. -/
theorem System.meetAgent_of_arrival {s : System} {r : Arrival Unit} (t : Task) (v : Visit)
    (harrival : s.engine.binder.arrival = some r) :
    s.meetAgent t v =
      let left := s.onEngine fun e => { e with binder := e.binder.leave }
      let told := if r.isTimedOut then left.note .clearPending else left
      match r.agent? with
      | some _ => told.prepare t v
      | none => told.visitFailed t v .agentFailure := by
  unfold meetAgent
  rw [harrival]
  cases r <;> rfl

end Holdfast
