import Holdfast.Pass.Lifecycle

/-!
# What a pass remembers of its course

A pass keeps its state, its transport, its failure and its history side by side, and each is
written by a rule of its own. They agree nevertheless, since the table leaves a pass few courses:
it is bound once, and what ends it comes last.

- `Lifecycle.target_cases`: what the table allows, in four sorts of steps; the other lemmas on the
  table are read off it;
- `Lifecycle.after`, `Lifecycle.accepted`: a pass that is offered events, and those it accepts;
- `Pass.Leads`: transitions of the table that follow each other; `Pass.Bound`: a transport was
  bound and nothing has ended the pass since;
- `Lifecycle.Tracks`: the fields of a pass answer to the events it accepted. One accepted event
  keeps this (`Lifecycle.Tracks.enter`), and so do any events (`Lifecycle.Tracks.after`);
- `Lifecycle.course_remembered`: **the fields of a pass tell which events it accepted, and those
  that it refused leave no trace**.
-/

namespace Holdfast.Pass

/-! ## States and events -/

/-- How many transitions a pass in a state can make at most. -/
def State.remaining : State → Nat
  | .requested => 3
  | .transportBound => 2
  | .dispatched => 1
  | .gated | .completed | .canceled | .timedOut => 0

theorem State.remaining_pos {s : State} (h : s.holdsTransport = true) : 0 < s.remaining := by
  cases s with
  | transportBound | dispatched => decide
  | _ => cases h

theorem State.remaining_eq_zero {s : State} (h : s.isTerminal = true) : s.remaining = 0 := by
  cases s with
  | requested | transportBound | dispatched => cases h
  | _ => rfl

/-- A pass that has ended holds no transport. -/
theorem State.holdsTransport_eq_false {s : State} (h : s.isTerminal = true) :
    s.holdsTransport = false := by
  cases s with
  | requested | transportBound | dispatched => cases h
  | _ => rfl

theorem Event.failure?_eq_some_iff {event : Event} {reason : String} :
    event.failure? = some reason ↔ event = .reject reason ∨ event = .fail reason := by
  cases event <;> simp [Event.failure?]

/-- Only events that end a pass give a reason. -/
theorem Event.isTerminal_of_failure? {event : Event} {reason : String}
    (h : event.failure? = some reason) : event.isTerminal = true := by
  obtain rfl | rfl := Event.failure?_eq_some_iff.1 h <;> rfl

/-! ## Events in a row -/

/-- Transitions of the table that lead from one state to another, each beginning where the one
before it ended. -/
inductive Leads : State → List Transition → State → Prop where
  | nil (s : State) : Leads s [] s
  | cons {s t u : State} {event : Event} {links : List Transition}
      (hlink : Lifecycle.target s event = some t) (hrest : Leads t links u) :
      Leads s (⟨s, event, t⟩ :: links) u

/-- A chain goes on where it ended. -/
theorem Leads.concat {s t u : State} {event : Event} {links : List Transition}
    (h : Leads s links t) (hlink : Lifecycle.target t event = some u) :
    Leads s (links ++ [⟨t, event, u⟩]) u := by
  induction h with
  | nil s => exact .cons hlink (.nil u)
  | cons hfirst hrest ih => exact .cons hfirst (ih hlink)

/-- Among the events a transport was bound, and none since has ended the pass. -/
def Bound (taken : List Event) : Prop :=
  ∃ before name rest, taken = before ++ .bindTransport name :: rest ∧
    ∀ event ∈ rest, event.isTerminal = false

theorem not_bound_nil : ¬ Bound [] := by
  rintro ⟨before, name, rest, htaken, -⟩
  simp at htaken

/-- One more event binds a transport, or leaves the bound one unless it ends the pass. -/
theorem bound_concat {taken : List Event} {event : Event} :
    Bound (taken ++ [event]) ↔
      (∃ name, event = .bindTransport name) ∨ (Bound taken ∧ event.isTerminal = false) := by
  constructor
  · rintro ⟨before, name, rest, htaken, hrest⟩
    -- the new event is the binding itself, or the last of those since
    rcases List.eq_nil_or_concat rest with rfl | ⟨rest, last, rfl⟩
    · obtain ⟨-, hlast⟩ := List.append_inj' htaken rfl
      cases hlast
      exact .inl ⟨name, rfl⟩
    · rw [List.concat_eq_append, ← List.cons_append, ← List.append_assoc] at htaken
      obtain ⟨rfl, hlast⟩ := List.append_inj' htaken rfl
      cases hlast
      simp only [List.concat_eq_append, List.mem_append, List.mem_singleton] at hrest
      refine .inr ⟨⟨before, name, rest, rfl, ?_⟩, hrest event (.inr rfl)⟩
      intro e he
      exact hrest e (.inl he)
  · rintro (⟨name, rfl⟩ | ⟨⟨before, name, rest, rfl, hrest⟩, hevent⟩)
    · exact ⟨taken, name, [], rfl, by simp⟩
    · refine ⟨before, name, rest ++ [event], by simp, ?_⟩
      intro e he
      rcases List.mem_append.1 he with hold | hnew
      · exact hrest e hold
      · rwa [List.mem_singleton.1 hnew]

namespace Lifecycle

variable {s t : State} {event : Event}

/-! ## The table -/

/-- What the table allows: a pass is refused, gets a transport, is handed out, or ends while it
has a transport. -/
theorem target_cases (h : target s event = some t) :
    (s = .requested ∧ (∃ reason, event = .reject reason) ∧ t = .gated) ∨
    (s = .requested ∧ (∃ name, event = .bindTransport name) ∧ t = .transportBound) ∨
    (s = .transportBound ∧ event = .dispatch ∧ t = .dispatched) ∨
    (s.holdsTransport = true ∧ event.isTerminal = true ∧ t.isTerminal = true) := by
  unfold target at h
  split at h <;> cases h
  · exact .inl ⟨rfl, ⟨_, rfl⟩, rfl⟩
  · exact .inr (.inl ⟨rfl, ⟨_, rfl⟩, rfl⟩)
  · exact .inr (.inr (.inl ⟨rfl, rfl, rfl⟩))
  -- the five ways to end
  all_goals exact .inr (.inr (.inr ⟨rfl, rfl, rfl⟩))

/-- An accepted event shows in the next state whether it ends the pass. -/
theorem isTerminal_target (h : target s event = some t) : t.isTerminal = event.isTerminal := by
  obtain ⟨-, ⟨_, rfl⟩, rfl⟩ | ⟨-, ⟨_, rfl⟩, rfl⟩ | ⟨-, rfl, rfl⟩ | ⟨-, hevent, ht⟩ := target_cases h
  · rfl
  · rfl
  · rfl
  · rw [hevent, ht]

theorem remaining_target (h : target s event = some t) : t.remaining < s.remaining := by
  obtain ⟨rfl, -, rfl⟩ | ⟨rfl, -, rfl⟩ | ⟨rfl, -, rfl⟩ | ⟨hs, -, ht⟩ := target_cases h
  · decide
  · decide
  · decide
  · rw [State.remaining_eq_zero ht]
    exact State.remaining_pos hs

/-- A pass comes to hold a transport when one is bound, and keeps it unless it ends. -/
theorem holdsTransport_target (h : target s event = some t) :
    t.holdsTransport = true ↔
      (∃ name, event = .bindTransport name) ∨
        (s.holdsTransport = true ∧ event.isTerminal = false) := by
  obtain ⟨rfl, ⟨_, rfl⟩, rfl⟩ | ⟨rfl, ⟨_, rfl⟩, rfl⟩ | ⟨rfl, rfl, rfl⟩ | ⟨-, hevent, ht⟩ :=
    target_cases h
  · simp [State.holdsTransport]
  · simp [State.holdsTransport]
  · simp [State.holdsTransport, Event.isTerminal]
  · simp only [State.holdsTransport_eq_false ht, hevent, Bool.false_eq_true, Bool.true_eq_false,
      and_false, or_false, false_iff]
    rintro ⟨name, rfl⟩
    cases hevent

/-- Only a new pass gets a transport. -/
theorem target_bindTransport {name : String} (h : target s (.bindTransport name) = some t) :
    s = .requested := by
  obtain ⟨hs, -, -⟩ | ⟨hs, -, -⟩ | ⟨-, hevent, -⟩ | ⟨-, hevent, -⟩ := target_cases h
  · exact hs
  · exact hs
  · cases hevent
  · cases hevent

/-- Nothing happens to a pass that has ended. -/
theorem target_eq_none (h : s.isTerminal = true) (event : Event) : target s event = none := by
  cases s with
  | requested | transportBound | dispatched => cases h
  | _ => rfl

/-- Any other pass can be ended. -/
theorem exists_ending (h : s.isTerminal = false) :
    ∃ event t, event.isTerminal = true ∧ target s event = some t := by
  cases s with
  | requested => exact ⟨.reject "", .gated, rfl, rfl⟩
  | transportBound => exact ⟨.cancel, .canceled, rfl, rfl⟩
  | dispatched => exact ⟨.complete, .completed, rfl, rfl⟩
  | _ => cases h

/-! ## One event -/

variable {p next : Lifecycle}

theorem apply_eq_ok_iff : p.apply event = .ok next ↔
    ∃ t, target p.state event = some t ∧ p.enter event t = next := by
  rw [apply]
  cases target p.state event <;> simp

theorem apply_eq_error_iff {fault : Fault} : p.apply event = .error fault ↔
    target p.state event = none ∧ fault = .illegalEvent event p.state := by
  rw [apply]
  cases target p.state event <;> simp [eq_comm]

theorem advance_of_refused (h : target p.state event = none) : p.advance event = p := by
  rw [advance, apply_eq_error_iff.2 ⟨h, rfl⟩]

theorem advance_of_accepted (h : target p.state event = some t) :
    p.advance event = p.enter event t := by
  rw [advance, apply_eq_ok_iff.2 ⟨t, h, rfl⟩]

/-- A reason replaces an older one. -/
theorem enter_failure (p : Lifecycle) (event : Event) (t : State) :
    (p.enter event t).failure = event.failure?.or p.failure := by
  unfold enter
  cases event.failure? <;> rfl

/-! ## Runs -/

/-- A pass that was offered some events. -/
def after (p : Lifecycle) (events : List Event) : Lifecycle := events.foldl advance p

/-- The events that a pass accepts when they are offered to it one after the other. -/
def accepted (p : Lifecycle) : List Event → List Event
  | [] => []
  | event :: rest =>
    match p.apply event with
    | .ok next => event :: next.accepted rest
    | .error _ => p.accepted rest

theorem after_cons (event : Event) (events : List Event) :
    p.after (event :: events) = (p.advance event).after events := rfl

theorem accepted_of_refused (h : target p.state event = none) (events : List Event) :
    p.accepted (event :: events) = p.accepted events := by
  rw [accepted, apply_eq_error_iff.2 ⟨h, rfl⟩]

theorem accepted_of_accepted (h : target p.state event = some t) (events : List Event) :
    p.accepted (event :: events) = event :: (p.enter event t).accepted events := by
  rw [accepted, apply_eq_ok_iff.2 ⟨t, h, rfl⟩]

/-- A pass that has ended stays as it is. -/
theorem after_of_isTerminal (h : p.state.isTerminal = true) (events : List Event) :
    p.after events = p := by
  induction events with
  | nil => rfl
  | cons event events ih => rw [after_cons, advance_of_refused (target_eq_none h event), ih]

/-! ## What the fields tell -/

/-- The fields of a pass answer to the events it accepted. -/
structure Tracks (taken : List Event) (p : Lifecycle) : Prop where
  path : Leads .requested p.history p.state
  history : p.history.map (·.event) = taken
  /-- The events taken and those still to come are three at most. -/
  room : taken.length + p.state.remaining ≤ 3
  ended : p.state.isTerminal = true ↔ ∃ event ∈ taken, event.isTerminal = true
  bound : p.state.holdsTransport = true ↔ Bound taken
  transport : ∀ name, p.transport = some name ↔ .bindTransport name ∈ taken
  failure : p.failure = taken.getLast?.bind Event.failure?

theorem Tracks.new (kind : Kind) : Tracks [] { kind } where
  path := .nil .requested
  history := rfl
  room := Nat.le_refl 3
  ended := by simp [State.isTerminal]
  bound := by simp [State.holdsTransport, not_bound_nil]
  transport := by simp
  failure := rfl

variable {taken : List Event}

/-- A pass that still takes events has taken none that ends it. -/
theorem Tracks.goesOn (h : Tracks taken p) (ht : target p.state event = some t) :
    ∀ e ∈ taken, e.isTerminal = false := by
  intro e he
  cases hends : e.isTerminal with
  | false => rfl
  | true =>
    rw [target_eq_none (h.ended.2 ⟨e, he, hends⟩) event] at ht
    cases ht

/-- A pass that still takes events has no failure. -/
theorem Tracks.failure_eq_none (h : Tracks taken p) (ht : target p.state event = some t) :
    p.failure = none := by
  rw [h.failure]
  cases hlast : taken.getLast? with
  | none => rfl
  | some last =>
    cases hreason : last.failure? with
    | none => exact hreason
    | some reason =>
      -- a reason would have ended the pass
      have hends := Event.isTerminal_of_failure? hreason
      rw [h.goesOn ht last (List.mem_of_getLast? hlast)] at hends
      cases hends

/-- A transport is bound before anything else, so it never replaces another. -/
theorem Tracks.eq_nil {name : String} (h : Tracks taken p)
    (ht : target p.state (.bindTransport name) = some t) : taken = [] := by
  have hroom := h.room
  rw [target_bindTransport ht] at hroom
  -- a new pass has room for three more, which is all there is
  refine List.length_eq_zero_iff.1 ?_
  simp only [State.remaining] at hroom
  omega

/-- An accepted event is tracked. -/
theorem Tracks.enter (h : Tracks taken p) (ht : target p.state event = some t) :
    Tracks (taken ++ [event]) (p.enter event t) where
  path := h.path.concat ht
  history := by
    show (p.history ++ [_]).map _ = _
    rw [List.map_append, h.history]
    rfl
  room := by
    have hused := remaining_target ht
    have hroom := h.room
    show (taken ++ [event]).length + t.remaining ≤ 3
    rw [List.length_append, List.length_singleton]
    omega
  ended := by
    show t.isTerminal = true ↔ _
    rw [isTerminal_target ht]
    constructor
    · intro hevent
      exact ⟨event, by simp, hevent⟩
    · rintro ⟨e, he, hends⟩
      rcases List.mem_append.1 he with hold | hnew
      · rw [h.goesOn ht e hold] at hends
        cases hends
      · rwa [List.mem_singleton.1 hnew] at hends
  bound := by
    show t.holdsTransport = true ↔ _
    rw [holdsTransport_target ht, bound_concat, h.bound]
  transport := by
    intro name
    rw [List.mem_append, List.mem_singleton]
    cases event with
    | bindTransport other =>
      -- no earlier transport is overwritten
      rw [h.eq_nil ht]
      show some other = some name ↔ _
      simp [eq_comm]
    | _ =>
      show p.transport = some name ↔ _
      simpa using h.transport name
  failure := by
    rw [enter_failure, h.failure_eq_none ht, Option.or_none, List.getLast?_concat]
    rfl

/-- Whatever a pass is offered, its fields answer to what it accepted. -/
theorem Tracks.after (h : Tracks taken p) (events : List Event) :
    Tracks (taken ++ p.accepted events) (p.after events) := by
  -- on the events still to come, for every pass and all that it has taken so far
  induction events generalizing p taken with
  | nil => exact (List.append_nil taken).symm ▸ h
  | cons event events ih =>
    cases ht : target p.state event with
    | none =>
      rw [accepted_of_refused ht, after_cons, advance_of_refused ht]
      exact ih h
    | some t =>
      rw [accepted_of_accepted ht, after_cons, advance_of_accepted ht, List.append_cons]
      exact ih (h.enter ht)

/-- **A pass remembers its course.** Take a new pass after any events that were offered to it, and
those of them that it accepted. An event that it then refuses changes nothing. Its history is a
chain of transitions from the first state to the present one, one for each accepted event and at
most three. An event that it then accepts ends it exactly if the event is of an ending sort; once
one has, the pass stays as it is, and until then it can be ended. Its transport is the one that an
accepted event bound, its failure is the reason of the last accepted event, and it holds a
transport if one was bound and no event has ended the pass since. -/
theorem course_remembered (kind : Kind) (events : List Event) :
    let p := ({ kind } : Lifecycle).after events
    let taken := ({ kind } : Lifecycle).accepted events
    (∀ event fault, p.apply event = .error fault →
      p.advance event = p ∧ fault = .illegalEvent event p.state) ∧
    Leads .requested p.history p.state ∧
    p.history.map (·.event) = taken ∧
    p.history.length ≤ 3 ∧
    (∀ event next, p.apply event = .ok next → next.state.isTerminal = event.isTerminal) ∧
    (p.state.isTerminal = true ↔ ∃ event ∈ taken, event.isTerminal = true) ∧
    (p.state.isTerminal = true → ∀ more, p.after more = p) ∧
    (p.state.isTerminal = false →
      ∃ event next, event.isTerminal = true ∧ p.apply event = .ok next) ∧
    (∀ name, p.transport = some name ↔ .bindTransport name ∈ taken) ∧
    (∀ reason, p.failure = some reason ↔
      taken.getLast? = some (.reject reason) ∨ taken.getLast? = some (.fail reason)) ∧
    (p.state.holdsTransport = true ↔
      ∃ before name rest, taken = before ++ .bindTransport name :: rest ∧
        ∀ event ∈ rest, event.isTerminal = false) := by
  intro p taken
  have h : Tracks taken p := (Tracks.new kind).after events
  refine ⟨?_, h.path, h.history, ?_, ?_, h.ended, after_of_isTerminal, ?_, h.transport, ?_,
    h.bound⟩
  · intro event fault hrefused
    obtain ⟨htarget, hfault⟩ := apply_eq_error_iff.1 hrefused
    exact ⟨advance_of_refused htarget, hfault⟩
  · have hroom := h.room
    rw [← h.history, List.length_map] at hroom
    omega
  · intro event next haccepted
    obtain ⟨t, htarget, rfl⟩ := apply_eq_ok_iff.1 haccepted
    exact isTerminal_target htarget
  · intro hopen
    obtain ⟨event, t, hends, htarget⟩ := exists_ending hopen
    exact ⟨event, p.enter event t, hends, apply_eq_ok_iff.2 ⟨t, htarget, rfl⟩⟩
  · intro reason
    rw [h.failure, Option.bind_eq_some_iff]
    simp only [Event.failure?_eq_some_iff, and_or_left, exists_or, exists_eq_right]

/-- Handed out too early, bound twice, failed, and canceled too late. -/
def failedCourse : List Event :=
  [.dispatch, .bindTransport "local", .bindTransport "remote", .dispatch, .fail "quota", .cancel]

theorem course_remembered_failed :
    let p := ({ kind := .full } : Lifecycle).after failedCourse
    p.transport = some "local" ∧ p.transport ≠ some "remote" ∧ p.failure = some "quota" ∧
      p.history.length ≤ 3 ∧ p.state.isTerminal = true ∧ p.after [.complete] = p := by
  obtain ⟨-, -, -, hlength, -, hended, hfinal, -, htransport, hfailure, -⟩ :=
    course_remembered .full failedCourse
  have hterminal := hended.2 ⟨.fail "quota", by decide, rfl⟩
  exact ⟨(htransport _).2 (by decide), fun h => absurd ((htransport _).1 h) (by decide),
    (hfailure _).2 (.inr rfl), hlength, hterminal, hfinal hterminal _⟩

end Lifecycle

end Holdfast.Pass
