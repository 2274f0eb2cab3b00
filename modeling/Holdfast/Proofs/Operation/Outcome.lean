import Holdfast.Proofs.Operation.Table

/-!
# One outcome per operation

Results, cancels and elapsed deadlines race for every operation. The table lets the first one
decide and keeps that decision whatever comes later, although a late arrival may even drop the
entry.

- `OperationTable.Stage`: what a token's entry means, as an automaton of three stages; a
  vanished entry means the same as an acknowledged one;
- `OperationTable.Stage.act`: **each act moves the table as the automaton says**, and tells and
  posts for the token what the automaton says;
- `OperationTable.first_decision_wins`: **the first decision on a registered operation is its
  outcome**: what its watcher is told, what is posted for it and what a waiter gets.
-/

namespace Holdfast.OperationTable

variable {κ : Type}

/-! ## Runs -/

/-- What can happen to a table. -/
inductive Act (κ : Type) where
  | register (token : OpToken) (kind : OpKind) (watcher : κ) (timeout : Nat)
  | registerTask (token : OpToken) (watcher : κ)
  | complete (token : OpToken) (result : Int)
  | cancel (token : OpToken) (cancelAll : Bool)
  | dispatch (event : OpEvent κ)
  | remove (token : OpToken)
  | wait (token : OpToken)
  | tick
  /-- The oldest posted event is received. -/
  | receive
  /-- Posted events are received no more. -/
  | close

/-- The table after an act. -/
def act (t : OperationTable κ) : Act κ → OperationTable κ
  | .register token kind watcher timeout => t.register token kind watcher timeout
  | .registerTask token watcher => t.registerTask token watcher
  | .complete token result => t.complete token result
  | .cancel token _ => (t.cancel token).2
  | .dispatch event => (t.dispatch event).2
  | .remove token => t.remove token
  | .wait token => (t.wait token).2
  | .tick => t.tick
  | .receive => { t with events := t.events.drop 1 }
  | .close => { t with listening := false }

/-- What watchers are told by an act. -/
def calls (t : OperationTable κ) : Act κ → List (OpCall κ)
  | .cancel token cancelAll => ((t.cancel token).1.map (.cancel · cancelAll)).toList
  | .dispatch event => (t.dispatch event).1.toList
  | _ => []

/-- What an act posts. -/
def posts (t : OperationTable κ) (a : Act κ) : List (OpEvent κ) :=
  (t.act a).events.drop t.events.length

/-- The table after a run. -/
def after (t : OperationTable κ) (acts : List (Act κ)) : OperationTable κ := acts.foldl act t

/-- What can decide an operation. -/
inductive Decision where
  | result (value : Int)
  | cancel (cancelAll : Bool)
  deriving DecidableEq

namespace Decision

/-- What a watcher is told at once. -/
def told (watcher : κ) : Decision → List (OpCall κ)
  | .result _ => []
  | .cancel cancelAll => [.cancel watcher cancelAll]

/-- What is posted for a watcher, if events are received. -/
def reports (token : OpToken) (watcher : κ) (listening : Bool) : Decision → List (OpEvent κ)
  | .result value => if listening then [.completed token watcher value] else []
  | .cancel _ => []

/-- What a waiter gets: whether there is a result. -/
def answer : Decision → Bool
  | .result _ => true
  | .cancel _ => false

end Decision

namespace Act

/-- The decision that an act brings for a token. An elapsed deadline cancels this operation
alone. -/
def decision (token : OpToken) : Act κ → Option Decision
  | .complete other result => if other = token then some (.result result) else none
  | .cancel other cancelAll => if other = token then some (.cancel cancelAll) else none
  | .dispatch (.deadlineElapsed other) => if other = token then some (.cancel false) else none
  | _ => none

/-- The watcher that an act registers for a token. -/
def registers (token : OpToken) : Act κ → Option κ
  | .register other kind watcher _ =>
    if other = token ∧ kind.isWaitable = true then some watcher else none
  | .registerTask other watcher => if other = token then some watcher else none
  | _ => none

/-- Whether an act ends what is registered for a token: it is removed, collected or
replaced. -/
def ends (token : OpToken) : Act κ → Bool
  | .remove other | .wait other | .registerTask other _ => other = token
  | .register other kind _ _ => other = token && kind.isWaitable
  | _ => false

end Act

/-- Whether an event reports a result for a token. -/
def isReportOf (token : OpToken) : OpEvent κ → Bool
  | .completed other _ _ => other = token
  | .deadlineElapsed _ => false

/-- What watchers are told in a run by the acts that bring decisions for a token. -/
def told (token : OpToken) (t : OperationTable κ) : List (Act κ) → List (OpCall κ)
  | [] => []
  | a :: rest =>
    (if (a.decision token).isSome then t.calls a else []) ++ (t.act a).told token rest

/-- The reports posted in a run for a token. -/
def reports (token : OpToken) (t : OperationTable κ) : List (Act κ) → List (OpEvent κ)
  | [] => []
  | a :: rest => (t.posts a).filter (isReportOf token) ++ (t.act a).reports token rest

@[simp] theorem after_append (t : OperationTable κ) (acts acts' : List (Act κ)) :
    t.after (acts ++ acts') = (t.after acts).after acts' :=
  List.foldl_append

theorem told_append (token : OpToken) (t : OperationTable κ) (acts acts' : List (Act κ)) :
    t.told token (acts ++ acts') = t.told token acts ++ (t.after acts).told token acts' := by
  induction acts generalizing t with
  | nil => rfl
  | cons a acts ih =>
    rw [List.cons_append, told, told, ih, List.append_assoc]
    rfl

theorem reports_append (token : OpToken) (t : OperationTable κ) (acts acts' : List (Act κ)) :
    t.reports token (acts ++ acts') =
      t.reports token acts ++ (t.after acts).reports token acts' := by
  induction acts generalizing t with
  | nil => rfl
  | cons a acts ih =>
    rw [List.cons_append, reports, reports, ih, List.append_assoc]
    rfl

/-! ## Stages -/

/-- How far the operation of a token has come. -/
inductive Stage (κ : Type) where
  /-- Undecided, with the watcher to be told. -/
  | undecided (watcher : κ)
  /-- Decided by a result. -/
  | done
  /-- Decided by a cancel or by the deadline. -/
  | stopped

namespace Stage

/-- The entry of a token means this stage. An entry that vanished was reported. -/
def Of (entry : Option (Operation κ)) : Stage κ → Prop
  | .undecided watcher => ∃ op, entry = some op ∧ op.state = .pending ∧ op.watcher = watcher
  | .done => ∀ op, entry = some op → op.state = .acknowledged
  | .stopped => ∃ op, entry = some op ∧ op.state = .timeout

/-- The stage after a decision. -/
def next : Stage κ → Option Decision → Stage κ
  | .undecided _, some (.result _) => .done
  | .undecided _, some (.cancel _) => .stopped
  | stage, _ => stage

/-- Whom a decision has to tell. -/
def calls : Stage κ → Option Decision → List (OpCall κ)
  | .undecided watcher, some decision => decision.told watcher
  | _, _ => []

/-- What a decision posts. -/
def posts (token : OpToken) (listening : Bool) : Stage κ → Option Decision → List (OpEvent κ)
  | .undecided watcher, some decision => decision.reports token watcher listening
  | _, _ => []

/-- What a waiter gets; `none` while it has to wait. -/
def answer : Stage κ → Option Bool
  | .undecided _ => none
  | .done => some true
  | .stopped => some false

variable {t : OperationTable κ} {token : OpToken} {stage : Stage κ}

/-- A waiter gets what the stage says. -/
theorem wait_eq (h : stage.Of (t.get? token)) : (t.wait token).1 = stage.answer := by
  unfold wait
  cases stage with
  | undecided watcher =>
    obtain ⟨op, hop, hstate, _⟩ := h
    simp only [hop, hstate, answer]
  | done =>
    cases hop : t.get? token with
    | none => rfl
    | some op => simp only [h op hop, answer]
  | stopped =>
    obtain ⟨op, hop, hstate⟩ := h
    simp only [hop, hstate, answer]

/-! ## What one act does -/

/-- What an act does to a token in a stage. -/
structure Steps (t : OperationTable κ) (token : OpToken) (stage : Stage κ) (a : Act κ) :
    Prop where
  next : (stage.next (a.decision token)).Of ((t.act a).get? token)
  calls : (a.decision token).isSome = true → t.calls a = stage.calls (a.decision token)
  posts : (t.posts a).filter (isReportOf token) =
    stage.posts token t.listening (a.decision token)

/-- An act that leaves the entry of the token alone and posts nothing about it. -/
theorem Steps.of_spared {a : Act κ} {said : List (OpEvent κ)} (h : stage.Of (t.get? token))
    (hdecision : a.decision token = none) (hget : (t.act a).get? token = t.get? token)
    (hevents : (t.act a).events = t.events ++ said)
    (hsaid : ∀ event ∈ said, isReportOf token event = false) : Steps t token stage a := by
  have hnext : stage.next (a.decision token) = stage := by
    rw [hdecision]
    cases stage <;> rfl
  have hposts : stage.posts token t.listening (a.decision token) = [] := by
    rw [hdecision]
    cases stage <;> rfl
  refine ⟨?_, ?_, ?_⟩
  · rw [hnext, hget]
    exact h
  · rw [hdecision]
    intro hsome
    cases hsome
  · rw [hposts, OperationTable.posts, hevents, List.drop_left, List.filter_eq_nil_iff]
    intro event hevent
    rw [hsaid event hevent]
    exact Bool.false_ne_true

/-- An act on another token. -/
theorem Steps.of_other {a : Act κ} {other : OpToken} {now : Option (Operation κ)}
    {said : List (OpEvent κ)} (h : stage.Of (t.get? token)) (hdecision : a.decision token = none)
    (htells : Tells t other now said (t.act a)) (hne : other ≠ token)
    (hsaid : ∀ event ∈ said, isReportOf token event = false) : Steps t token stage a :=
  .of_spared h hdecision (htells.others token hne.symm) htells.events hsaid

theorem afterReport_of (h : stage.Of (t.get? token)) (result : Int) :
    (stage.next (some (.result result))).Of (afterReport (t.get? token)) ∧
      reported token result (t.get? token) =
        stage.posts token true (some (.result result)) := by
  cases stage with
  | undecided watcher =>
    obtain ⟨op, hop, hstate, rfl⟩ := h
    simp only [hop, afterReport, reported, hstate]
    exact ⟨fun _ heq => by cases heq; rfl, rfl⟩
  | done =>
    cases hop : t.get? token with
    | none => exact ⟨fun _ heq => (by cases heq), rfl⟩
    | some op =>
      simp only [afterReport, reported, h op hop]
      exact ⟨fun _ heq => (by cases heq), rfl⟩
  | stopped =>
    obtain ⟨op, hop, hstate⟩ := h
    simp only [hop, afterReport, reported, hstate]
    exact ⟨⟨op, rfl, hstate⟩, rfl⟩

theorem afterCancel_of (h : stage.Of (t.get? token)) (cancelAll : Bool) :
    (stage.next (some (.cancel cancelAll))).Of (afterCancel (t.get? token)) ∧
      ((canceled (t.get? token)).map (OpCall.cancel · cancelAll)).toList =
        stage.calls (some (.cancel cancelAll)) ∧
      stage.posts token t.listening (some (.cancel cancelAll)) = [] := by
  cases stage with
  | undecided watcher =>
    obtain ⟨op, hop, hstate, rfl⟩ := h
    simp only [hop, afterCancel, canceled, hstate]
    exact ⟨⟨_, rfl, rfl⟩, rfl, rfl⟩
  | done =>
    cases hop : t.get? token with
    | none => exact ⟨fun _ heq => (by cases heq), rfl, rfl⟩
    | some op =>
      simp only [afterCancel, canceled, h op hop]
      exact ⟨fun _ heq => (by cases heq), rfl, rfl⟩
  | stopped =>
    obtain ⟨op, hop, hstate⟩ := h
    simp only [hop, afterCancel, canceled, hstate]
    exact ⟨⟨op, rfl, hstate⟩, rfl, rfl⟩

/-- A result for the token. -/
theorem complete_self (h : stage.Of (t.get? token)) (result : Int) :
    Steps t token stage (.complete token result) := by
  obtain ⟨hself, _, hevents, _⟩ := complete_tells t token result
  obtain ⟨hnext, hposts⟩ := afterReport_of h result
  have hdecision : (Act.complete token result : Act κ).decision token = some (.result result) :=
    if_pos rfl
  refine ⟨?_, ?_, ?_⟩
  · rw [hdecision]
    exact hself ▸ hnext
  · rw [hdecision]
    intro _
    cases stage <;> rfl
  · rw [hdecision, OperationTable.posts, act, hevents, List.drop_left]
    cases stage with
    | undecided watcher =>
      rw [hposts]
      cases t.listening <;> simp [posts, Decision.reports, isReportOf]
    | done =>
      rw [hposts]
      simp [posts]
    | stopped =>
      rw [hposts]
      simp [posts]

/-- A cancel of the token. -/
theorem cancel_self (h : stage.Of (t.get? token)) (cancelAll : Bool) :
    Steps t token stage (.cancel token cancelAll) := by
  obtain ⟨hcalled, hself, _, hevents, _⟩ := cancel_tells t token
  obtain ⟨hnext, hcalls, hposts⟩ := afterCancel_of h cancelAll
  have hdecision : (Act.cancel token cancelAll : Act κ).decision token =
      some (.cancel cancelAll) := if_pos rfl
  refine ⟨?_, ?_, ?_⟩
  · rw [hdecision]
    exact hself ▸ hnext
  · rw [hdecision]
    intro _
    rw [OperationTable.calls, hcalled, hcalls]
  · rw [hdecision, hposts, OperationTable.posts, act, hevents, List.drop_left]
    rfl

/-- An elapsed deadline of the token does what a cancel does, or finds it decided. -/
theorem deadline_self (h : stage.Of (t.get? token)) :
    Steps t token stage (.dispatch (.deadlineElapsed token)) := by
  have hdecision : (Act.dispatch (.deadlineElapsed token) : Act κ).decision token =
      some (.cancel false) := if_pos rfl
  by_cases hpending : t.state? token = some .pending
  · have hdispatch := dispatch_deadlineElapsed t token
    rw [if_pos hpending] at hdispatch
    obtain ⟨hnext, hcalls, hposts⟩ := cancel_self h false
    have hcancel : (Act.cancel token false : Act κ).decision token = some (.cancel false) :=
      if_pos rfl
    rw [hcancel] at hnext hcalls hposts
    refine ⟨?_, ?_, ?_⟩
    · rw [hdecision, act, hdispatch]
      exact hnext
    · rw [hdecision, OperationTable.calls, hdispatch]
      exact hcalls
    · rw [hdecision, OperationTable.posts, act, hdispatch]
      exact hposts
  · have hdispatch := dispatch_deadlineElapsed t token
    rw [if_neg hpending] at hdispatch
    have hsettled : stage.next (some (.cancel false)) = stage ∧
        stage.calls (some (.cancel false)) = [] := by
      cases stage with
      | undecided watcher =>
        obtain ⟨op, hop, hstate, _⟩ := h
        exact absurd (by rw [state?, hop, Option.map_some, hstate]) hpending
      | done => exact ⟨rfl, rfl⟩
      | stopped => exact ⟨rfl, rfl⟩
    refine ⟨?_, ?_, ?_⟩
    · rw [hdecision, hsettled.1, act, hdispatch]
      exact h
    · rw [hdecision, hsettled.2, OperationTable.calls, hdispatch]
      exact fun _ => rfl
    · rw [hdecision, (afterCancel_of h false).2.2, OperationTable.posts, act, hdispatch,
        List.drop_length]
      rfl

/-- **Each act moves a token as its stage says**, unless it ends what is registered for it. -/
theorem act (h : stage.Of (t.get? token)) {a : Act κ} (hends : a.ends token = false) :
    Steps t token stage a := by
  cases a with
  | register other kind watcher timeout =>
    cases hkind : kind.isWaitable with
    | false =>
      have hact : t.act (.register other kind watcher timeout) = t :=
        register_refused t other hkind watcher timeout
      refine .of_spared h rfl (by rw [hact]) ?_ (List.forall_mem_nil _)
      rw [hact, List.append_nil]
    | true =>
      have hne : other ≠ token := by simpa [Act.ends, hkind] using hends
      obtain ⟨op, _, _, htells⟩ := register_tells t other hkind watcher timeout
      exact .of_other h rfl htells hne (List.forall_mem_nil _)
  | registerTask other watcher =>
    have hne : other ≠ token := by simpa [Act.ends] using hends
    obtain ⟨op, _, _, htells⟩ := registerTask_tells t other watcher
    exact .of_other h rfl htells hne (List.forall_mem_nil _)
  | complete other result =>
    by_cases hne : other = token
    · exact hne ▸ complete_self (hne ▸ h) result
    · refine .of_other h (if_neg hne) (complete_tells t other result) hne fun event hevent => ?_
      split at hevent
      · cases hop : t.get? other with
        | none => simp [hop, reported] at hevent
        | some op =>
          rw [hop, reported] at hevent
          split at hevent
          · cases hevent
          · cases hevent
          · rw [List.mem_singleton.1 hevent]
            exact decide_eq_false hne
      · cases hevent
  | cancel other cancelAll =>
    by_cases hne : other = token
    · exact hne ▸ cancel_self (hne ▸ h) cancelAll
    · exact .of_other h (if_neg hne) (cancel_tells t other).2 hne (List.forall_mem_nil _)
  | dispatch event =>
    cases event with
    | completed other watcher result =>
      exact .of_spared h rfl rfl (List.append_nil _).symm (List.forall_mem_nil _)
    | deadlineElapsed other =>
      by_cases hne : other = token
      · exact hne ▸ deadline_self (hne ▸ h)
      · have hdispatch := dispatch_deadlineElapsed t other
        have htells : ∃ now, Tells t other now [] (t.dispatch (.deadlineElapsed other)).2 := by
          rw [hdispatch]
          split
          · exact ⟨_, (cancel_tells t other).2⟩
          · exact ⟨_, .refl rfl⟩
        obtain ⟨_, htells⟩ := htells
        exact .of_other h (if_neg hne) htells hne (List.forall_mem_nil _)
  | remove other =>
    have hne : other ≠ token := by simpa [Act.ends] using hends
    exact .of_other h rfl (remove_tells t other) hne (List.forall_mem_nil _)
  | wait other =>
    have hne : other ≠ token := by simpa [Act.ends] using hends
    obtain ⟨_, htells⟩ := wait_tells t other
    exact .of_other h rfl htells hne (List.forall_mem_nil _)
  | tick =>
    obtain ⟨hops, _, tokens, hevents⟩ := tick_spec t
    refine .of_spared h rfl ?_ hevents fun event hevent => ?_
    · show t.tick.get? token = t.get? token
      rw [get?, hops, get?]
    · obtain ⟨_, _, rfl⟩ := List.mem_map.1 hevent
      rfl
  | receive =>
    refine ⟨?_, fun hsome => (by cases hsome), ?_⟩
    · cases stage <;> exact h
    · have hdrop : (t.posts .receive) = [] := by
        rw [OperationTable.posts, OperationTable.act, List.drop_drop]
        exact List.drop_of_length_le (by omega)
      rw [hdrop]
      cases stage <;> rfl
  | close => exact .of_spared h rfl rfl (List.append_nil _).symm (List.forall_mem_nil _)

/-! ## What a run does -/

/-- Along acts that change no stage nothing is told or posted for the token. -/
theorem run (h : stage.Of (t.get? token)) {acts : List (Act κ)}
    (hends : ∀ a ∈ acts, a.ends token = false)
    (hstays : ∀ a ∈ acts, stage.next (a.decision token) = stage ∧
      stage.calls (a.decision token) = [] ∧
      ∀ listening, stage.posts token listening (a.decision token) = []) :
    stage.Of ((t.after acts).get? token) ∧ t.told token acts = [] ∧
      t.reports token acts = [] := by
  induction acts generalizing t with
  | nil => exact ⟨h, rfl, rfl⟩
  | cons a acts ih =>
    obtain ⟨hnext, hcalls, hposts⟩ := act h (hends a List.mem_cons_self)
    obtain ⟨hstay, hquiet, hsilent⟩ := hstays a List.mem_cons_self
    rw [hstay] at hnext
    obtain ⟨hlast, htold, hreports⟩ := ih hnext (fun b hb => hends b (List.mem_cons_of_mem _ hb))
      fun b hb => hstays b (List.mem_cons_of_mem _ hb)
    refine ⟨hlast, ?_, ?_⟩
    · rw [told, htold, List.append_nil]
      split
      · rename_i hsome
        rw [hcalls hsome, hquiet]
      · rfl
    · rw [reports, hreports, hposts, hsilent, List.append_nil]

/-- Acts that decide nothing leave the stage as it is. -/
theorem run_undecided (h : stage.Of (t.get? token)) {acts : List (Act κ)}
    (hends : ∀ a ∈ acts, a.ends token = false)
    (hnone : ∀ a ∈ acts, a.decision token = none) :
    stage.Of ((t.after acts).get? token) ∧ t.told token acts = [] ∧
      t.reports token acts = [] := by
  refine run h hends fun a ha => ?_
  rw [hnone a ha]
  cases stage <;> exact ⟨rfl, rfl, fun _ => rfl⟩

/-- Once decided, an operation stays decided, and nothing more is told or posted. -/
theorem run_decided (h : stage.Of (t.get? token)) {acts : List (Act κ)}
    (hends : ∀ a ∈ acts, a.ends token = false) (hdecided : ∀ w, stage ≠ .undecided w) :
    stage.Of ((t.after acts).get? token) ∧ t.told token acts = [] ∧
      t.reports token acts = [] := by
  refine run h hends fun a _ => ?_
  cases stage with
  | undecided w => exact absurd rfl (hdecided w)
  | done => exact ⟨rfl, rfl, fun _ => rfl⟩
  | stopped => exact ⟨rfl, rfl, fun _ => rfl⟩

/-- A registered operation is undecided. -/
theorem of_registers {a : Act κ} {watcher : κ} (h : a.registers token = some watcher) :
    (Stage.undecided watcher).Of ((t.act a).get? token) := by
  cases a with
  | register other kind w timeout =>
    simp only [Act.registers, Option.ite_none_right_eq_some, Option.some.injEq] at h
    obtain ⟨⟨rfl, hkind⟩, rfl⟩ := h
    obtain ⟨op, hstate, hwatcher, htells⟩ := register_tells t other hkind w timeout
    exact ⟨op, htells.self, hstate, hwatcher⟩
  | registerTask other w =>
    simp only [Act.registers, Option.ite_none_right_eq_some, Option.some.injEq] at h
    obtain ⟨rfl, rfl⟩ := h
    obtain ⟨op, hstate, hwatcher, htells⟩ := registerTask_tells t other w
    exact ⟨op, htells.self, hstate, hwatcher⟩
  | _ => cases h

end Stage

/-- **The first decision wins.** Until what was registered for a token is removed, collected or
replaced, a waiter waits as long as there is no decision. The first one decides: a result is
posted once, with the watcher of the registration, if events are received then, and nobody is
told of a cancel; a cancel or an elapsed deadline is told to the watcher once, and no result is
posted. Later decisions tell and post nothing, and a waiter gets the first one. -/
theorem first_decision_wins (t : OperationTable κ) {token : OpToken} {watcher : κ}
    {registration decisive : Act κ} {before later : List (Act κ)} {decision : Decision}
    (hregisters : registration.registers token = some watcher)
    (hends : ∀ a ∈ before ++ decisive :: later, a.ends token = false)
    (hbefore : ∀ a ∈ before, a.decision token = none)
    (hdecisive : decisive.decision token = some decision) :
    (((t.act registration).after before).wait token).1 = none ∧
    (t.act registration).told token (before ++ decisive :: later) = decision.told watcher ∧
    (t.act registration).reports token (before ++ decisive :: later) =
      decision.reports token watcher ((t.act registration).after before).listening ∧
    (((t.act registration).after (before ++ decisive :: later)).wait token).1 =
      some decision.answer := by
  have hstart : (Stage.undecided watcher).Of ((t.act registration).get? token) :=
    Stage.of_registers hregisters
  obtain ⟨hopen, htold, hreports⟩ := Stage.run_undecided hstart
    (fun a ha => hends a (List.mem_append_left _ ha)) hbefore
  obtain ⟨hnext, hcalls, hposts⟩ := Stage.act hopen
    (hends decisive (List.mem_append_right _ List.mem_cons_self))
  rw [hdecisive] at hnext hcalls hposts
  have hrest : ∀ a ∈ later, a.ends token = false := fun a ha =>
    hends a (List.mem_append_right _ (List.mem_cons_of_mem _ ha))
  have hdecided : ∀ w, (Stage.undecided watcher).next (some decision) ≠ .undecided w := by
    intro w
    cases decision <;> simp [Stage.next]
  obtain ⟨hlast, htold', hreports'⟩ := Stage.run_decided hnext hrest hdecided
  refine ⟨Stage.wait_eq hopen, ?_, ?_, ?_⟩
  · rw [told_append, htold, told, htold', hdecisive, if_pos Option.isSome_some, hcalls rfl,
      List.append_nil]
    rfl
  · rw [reports_append, hreports, reports, hreports', hposts, List.append_nil]
    rfl
  · rw [after_append]
    have hwait := Stage.wait_eq hlast
    rw [show ((t.act registration).after before).after (decisive :: later) =
      (((t.act registration).after before).act decisive).after later from rfl, hwait]
    cases decision <;> rfl

/-- A late cancel does not take a result back. -/
theorem first_decision_wins_result :
    ((((({} : OperationTable Nat).act (.registerTask ⟨1⟩ 7)).after
      ([.tick] ++ .complete ⟨1⟩ 5 :: [.cancel ⟨1⟩ true])).wait ⟨1⟩).1) = some true :=
  (@first_decision_wins Nat {} ⟨1⟩ 7 (.registerTask ⟨1⟩ 7) (.complete ⟨1⟩ 5) [.tick]
    [.cancel ⟨1⟩ true] (.result 5) rfl (by decide) (by decide) rfl).2.2.2

end Holdfast.OperationTable
