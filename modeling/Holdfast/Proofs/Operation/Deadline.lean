import Holdfast.Proofs.Operation.Outcome

/-!
# Whom a deadline hits

A deadline is a timer of its own. When it elapses it posts its token, and whatever is pending
under the token when the event is run is canceled. So a deadline has to be stopped when its
operation ends; a run with its history tells how far that is so.

- `OperationTable.Run`: a run from the beginning, with its acts and the events that were received
  and not run yet;
- `OperationTable.Comes`: where a deadline comes from, and whether its operation was replaced;
- `OperationTable.Keeps`: what an act leaves of a token that it does not register;
- `OperationTable.Run.traced`: **every running deadline and every event of one comes from a
  registration**, the invariant of all runs;
- `OperationTable.deadline_hits`: the operation that a deadline hits is its own and late, unless
  it was replaced by a pass, which does not stop the deadline, or the token was registered again
  when the event was on its way.
-/

namespace Holdfast.OperationTable

variable {κ : Type}

/-! ## Runs with their history -/

/-- Whether an act lets a millisecond pass. -/
def Act.isTick : Act κ → Bool
  | .tick => true
  | _ => false

/-- The milliseconds that pass in a run. -/
def ticks (acts : List (Act κ)) : Nat := acts.countP Act.isTick

/-- Whether an act is a call of the table's user, or the passing of time. -/
def Act.isFree : Act κ → Bool
  | .receive | .dispatch _ => false
  | _ => true

/-- A table that was made with running deadlines, after some acts and with some events in hand.
Events are received in the order in which they were posted, and each is run once, at any
time. -/
inductive Run : List (Act κ) → OperationTable κ → List (OpEvent κ) → Prop
  | start : Run [] {} []
  | act {acts : List (Act κ)} {t : OperationTable κ} {hand : List (OpEvent κ)} (a : Act κ)
      (hfree : a.isFree = true) (h : Run acts t hand) : Run (acts ++ [a]) (t.act a) hand
  | elapse {acts : List (Act κ)} {t : OperationTable κ} {hand : List (OpEvent κ)}
      (h : Run acts t hand) : Run acts t.elapse hand
  | receive {acts : List (Act κ)} {t : OperationTable κ} {hand rest : List (OpEvent κ)}
      {event : OpEvent κ} (hevents : t.events = event :: rest) (h : Run acts t hand) :
      Run (acts ++ [.receive]) (t.act .receive) (hand ++ [event])
  | dispatch {acts : List (Act κ)} {t : OperationTable κ} {before behind : List (OpEvent κ)}
      {event : OpEvent κ} (h : Run acts t (before ++ event :: behind)) :
      Run (acts ++ [.dispatch event]) (t.act (.dispatch event)) (before ++ behind)

/-- Letting time pass is a run. -/
theorem Run.advance {acts : List (Act κ)} {t : OperationTable κ} {hand : List (OpEvent κ)}
    (h : Run acts t hand) (ms : Nat) :
    Run (acts ++ List.replicate ms .tick) (t.advance ms) hand := by
  induction ms generalizing acts t with
  | zero =>
    rw [List.replicate_zero, List.append_nil]
    exact h.elapse
  | succ ms ih =>
    have hnext := ih (h.elapse.act .tick rfl)
    rwa [List.append_assoc] at hnext

theorem Run.receiveAll {acts : List (Act κ)} {t : OperationTable κ} {hand events : List (OpEvent κ)}
    (h : Run acts t hand) (hevents : t.events = events) :
    Run (acts ++ List.replicate events.length .receive) { t with events := [] }
      (hand ++ events) := by
  induction events generalizing acts t hand with
  | nil =>
    rw [List.length_nil, List.replicate_zero, List.append_nil, List.append_nil, ← hevents]
    exact h
  | cons event events ih =>
    have hrest : (t.act .receive).events = events := by
      show t.events.drop 1 = events
      rw [hevents]
      rfl
    have hnext := ih (h.receive hevents) hrest
    rw [List.append_assoc, List.append_assoc] at hnext
    exact hnext

theorem Run.dispatchEach {acts : List (Act κ)} {t : OperationTable κ}
    {events behind : List (OpEvent κ)} (h : Run acts t (events ++ behind)) :
    Run (acts ++ events.map .dispatch) (t.dispatchEach events).2 behind := by
  induction events generalizing acts t with
  | nil =>
    rw [List.map_nil, List.append_nil]
    exact h
  | cons event events ih =>
    have hfirst : Run (acts ++ [.dispatch event]) (t.act (.dispatch event))
        ([] ++ (events ++ behind)) := Run.dispatch h
    have hnext := ih hfirst
    rwa [List.append_assoc] at hnext

/-- Running every posted event is a run. -/
theorem Run.dispatchAll {acts : List (Act κ)} {t : OperationTable κ} (h : Run acts t []) :
    Run (acts ++ List.replicate t.events.length .receive ++ t.events.map .dispatch)
      t.dispatchAll.2 [] := by
  refine Run.dispatchEach ?_
  rw [List.append_nil]
  exact h.receiveAll rfl

@[simp] theorem ticks_append (acts more : List (Act κ)) :
    ticks (acts ++ more) = ticks acts + ticks more := List.countP_append

@[simp] theorem ticks_cons (a : Act κ) (acts : List (Act κ)) :
    ticks (a :: acts) = ticks acts + if a.isTick then 1 else 0 := List.countP_cons

@[simp] theorem ticks_nil : ticks ([] : List (Act κ)) = 0 := rfl

/-! ## Where deadlines come from -/

/-- No act registers a token. -/
def Spared (token : OpToken) (acts : List (Act κ)) : Prop := ∀ a ∈ acts, a.registers token = none

/-- The first registration of a token after an operation is one of a pass, or it is made when the
timeout of the operation is over. -/
def Replaced (token : OpToken) (timeout : Nat) (later : List (Act κ)) : Prop :=
  ∃ mid a rest, later = mid ++ a :: rest ∧ Spared token mid ∧
    ((∃ watcher, a = .registerTask token watcher) ∨
      (a.registers token ≠ none ∧ timeout ≤ ticks mid))

/-- A deadline for `due` comes from the registration of an operation that was replaced, or of
which `own` holds. -/
def Comes (acts : List (Act κ)) (token : OpToken) (due : Nat) (own : OpKind → κ → Prop) : Prop :=
  ∃ earlier kind watcher timeout later,
    acts = earlier ++ .register token kind watcher timeout :: later ∧ kind.isWaitable = true ∧
      due = ticks earlier + timeout ∧
      ((Spared token later ∧ own kind watcher) ∨ Replaced token timeout later)

theorem Spared.concat {token : OpToken} {acts : List (Act κ)} (h : Spared token acts) {a : Act κ}
    (ha : a.registers token = none) : Spared token (acts ++ [a]) := by
  intro b hb
  rcases List.mem_append.1 hb with hb | hb
  · exact h b hb
  · rw [List.mem_singleton.1 hb]
    exact ha

theorem Replaced.concat {token : OpToken} {timeout : Nat} {later : List (Act κ)}
    (h : Replaced token timeout later) (a : Act κ) : Replaced token timeout (later ++ [a]) := by
  obtain ⟨mid, b, rest, rfl, hmid, hb⟩ := h
  exact ⟨mid, b, rest ++ [a], by simp, hmid, hb⟩

namespace Comes

variable {acts : List (Act κ)} {token : OpToken} {due : Nat} {own own' : OpKind → κ → Prop}
  {a : Act κ}

theorem imp (h : Comes acts token due own)
    (himp : ∀ kind watcher, own kind watcher → own' kind watcher) :
    Comes acts token due own' := by
  obtain ⟨earlier, kind, watcher, timeout, later, hacts, hkind, hdue, hfate⟩ := h
  exact ⟨earlier, kind, watcher, timeout, later, hacts, hkind, hdue,
    hfate.imp_left fun ⟨hspared, hown⟩ => ⟨hspared, himp kind watcher hown⟩⟩

/-- One more act: the operation stays, or it is replaced in one of the two ways. -/
theorem concat (h : Comes acts token due own)
    (hnext : (a.registers token = none ∧ ∀ kind watcher, own kind watcher → own' kind watcher) ∨
      (∃ watcher, a = .registerTask token watcher) ∨
      (a.registers token ≠ none ∧ (due ≤ ticks acts ∨ ∀ kind watcher, ¬ own kind watcher))) :
    Comes (acts ++ [a]) token due own' := by
  obtain ⟨earlier, kind, watcher, timeout, later, rfl, hkind, rfl, hfate⟩ := h
  refine ⟨earlier, kind, watcher, timeout, later ++ [a], by simp, hkind, rfl, ?_⟩
  rcases hfate with ⟨hspared, hown⟩ | hreplaced
  · rcases hnext with ⟨ha, himp⟩ | htask | ⟨ha, hlate⟩
    · exact .inl ⟨hspared.concat ha, himp kind watcher hown⟩
    · exact .inr ⟨later, a, [], rfl, hspared, .inl htask⟩
    · refine .inr ⟨later, a, [], rfl, hspared, .inr ⟨ha, ?_⟩⟩
      rcases hlate with hlate | hnot
      · rw [ticks_append, ticks_cons] at hlate
        have hregister : (Act.register token kind watcher timeout).isTick = false := rfl
        rw [hregister] at hlate
        simp only [Bool.false_eq_true, if_false] at hlate
        omega
      · exact absurd hown (hnot kind watcher)
  · exact .inr (hreplaced.concat a)

theorem begin {kind : OpKind} {watcher : κ} {timeout : Nat} (hkind : kind.isWaitable = true)
    (hown : own kind watcher) :
    Comes (acts ++ [.register token kind watcher timeout]) token (ticks acts + timeout) own :=
  ⟨acts, kind, watcher, timeout, [], rfl, hkind, rfl, .inl ⟨nofun, hown⟩⟩

end Comes

/-! ## What an act leaves of a token -/

@[simp] theorem mem_disarm {t : OperationTable κ} {deadline : Option Nat} {dl : Deadline} :
    dl ∈ (t.disarm deadline).deadlines ↔ dl ∈ t.deadlines ∧ deadline ≠ some dl.number := by
  cases deadline with
  | none => simp [disarm]
  | some number =>
    rw [disarm, List.mem_filter, decide_eq_true_eq, ne_eq, ne_eq, Option.some.injEq]
    exact and_congr_right fun _ => not_congr eq_comm

@[simp] theorem post_deadlines (t : OperationTable κ) (event : OpEvent κ) :
    (t.post event).deadlines = t.deadlines := by
  rw [post]
  split <;> rfl

@[simp] theorem disarm_clock (t : OperationTable κ) (deadline : Option Nat) :
    (t.disarm deadline).clock = t.clock := by
  cases deadline <;> rfl

@[simp] theorem post_clock (t : OperationTable κ) (event : OpEvent κ) :
    (t.post event).clock = t.clock := by
  rw [post]
  split <;> rfl

@[simp] theorem put_clock (t : OperationTable κ) (token : OpToken) (op : Operation κ) :
    (t.put token op).clock = t.clock := rfl

@[simp] theorem erase_clock (t : OperationTable κ) (token : OpToken) :
    (t.erase token).clock = t.clock := rfl

/-- An act that does not register a token keeps the kind and the watcher of its entry, and a
deadline of a pending operation runs on only if the operation stays as it is. -/
structure Keeps (t : OperationTable κ) (token : OpToken) (t' : OperationTable κ) : Prop where
  entry : ∀ op', t'.get? token = some op' →
    ∃ op, t.get? token = some op ∧ op'.kind = op.kind ∧ op'.watcher = op.watcher
  running : ∀ dl ∈ t'.deadlines, dl.token = token → dl ∈ t.deadlines ∧
    ∀ op, t.get? token = some op → op.state = .pending → op.deadline = some dl.number →
      t'.get? token = some op

namespace Keeps

variable {t t' : OperationTable κ} {token : OpToken}

theorem of_same (hget : t'.get? token = t.get? token)
    (hrunning : ∀ dl ∈ t'.deadlines, dl.token = token → dl ∈ t.deadlines) : Keeps t token t' where
  entry op' hop' := ⟨op', hget ▸ hop', rfl, rfl⟩
  running dl hdl htoken := ⟨hrunning dl hdl htoken, fun _ hop _ _ => hget.trans hop⟩

theorem refl (t : OperationTable κ) (token : OpToken) : Keeps t token t :=
  of_same rfl fun _ hdl _ => hdl

/-- An operation that is decided has its deadline stopped. -/
theorem settle (token : OpToken) {other : OpToken} {op : Operation κ} (hop : t.get? other = some op)
    (state : OpState) :
    Keeps t token
      ((t.put other { op with state := state, deadline := none }).disarm op.deadline) := by
  by_cases hother : token = other
  · subst hother
    refine ⟨fun op' hop' => ⟨op, hop, ?_⟩, fun dl hdl _ => ?_⟩
    · rw [get?_disarm, get?_put, if_pos rfl] at hop'
      cases hop'
      exact ⟨rfl, rfl⟩
    · obtain ⟨hdl, hstopped⟩ := mem_disarm.1 hdl
      refine ⟨hdl, fun op' hop' _ hnumber => ?_⟩
      obtain rfl : op = op' := Option.some.inj (hop.symm.trans hop')
      exact absurd hnumber hstopped
  · refine of_same ?_ fun dl hdl _ => (mem_disarm.1 hdl).1
    rw [get?_disarm, get?_put, if_neg hother]

/-- An operation that is dropped has its deadline stopped, or was decided before. -/
theorem drop {other : OpToken} {op : Operation κ} (hop : t.get? other = some op)
    (deadline : Option Nat) (hstops : op.state = .pending → deadline = op.deadline) :
    Keeps t token ((t.erase other).disarm deadline) := by
  by_cases hother : token = other
  · subst hother
    refine ⟨fun op' hop' => ?_, fun dl hdl _ => ?_⟩
    · rw [get?_disarm, get?_erase, if_pos rfl] at hop'
      cases hop'
    · obtain ⟨hdl, hstopped⟩ := mem_disarm.1 hdl
      refine ⟨hdl, fun op' hop' hpending hnumber => ?_⟩
      obtain rfl : op = op' := Option.some.inj (hop.symm.trans hop')
      exact absurd ((hstops hpending).trans hnumber) hstopped
  · refine of_same ?_ fun dl hdl _ => (mem_disarm.1 hdl).1
    rw [get?_disarm, get?_erase, if_neg hother]

theorem complete (t : OperationTable κ) (token other : OpToken) (result : Int) :
    Keeps t token (t.complete other result) := by
  unfold OperationTable.complete
  cases hop : t.get? other with
  | none => exact refl t token
  | some op =>
    simp only
    cases hstate : op.state with
    | timeout => exact refl t token
    | acknowledged => exact drop hop none (by rw [hstate]; nofun)
    | pending =>
      obtain ⟨hentry, hrunning⟩ := settle token hop .acknowledged
      refine ⟨fun op' hop' => hentry op' ?_, fun dl hdl htoken => ?_⟩
      · rwa [get?_post] at hop'
      · rw [post_deadlines] at hdl
        rw [get?_post]
        exact hrunning dl hdl htoken

theorem cancel (t : OperationTable κ) (token other : OpToken) :
    Keeps t token (t.cancel other).2 := by
  unfold OperationTable.cancel
  cases hop : t.get? other with
  | none => exact refl t token
  | some op =>
    simp only
    cases hstate : op.state with
    | acknowledged => exact drop hop none (by rw [hstate]; nofun)
    | timeout => exact refl t token
    | pending => exact settle token hop .timeout

theorem remove (t : OperationTable κ) (token other : OpToken) :
    Keeps t token (t.remove other) := by
  unfold OperationTable.remove
  cases hop : t.get? other with
  | none => exact refl t token
  | some op => exact drop hop op.deadline fun _ => rfl

theorem wait (t : OperationTable κ) (token other : OpToken) :
    Keeps t token (t.wait other).2 := by
  unfold OperationTable.wait
  cases hop : t.get? other with
  | none => exact refl t token
  | some op =>
    simp only
    cases hstate : op.state with
    | pending => exact refl t token
    | acknowledged => exact drop hop op.deadline fun _ => rfl
    | timeout => exact drop hop op.deadline fun _ => rfl

end Keeps

theorem mem_foldl_post (due : List Deadline) (t : OperationTable κ) :
    (due.foldl (fun t dl => t.post (.deadlineElapsed dl.token)) t).deadlines = t.deadlines ∧
      (due.foldl (fun t dl => t.post (.deadlineElapsed dl.token)) t).clock = t.clock ∧
      ∀ event ∈ (due.foldl (fun t dl => t.post (.deadlineElapsed dl.token)) t).events,
        event ∈ t.events ∨ ∃ dl ∈ due, event = .deadlineElapsed dl.token := by
  induction due generalizing t with
  | nil => exact ⟨rfl, rfl, fun _ => .inl⟩
  | cons dl due ih =>
    obtain ⟨hdeadlines, hclock, hevents⟩ := ih (t.post (.deadlineElapsed dl.token))
    rw [List.foldl_cons]
    refine ⟨by rw [hdeadlines, post_deadlines], by rw [hclock, post_clock], fun event hevent => ?_⟩
    rcases hevents event hevent with hold | ⟨other, hother, rfl⟩
    · rw [post_events] at hold
      rcases List.mem_append.1 hold with hold | hnew
      · exact .inl hold
      · refine .inr ⟨dl, List.mem_cons_self, ?_⟩
        split at hnew
        · exact List.mem_singleton.1 hnew
        · cases hnew
    · exact .inr ⟨other, List.mem_cons_of_mem _ hother, rfl⟩

/-- Deadlines that elapse are due, and the others run on. -/
theorem elapse_deadlines (t : OperationTable κ) :
    t.elapse.clock = t.clock ∧ (∀ dl ∈ t.elapse.deadlines, dl ∈ t.deadlines) ∧
      ∀ event ∈ t.elapse.events, event ∈ t.events ∨
        ∃ dl ∈ t.deadlines, dl.due ≤ t.clock ∧ event = .deadlineElapsed dl.token := by
  obtain ⟨hdeadlines, hclock, hevents⟩ := mem_foldl_post
    (t.deadlines.filter fun dl => dl.due ≤ t.clock)
    { t with deadlines := t.deadlines.filter fun dl => ¬ dl.due ≤ t.clock }
  refine ⟨hclock, fun dl hdl => ?_, fun event hevent => ?_⟩
  · rw [elapse, hdeadlines] at hdl
    exact (List.mem_filter.1 hdl).1
  · rcases hevents event hevent with hold | ⟨dl, hdl, rfl⟩
    · exact .inl hold
    · obtain ⟨hdl, hdue⟩ := List.mem_filter.1 hdl
      exact .inr ⟨dl, hdl, of_decide_eq_true hdue, rfl⟩

theorem register_eq (t : OperationTable κ) (token : OpToken) {kind : OpKind}
    (hkind : kind.isWaitable = true) (watcher : κ) (timeout : Nat) :
    t.register token kind watcher timeout =
      ((t.arm token timeout).2.put token ⟨.pending, kind, watcher, (t.arm token timeout).1⟩).disarm
        ((t.get? token).bind (·.deadline)) := by
  have hsame : (t.arm token timeout).2.get? token = t.get? token := by
    rw [get?, arm_operations, get?]
  rw [register, if_pos hkind, ← hsame]

/-- A registration starts one deadline and stops that of the operation that it replaces. -/
theorem register_deadlines {t : OperationTable κ} {token : OpToken} {kind : OpKind} {watcher : κ}
    {timeout : Nat} {dl : Deadline} (hkind : kind.isWaitable = true)
    (hdl : dl ∈ (t.register token kind watcher timeout).deadlines) :
    (dl.token = token ∧ dl.due = t.clock + timeout ∧
      (t.register token kind watcher timeout).get? token =
        some ⟨.pending, kind, watcher, some dl.number⟩) ∨
    (dl ∈ t.deadlines ∧ ∀ op, t.get? token = some op → op.deadline ≠ some dl.number) := by
  rw [register_eq t token hkind] at hdl ⊢
  obtain ⟨hdl, hstopped⟩ := mem_disarm.1 hdl
  have hentry := (put_disarm_tells (t.arm token timeout).2 token
    ⟨.pending, kind, watcher, (t.arm token timeout).1⟩ ((t.get? token).bind (·.deadline))).self
  have hold : ∀ op, t.get? token = some op → op.deadline ≠ some dl.number := by
    intro op hop hnumber
    rw [hop] at hstopped
    exact hstopped hnumber
  have hdl : dl ∈ (t.arm token timeout).2.deadlines := hdl
  rw [hentry]
  rw [arm] at hdl ⊢
  split at hdl
  · rename_i htimed
    rw [if_pos htimed]
    rcases List.mem_append.1 hdl with hdl | hdl
    · exact .inr ⟨hdl, hold⟩
    · rw [List.mem_singleton.1 hdl]
      exact .inl ⟨rfl, rfl, rfl⟩
  · exact .inr ⟨hdl, hold⟩

theorem act_keeps (t : OperationTable κ) {a : Act κ} {token : OpToken}
    (h : a.registers token = none) : Keeps t token (t.act a) := by
  cases a with
  | register other kind watcher timeout =>
    show Keeps t token (t.register other kind watcher timeout)
    cases hkind : kind.isWaitable with
    | false =>
      rw [register_refused t other hkind]
      exact .refl t token
    | true =>
      have hother : token ≠ other := by
        rintro rfl
        simp [Act.registers, hkind] at h
      obtain ⟨op, -, -, htells⟩ := register_tells t other hkind watcher timeout
      refine .of_same (htells.others token hother) fun dl hdl htoken => ?_
      rcases register_deadlines hkind hdl with ⟨hnew, -, -⟩ | ⟨hold, -⟩
      · exact absurd (htoken.symm.trans hnew) hother
      · exact hold
  | registerTask other watcher =>
    have hother : token ≠ other := by
      rintro rfl
      simp [Act.registers] at h
    obtain ⟨op, -, -, htells⟩ := registerTask_tells t other watcher
    exact .of_same (htells.others token hother) fun dl hdl _ => hdl
  | complete other result => exact .complete t token other result
  | cancel other cancelAll => exact .cancel t token other
  | dispatch event =>
    cases event with
    | completed => exact .refl t token
    | deadlineElapsed other =>
      show Keeps t token (t.dispatch (.deadlineElapsed other)).2
      rw [dispatch_deadlineElapsed]
      split
      · exact .cancel t token other
      · exact .refl t token
  | remove other => exact .remove t token other
  | wait other => exact .wait t token other
  | tick =>
    obtain ⟨-, hrunning, -⟩ := elapse_deadlines { t with clock := t.clock + 1 }
    refine .of_same ?_ fun dl hdl _ => hrunning dl hdl
    show t.tick.get? token = t.get? token
    rw [get?, (tick_spec t).1, get?]
  | receive => exact .of_same rfl fun _ hdl _ => hdl
  | close => exact .of_same rfl fun _ hdl _ => hdl

/-- Only the passing of time posts deadlines. -/
theorem act_events {t : OperationTable κ} {a : Act κ} {token : OpToken}
    (h : .deadlineElapsed token ∈ (t.act a).events) :
    .deadlineElapsed token ∈ t.events ∨
      a = .tick ∧ ∃ dl ∈ t.deadlines, dl.due ≤ t.clock + 1 ∧ dl.token = token := by
  cases a with
  | register other kind watcher timeout =>
    left
    cases hkind : kind.isWaitable with
    | false => rwa [act, register_refused t other hkind] at h
    | true =>
      obtain ⟨op, -, -, htells⟩ := register_tells t other hkind watcher timeout
      rwa [act, htells.events, List.append_nil] at h
  | registerTask other watcher => exact .inl h
  | complete other result =>
    left
    rw [act, (complete_tells t other result).events] at h
    rcases List.mem_append.1 h with hold | hnew
    · exact hold
    · -- a report is no deadline
      unfold reported at hnew
      grind
  | cancel other cancelAll =>
    left
    rwa [act, (cancel_tells t other).2.events, List.append_nil] at h
  | dispatch event =>
    left
    cases event with
    | completed => exact h
    | deadlineElapsed other =>
      rw [act, dispatch_deadlineElapsed] at h
      split at h
      · rwa [(cancel_tells t other).2.events, List.append_nil] at h
      · exact h
  | remove other =>
    left
    rwa [act, (remove_tells t other).events, List.append_nil] at h
  | wait other =>
    left
    obtain ⟨now, htells⟩ := wait_tells t other
    rwa [act, htells.events, List.append_nil] at h
  | tick =>
    obtain ⟨-, -, hevents⟩ := elapse_deadlines { t with clock := t.clock + 1 }
    rcases hevents _ h with hold | ⟨dl, hdl, hdue, hevent⟩
    · exact .inl hold
    · cases hevent
      exact .inr ⟨rfl, dl, hdl, hdue, rfl⟩
  | receive => exact .inl (List.mem_of_mem_drop h)
  | close => exact .inl h

theorem cancel_clock (t : OperationTable κ) (token : OpToken) :
    (t.cancel token).2.clock = t.clock := by
  unfold OperationTable.cancel
  split
  · rfl
  · split <;> simp

theorem act_clock (t : OperationTable κ) (a : Act κ) :
    (t.act a).clock = t.clock + if a.isTick then 1 else 0 := by
  cases a with
  | register other kind watcher timeout =>
    show (t.register other kind watcher timeout).clock = t.clock
    unfold register arm
    split
    · rw [disarm_clock, put_clock]
      split <;> rfl
    · rfl
  | complete other result =>
    show (t.complete other result).clock = t.clock
    unfold OperationTable.complete
    split
    · rfl
    · split <;> simp
  | cancel other cancelAll => exact cancel_clock t other
  | dispatch event =>
    cases event with
    | completed => rfl
    | deadlineElapsed other =>
      show (t.dispatch (.deadlineElapsed other)).2.clock = t.clock
      rw [dispatch_deadlineElapsed]
      split
      · exact cancel_clock t other
      · rfl
  | remove other =>
    show (t.remove other).clock = t.clock
    unfold OperationTable.remove
    split
    · rfl
    · simp
  | wait other =>
    show (t.wait other).2.clock = t.clock
    unfold OperationTable.wait
    split
    · rfl
    · split <;> simp
  | tick => exact (elapse_deadlines { t with clock := t.clock + 1 }).1
  | registerTask | receive | close => rfl

/-! ## The invariant of runs -/

/-- A deadline belongs to the pending operation of its token. -/
def Running (t : OperationTable κ) (dl : Deadline) (kind : OpKind) (watcher : κ) : Prop :=
  ∃ op, t.get? dl.token = some op ∧ op.state = .pending ∧ op.deadline = some dl.number ∧
    op.kind = kind ∧ op.watcher = watcher

/-- If there is an operation under a token, it is that of a watcher. -/
def Holds (t : OperationTable κ) (token : OpToken) (kind : OpKind) (watcher : κ) : Prop :=
  ∀ op, t.get? token = some op → op.kind = kind ∧ op.watcher = watcher

/-- Deadlines that are running, and events of those that elapsed, come from registrations. -/
structure Traced (acts : List (Act κ)) (t : OperationTable κ) (hand : List (OpEvent κ)) : Prop where
  clock : t.clock = ticks acts
  running : ∀ dl ∈ t.deadlines, Comes acts dl.token dl.due (Running t dl)
  elapsed : ∀ token, OpEvent.deadlineElapsed token ∈ t.events ++ hand →
    ∃ due, due ≤ t.clock ∧ Comes acts token due (Holds t token)

namespace Traced

variable {acts : List (Act κ)} {t : OperationTable κ} {hand hand' : List (OpEvent κ)}

/-- A deadline that is running after an act. -/
theorem running_act (h : Traced acts t hand) (a : Act κ) {dl : Deadline}
    (hdl : dl ∈ (t.act a).deadlines) :
    Comes (acts ++ [a]) dl.token dl.due (Running (t.act a) dl) := by
  cases hregisters : a.registers dl.token with
  | none =>
    obtain ⟨-, hrunning⟩ := act_keeps t hregisters
    obtain ⟨hold, hsame⟩ := hrunning dl hdl rfl
    refine (h.running dl hold).concat (.inl ⟨hregisters, ?_⟩)
    rintro kind watcher ⟨op, hop, hpending, hnumber, hown⟩
    exact ⟨op, hsame op hop hpending hnumber, hpending, hnumber, hown⟩
  | some w =>
    cases a with
    | register token kind watcher timeout =>
      simp only [Act.registers, Option.ite_none_right_eq_some] at hregisters
      obtain ⟨⟨rfl, hkind⟩, -⟩ := hregisters
      rcases register_deadlines hkind hdl with ⟨-, hdue, hentry⟩ | ⟨hold, hstopped⟩
      · rw [hdue, h.clock]
        exact .begin hkind ⟨_, hentry, rfl, rfl, rfl, rfl⟩
      · refine (h.running dl hold).concat (.inr (.inr ⟨by simp [Act.registers, hkind], .inr ?_⟩))
        rintro kind watcher ⟨op, hop, -, hnumber, -⟩
        exact hstopped op hop hnumber
    | registerTask token watcher =>
      simp only [Act.registers, Option.ite_none_right_eq_some] at hregisters
      obtain ⟨rfl, -⟩ := hregisters
      exact (h.running dl hdl).concat (.inr (.inl ⟨watcher, rfl⟩))
    | _ => cases hregisters

/-- An event that was posted or received before an act. -/
theorem elapsed_act {token : OpToken} {due : Nat} (hclock : t.clock = ticks acts)
    (hdue : due ≤ t.clock) (h : Comes acts token due (Holds t token)) (a : Act κ) :
    Comes (acts ++ [a]) token due (Holds (t.act a) token) := by
  by_cases hregisters : a.registers token = none
  · refine h.concat (.inl ⟨hregisters, fun kind watcher hown op' hop' => ?_⟩)
    obtain ⟨op, hop, hkind, hwatcher⟩ := (act_keeps t hregisters).entry op' hop'
    rw [hkind, hwatcher]
    exact hown op hop
  · exact h.concat (.inr (.inr ⟨hregisters, .inl (hclock ▸ hdue)⟩))

theorem holds_of_running {dl : Deadline} {kind : OpKind} {watcher : κ}
    (h : Running t dl kind watcher) : Holds t dl.token kind watcher := by
  obtain ⟨op, hop, -, -, hkind, hwatcher⟩ := h
  intro op' hop'
  obtain rfl : op = op' := Option.some.inj (hop.symm.trans hop')
  exact ⟨hkind, hwatcher⟩

/-- One act, after which no events are in hand that were not there or received. -/
theorem act (h : Traced acts t hand) (a : Act κ)
    (hhand : ∀ event ∈ hand', event ∈ hand ∨ event ∈ t.events) :
    Traced (acts ++ [a]) (t.act a) hand' := by
  refine ⟨?_, fun dl hdl => h.running_act a hdl, fun token htoken => ?_⟩
  · rw [act_clock, h.clock, ticks_append, ticks_cons, ticks_nil, Nat.zero_add]
  · have hlater : t.clock ≤ (t.act a).clock := by
      rw [act_clock]
      exact Nat.le_add_right _ _
    have hcases : .deadlineElapsed token ∈ t.events ++ hand ∨
        a = .tick ∧ ∃ dl ∈ t.deadlines, dl.due ≤ t.clock + 1 ∧ dl.token = token := by
      rcases List.mem_append.1 htoken with hposted | hheld
      · exact (act_events hposted).imp_left (List.mem_append_left _)
      · rcases hhand _ hheld with hheld | hposted
        · exact .inl (List.mem_append_right _ hheld)
        · exact .inl (List.mem_append_left _ hposted)
    rcases hcases with hold | ⟨rfl, dl, hdl, hdue, rfl⟩
    · obtain ⟨due, hdue, hcomes⟩ := h.elapsed token hold
      exact ⟨due, Nat.le_trans hdue hlater, elapsed_act h.clock hdue hcomes a⟩
    · refine ⟨dl.due, by rw [act_clock]; exact hdue, ?_⟩
      have hget : ∀ token, (t.act .tick).get? token = t.get? token := by
        intro token
        show t.tick.get? token = t.get? token
        rw [get?, (tick_spec t).1, get?]
      refine (h.running dl hdl).concat (.inl ⟨rfl, fun kind watcher hown => ?_⟩)
      rw [Holds, hget]
      exact holds_of_running hown

theorem elapse (h : Traced acts t hand) : Traced acts t.elapse hand := by
  obtain ⟨hclock, hdeadlines, hevents⟩ := elapse_deadlines t
  have hget : ∀ token, t.elapse.get? token = t.get? token := by
    intro token
    rw [get?, (elapse_spec t).1, get?]
  refine ⟨hclock.trans h.clock, fun dl hdl => ?_, fun token htoken => ?_⟩
  · refine (h.running dl (hdeadlines dl hdl)).imp fun kind watcher hown => ?_
    rw [Running, hget]
    exact hown
  · have hcases : .deadlineElapsed token ∈ t.events ++ hand ∨
        ∃ dl ∈ t.deadlines, dl.due ≤ t.clock ∧ dl.token = token := by
      rcases List.mem_append.1 htoken with hposted | hheld
      · rcases hevents _ hposted with hold | ⟨dl, hdl, hdue, hevent⟩
        · exact .inl (List.mem_append_left _ hold)
        · cases hevent
          exact .inr ⟨dl, hdl, hdue, rfl⟩
      · exact .inl (List.mem_append_right _ hheld)
    rw [hclock]
    rcases hcases with hold | ⟨dl, hdl, hdue, rfl⟩
    · obtain ⟨due, hdue, hcomes⟩ := h.elapsed token hold
      refine ⟨due, hdue, hcomes.imp fun kind watcher hown => ?_⟩
      rw [Holds, hget]
      exact hown
    · refine ⟨dl.due, hdue, (h.running dl hdl).imp fun kind watcher hown => ?_⟩
      rw [Holds, hget]
      exact holds_of_running hown

end Traced

/-- **In every run deadlines come from registrations.** -/
theorem Run.traced {acts : List (Act κ)} {t : OperationTable κ} {hand : List (OpEvent κ)}
    (h : Run acts t hand) : Traced acts t hand := by
  induction h with
  | start => exact ⟨rfl, nofun, nofun⟩
  | act a hfree h ih => exact ih.act _ fun event hevent => .inl hevent
  | elapse h ih => exact ih.elapse
  | receive hevents h ih =>
    refine ih.act _ fun event hevent => ?_
    rcases List.mem_append.1 hevent with hheld | hnew
    · exact .inl hheld
    · rw [hevents, List.mem_singleton.1 hnew]
      exact .inr List.mem_cons_self
  | dispatch h ih =>
    refine ih.act _ fun event hevent => .inl ?_
    rcases List.mem_append.1 hevent with hbefore | hbehind
    · exact List.mem_append_left _ hbefore
    · exact List.mem_append_right _ (List.mem_cons_of_mem _ hbehind)

/-! ## The operation that is hit -/

/-- An elapsed deadline makes a pending operation time out. -/
theorem deadline_times_out {t : OperationTable κ} {token : OpToken}
    (h : t.state? token = some .pending) :
    (t.act (.dispatch (.deadlineElapsed token))).state? token = some .timeout := by
  obtain ⟨op, hop, hpending⟩ := Option.map_eq_some_iff.1 h
  have hcancel := (cancel_tells t token).2.self
  rw [hop, afterCancel, hpending] at hcancel
  show ((t.dispatch (.deadlineElapsed token)).2.get? token).map (·.state) = some .timeout
  rw [dispatch_deadlineElapsed, if_pos h, hcancel]
  rfl

/-- **A deadline hits its own operation, late.** When an event in hand makes a pending operation
time out, the event comes from the registration of an operation under the token, at least its
timeout ago. Unless the token was registered again, that operation is the one that is hit. It may
be another one in two ways only: the first registration that followed was one of a pass, which
does not stop the deadline, or it came when the timeout was over and the event on its way. -/
theorem deadline_hits {acts : List (Act κ)} {t : OperationTable κ}
    {before behind : List (OpEvent κ)} {token : OpToken}
    (h : Run acts t (before ++ .deadlineElapsed token :: behind))
    (hpending : t.state? token = some .pending) :
    (t.act (.dispatch (.deadlineElapsed token))).state? token = some .timeout ∧
    ∃ earlier kind watcher timeout later,
      acts = earlier ++ .register token kind watcher timeout :: later ∧ kind.isWaitable = true ∧
      timeout ≤ ticks later ∧
      ((Spared token later ∧ ∃ op, t.get? token = some op ∧ op.kind = kind ∧ op.watcher = watcher) ∨
        Replaced token timeout later) := by
  refine ⟨deadline_times_out hpending, ?_⟩
  obtain ⟨op, hop, -⟩ := Option.map_eq_some_iff.1 hpending
  have hheld : .deadlineElapsed token ∈ t.events ++ (before ++ .deadlineElapsed token :: behind) :=
    List.mem_append_right _ (List.mem_append_right _ List.mem_cons_self)
  obtain ⟨due, hdue, earlier, kind, watcher, timeout, later, rfl, hkind, rfl, hfate⟩ :=
    h.traced.elapsed token hheld
  refine ⟨earlier, kind, watcher, timeout, later, rfl, hkind, ?_, ?_⟩
  · have hregister : (Act.register token kind watcher timeout).isTick = false := rfl
    rw [h.traced.clock, ticks_append, ticks_cons, hregister] at hdue
    simp only [Bool.false_eq_true, if_false] at hdue
    omega
  · exact hfate.imp_left fun ⟨hspared, hholds⟩ => ⟨hspared, op, hop, hholds op hop⟩

theorem deadline_hits_own :
    ∃ t, Run [.register ⟨5⟩ .backupWait 1 1, .tick, .receive] t [.deadlineElapsed ⟨5⟩] ∧
      t.state? ⟨5⟩ = some .pending ∧
      (t.act (.dispatch (.deadlineElapsed ⟨5⟩))).state? ⟨5⟩ = some .timeout := by
  have hposted := (Run.start.act (.register ⟨5⟩ .backupWait 1 1) rfl).act .tick rfl
  have hrun : Run [.register ⟨5⟩ .backupWait 1 1, .tick, .receive] _
      ([] ++ OpEvent.deadlineElapsed ⟨5⟩ :: []) := hposted.receive rfl
  exact ⟨_, hrun, rfl, (deadline_hits hrun rfl).1⟩

/-- A pass takes the token of an operation whose deadline is running and is canceled by it; an
operation with a second left takes the token of one whose event is on its way and is canceled at
once. -/
theorem deadline_hits_replacement :
    (∃ t, Run [.register ⟨5⟩ .backupWait 1 1, .registerTask ⟨5⟩ 2, .tick, .receive] t
        [.deadlineElapsed ⟨5⟩] ∧
      (t.get? ⟨5⟩).map (·.kind) = some .backupTask ∧ t.state? ⟨5⟩ = some .pending ∧
      (t.dispatch (.deadlineElapsed ⟨5⟩)).1 = some (.cancel 2 false) ∧
      (t.dispatch (.deadlineElapsed ⟨5⟩)).2.state? ⟨5⟩ = some .timeout) ∧
    (∃ t, Run [.register ⟨5⟩ .backupWait 1 1, .tick, .remove ⟨5⟩,
        .register ⟨5⟩ .backupWait 2 1000, .receive] t [.deadlineElapsed ⟨5⟩] ∧
      (t.get? ⟨5⟩).map (·.watcher) = some 2 ∧ t.state? ⟨5⟩ = some .pending ∧
      (t.dispatch (.deadlineElapsed ⟨5⟩)).1 = some (.cancel 2 false) ∧
      (t.dispatch (.deadlineElapsed ⟨5⟩)).2.state? ⟨5⟩ = some .timeout) := by
  have hbegun := Run.start.act (.register ⟨5⟩ .backupWait 1 1) rfl
  have hpass := ((hbegun.act (.registerTask ⟨5⟩ 2) rfl).act .tick rfl).receive rfl
  have hagain := (((hbegun.act .tick rfl).act (.remove ⟨5⟩) rfl).act
    (.register ⟨5⟩ .backupWait 2 1000) rfl).receive rfl
  exact ⟨⟨_, hpass, rfl, rfl, rfl, rfl⟩, ⟨_, hagain, rfl, rfl, rfl, rfl⟩⟩

end Holdfast.OperationTable
