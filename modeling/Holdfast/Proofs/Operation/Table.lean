import Holdfast.Operation.Table

/-!
# What the operations of the table touch

Each operation of the table changes the entry of one token and leaves the others alone.

- `OperationTable.get?_put`, `get?_erase`: looking up after an entry changed;
- `OperationTable.Tells`: how one table follows another when only `token` was touched and only
  `said` was posted; every operation on a single token is of this kind (`complete_tells`,
  `cancel_tells`, `register_tells`, …);
- `OperationTable.tokens`: the tokens in use; only a registration adds one
  (`complete_subset`, `cancel_subset`).
-/

namespace Holdfast.OperationTable

variable {κ : Type}

/-! ## Looking up -/

theorem lookup_dropToken {token other : OpToken} {ops : List (OpToken × Operation κ)} :
    (dropToken token ops).lookup other = if other = token then none else ops.lookup other := by
  induction ops with
  | nil => simp [dropToken]
  | cons entry ops ih =>
    obtain ⟨key, op⟩ := entry
    rw [dropToken] at ih ⊢
    by_cases hkey : key = token
    · subst hkey
      rw [List.filter_cons_of_neg (by simp), ih]
      split
      · rfl
      · rename_i hne
        rw [List.lookup_cons, beq_false_of_ne hne]
    · rw [List.filter_cons_of_pos (by simpa using hkey), List.lookup_cons, ih, List.lookup_cons]
      by_cases hother : other = key
      · subst hother
        simp [hkey]
      · rw [beq_false_of_ne hother]

theorem get?_put (t : OperationTable κ) (token other : OpToken) (op : Operation κ) :
    (t.put token op).get? other = if other = token then some op else t.get? other := by
  rw [get?, put, List.lookup_cons]
  by_cases h : other = token
  · subst h
    simp
  · rw [beq_false_of_ne h, lookup_dropToken, if_neg h, if_neg h]
    rfl

theorem get?_erase (t : OperationTable κ) (token other : OpToken) :
    (t.erase token).get? other = if other = token then none else t.get? other :=
  lookup_dropToken

@[simp] theorem disarm_operations (t : OperationTable κ) (deadline : Option Nat) :
    (t.disarm deadline).operations = t.operations := by
  cases deadline <;> rfl

@[simp] theorem disarm_events (t : OperationTable κ) (deadline : Option Nat) :
    (t.disarm deadline).events = t.events := by
  cases deadline <;> rfl

@[simp] theorem disarm_listening (t : OperationTable κ) (deadline : Option Nat) :
    (t.disarm deadline).listening = t.listening := by
  cases deadline <;> rfl

@[simp] theorem get?_disarm (t : OperationTable κ) (deadline : Option Nat) (token : OpToken) :
    (t.disarm deadline).get? token = t.get? token := by
  rw [get?, disarm_operations, get?]

@[simp] theorem post_operations (t : OperationTable κ) (event : OpEvent κ) :
    (t.post event).operations = t.operations := by
  rw [post]
  split <;> rfl

@[simp] theorem get?_post (t : OperationTable κ) (event : OpEvent κ) (token : OpToken) :
    (t.post event).get? token = t.get? token := by
  rw [get?, post_operations, get?]

@[simp] theorem post_listening (t : OperationTable κ) (event : OpEvent κ) :
    (t.post event).listening = t.listening := by
  rw [post]
  split <;> rfl

theorem post_events (t : OperationTable κ) (event : OpEvent κ) :
    (t.post event).events = t.events ++ if t.listening then [event] else [] := by
  rw [post]
  split <;> simp

@[simp] theorem arm_operations (t : OperationTable κ) (token : OpToken) (timeout : Nat) :
    (t.arm token timeout).2.operations = t.operations := by
  rw [arm]
  split <;> rfl

@[simp] theorem arm_events (t : OperationTable κ) (token : OpToken) (timeout : Nat) :
    (t.arm token timeout).2.events = t.events := by
  rw [arm]
  split <;> rfl

@[simp] theorem arm_listening (t : OperationTable κ) (token : OpToken) (timeout : Nat) :
    (t.arm token timeout).2.listening = t.listening := by
  rw [arm]
  split <;> rfl

/-! ## One token at a time -/

/-- The table `t'` follows `t` after `now` was entered under `token` and `said` was posted. -/
structure Tells (t : OperationTable κ) (token : OpToken) (now : Option (Operation κ))
    (said : List (OpEvent κ)) (t' : OperationTable κ) : Prop where
  self : t'.get? token = now
  others : ∀ other, other ≠ token → t'.get? other = t.get? other
  events : t'.events = t.events ++ said
  listening : t'.listening = t.listening

theorem Tells.refl {t : OperationTable κ} {token : OpToken} {now : Option (Operation κ)}
    (h : t.get? token = now) : Tells t token now [] t :=
  ⟨h, fun _ _ => rfl, (List.append_nil _).symm, rfl⟩

theorem put_disarm_tells (t : OperationTable κ) (token : OpToken) (op : Operation κ)
    (deadline : Option Nat) : Tells t token (some op) [] ((t.put token op).disarm deadline) where
  self := by rw [get?_disarm, get?_put, if_pos rfl]
  others other hne := by rw [get?_disarm, get?_put, if_neg hne]
  events := by rw [disarm_events, List.append_nil]; rfl
  listening := by rw [disarm_listening]; rfl

theorem erase_disarm_tells (t : OperationTable κ) (token : OpToken) (deadline : Option Nat) :
    Tells t token none [] ((t.erase token).disarm deadline) where
  self := by rw [get?_disarm, get?_erase, if_pos rfl]
  others other hne := by rw [get?_disarm, get?_erase, if_neg hne]
  events := by rw [disarm_events, List.append_nil]; rfl
  listening := by rw [disarm_listening]; rfl

/-- A registration enters a pending operation; a kind that is not waited for is refused. -/
theorem register_tells (t : OperationTable κ) (token : OpToken) {kind : OpKind}
    (hkind : kind.isWaitable = true) (watcher : κ) (timeout : Nat) :
    ∃ op, op.state = .pending ∧ op.watcher = watcher ∧
      Tells t token (some op) [] (t.register token kind watcher timeout) := by
  rw [register, if_pos hkind]
  refine ⟨⟨.pending, kind, watcher, (t.arm token timeout).1⟩, rfl, rfl, ?_⟩
  obtain ⟨hself, hothers, hevents, hlistening⟩ := put_disarm_tells (t.arm token timeout).2 token
    ⟨.pending, kind, watcher, (t.arm token timeout).1⟩
    (((t.arm token timeout).2.get? token).bind (·.deadline))
  refine ⟨hself, fun other hne => ?_, ?_, ?_⟩
  · rw [hothers other hne, get?, arm_operations, get?]
  · rw [hevents, arm_events]
  · rw [hlistening, arm_listening]

theorem register_refused (t : OperationTable κ) (token : OpToken) {kind : OpKind}
    (hkind : kind.isWaitable = false) (watcher : κ) (timeout : Nat) :
    t.register token kind watcher timeout = t := by
  rw [register, if_neg (by simp [hkind])]

theorem registerTask_tells (t : OperationTable κ) (token : OpToken) (watcher : κ) :
    ∃ op, op.state = .pending ∧ op.watcher = watcher ∧
      Tells t token (some op) [] (t.registerTask token watcher) :=
  ⟨_, rfl, rfl, put_disarm_tells t token ⟨.pending, .backupTask, watcher, none⟩ none⟩

/-- What a report leaves under its token. -/
def afterReport : Option (Operation κ) → Option (Operation κ)
  | none => none
  | some op =>
    match op.state with
    | .timeout => some op
    | .acknowledged => none
    | .pending => some { op with state := .acknowledged, deadline := none }

/-- What a report posts. -/
def reported (token : OpToken) (result : Int) : Option (Operation κ) → List (OpEvent κ)
  | none => []
  | some op =>
    match op.state with
    | .timeout | .acknowledged => []
    | .pending => [.completed token op.watcher result]

theorem complete_tells (t : OperationTable κ) (token : OpToken) (result : Int) :
    Tells t token (afterReport (t.get? token))
      (if t.listening then reported token result (t.get? token) else [])
      (t.complete token result) := by
  unfold complete
  cases hop : t.get? token with
  | none => exact ⟨hop, fun _ _ => rfl, by simp [reported], rfl⟩
  | some op =>
    simp only
    cases hstate : op.state with
    | timeout =>
      simp only [afterReport, reported, hstate, ite_self]
      exact .refl hop
    | acknowledged =>
      simp only [afterReport, reported, hstate, ite_self]
      exact erase_disarm_tells t token none
    | pending =>
      obtain ⟨hself, hothers, hevents, hlistening⟩ := put_disarm_tells t token
        { op with state := .acknowledged, deadline := none } op.deadline
      simp only [afterReport, reported, hstate]
      refine ⟨by rw [get?_post, hself], fun other hne => by rw [get?_post, hothers other hne], ?_,
        by rw [post_listening, hlistening]⟩
      rw [post_events, hevents, hlistening, List.append_nil]

/-- What a cancel leaves under its token. -/
def afterCancel : Option (Operation κ) → Option (Operation κ)
  | none => none
  | some op =>
    match op.state with
    | .acknowledged => none
    | .timeout => some op
    | .pending => some { op with state := .timeout, deadline := none }

/-- Whom a cancel has to tell. -/
def canceled : Option (Operation κ) → Option κ
  | none => none
  | some op =>
    match op.state with
    | .acknowledged | .timeout => none
    | .pending => some op.watcher

theorem cancel_tells (t : OperationTable κ) (token : OpToken) :
    (t.cancel token).1 = canceled (t.get? token) ∧
      Tells t token (afterCancel (t.get? token)) [] (t.cancel token).2 := by
  unfold cancel
  cases hop : t.get? token with
  | none => exact ⟨rfl, .refl hop⟩
  | some op =>
    simp only
    cases hstate : op.state with
    | acknowledged =>
      simp only [afterCancel, canceled, hstate]
      exact ⟨trivial, erase_disarm_tells t token none⟩
    | timeout =>
      simp only [afterCancel, canceled, hstate]
      exact ⟨trivial, .refl hop⟩
    | pending =>
      simp only [afterCancel, canceled, hstate]
      exact ⟨trivial, put_disarm_tells t token _ _⟩

/-- An elapsed deadline cancels a pending operation and touches no other one. -/
theorem dispatch_deadlineElapsed (t : OperationTable κ) (token : OpToken) :
    t.dispatch (.deadlineElapsed token) =
      if t.state? token = some .pending then
        ((t.cancel token).1.map (.cancel · false), (t.cancel token).2)
      else (none, t) := rfl

theorem wait_tells (t : OperationTable κ) (token : OpToken) :
    ∃ now, Tells t token now [] (t.wait token).2 := by
  unfold wait
  cases hop : t.get? token with
  | none => exact ⟨_, .refl rfl⟩
  | some op =>
    simp only
    cases hstate : op.state with
    | pending => exact ⟨_, .refl rfl⟩
    | acknowledged => exact ⟨_, erase_disarm_tells t token _⟩
    | timeout => exact ⟨_, erase_disarm_tells t token _⟩

theorem remove_tells (t : OperationTable κ) (token : OpToken) :
    Tells t token none [] (t.remove token) := by
  unfold remove
  cases hop : t.get? token with
  | none => exact .refl hop
  | some op => exact erase_disarm_tells t token _

/-! ## Tokens in the table -/

/-- The tokens under which there are operations. -/
def tokens (t : OperationTable κ) : List OpToken := t.operations.map (·.1)

theorem get?_eq_none_iff {t : OperationTable κ} {token : OpToken} :
    t.get? token = none ↔ token ∉ t.tokens := by
  rw [get?, List.lookup_eq_none_iff, tokens, List.mem_map]
  constructor
  · rintro h ⟨entry, hmem, rfl⟩
    simpa using h entry hmem
  · intro h entry hmem
    rw [bne_iff_ne]
    rintro rfl
    exact h ⟨entry, hmem, rfl⟩

theorem tokens_erase (t : OperationTable κ) (token : OpToken) :
    (t.erase token).tokens = t.tokens.filter (fun other => other ≠ token) := by
  simp only [tokens, erase, dropToken, List.filter_map]
  rfl

theorem tokens_put (t : OperationTable κ) (token : OpToken) (op : Operation κ) :
    (t.put token op).tokens = token :: t.tokens.filter (fun other => other ≠ token) := by
  simp only [tokens, put, List.map_cons, dropToken, List.filter_map]
  rfl

@[simp] theorem tokens_disarm (t : OperationTable κ) (deadline : Option Nat) :
    (t.disarm deadline).tokens = t.tokens := by
  rw [tokens, disarm_operations, tokens]

@[simp] theorem tokens_post (t : OperationTable κ) (event : OpEvent κ) :
    (t.post event).tokens = t.tokens := by
  rw [tokens, post_operations, tokens]

/-- Without an operation there is no token to drop. -/
theorem tokens_filter_of_none {t : OperationTable κ} {token : OpToken}
    (h : t.get? token = none) : t.tokens.filter (fun other => other ≠ token) = t.tokens := by
  refine List.filter_eq_self.2 fun other hother => ?_
  have hne : other ≠ token := fun heq => get?_eq_none_iff.1 h (heq ▸ hother)
  simpa using hne

theorem tokens_remove (t : OperationTable κ) (token : OpToken) :
    (t.remove token).tokens = t.tokens.filter (fun other => other ≠ token) := by
  unfold remove
  cases hop : t.get? token with
  | none => exact (tokens_filter_of_none hop).symm
  | some op => rw [tokens_disarm, tokens_erase]

/-- Collecting a decided operation drops its token. -/
theorem tokens_wait (t : OperationTable κ) {token : OpToken}
    (h : t.state? token ≠ some .pending) :
    (t.wait token).2.tokens = t.tokens.filter (fun other => other ≠ token) := by
  unfold wait
  cases hop : t.get? token with
  | none => exact (tokens_filter_of_none hop).symm
  | some op =>
    simp only
    cases hstate : op.state with
    | pending => exact absurd (by rw [state?, hop, Option.map_some, hstate]) h
    | acknowledged => rw [tokens_disarm, tokens_erase]
    | timeout => rw [tokens_disarm, tokens_erase]

/-- Changing the operation of a token adds no other token. -/
theorem put_subset {t : OperationTable κ} {token : OpToken} {op op' : Operation κ}
    (h : t.get? token = some op) : (t.put token op').tokens ⊆ t.tokens := by
  intro other hother
  rw [tokens_put] at hother
  rcases List.mem_cons.1 hother with rfl | hother
  · refine Classical.byContradiction fun hnot => ?_
    rw [get?_eq_none_iff.2 hnot] at h
    cases h
  · exact (List.mem_filter.1 hother).1

theorem complete_subset (t : OperationTable κ) (token : OpToken) (result : Int) :
    (t.complete token result).tokens ⊆ t.tokens := by
  unfold complete
  cases hop : t.get? token with
  | none => exact List.Subset.refl _
  | some op =>
    simp only
    cases hstate : op.state with
    | timeout => exact List.Subset.refl _
    | acknowledged =>
      rw [tokens_erase]
      exact List.filter_sublist.subset
    | pending =>
      rw [tokens_post, tokens_disarm]
      exact put_subset hop

theorem cancel_subset (t : OperationTable κ) (token : OpToken) :
    (t.cancel token).2.tokens ⊆ t.tokens := by
  unfold cancel
  cases hop : t.get? token with
  | none => exact List.Subset.refl _
  | some op =>
    simp only
    cases hstate : op.state with
    | timeout => exact List.Subset.refl _
    | acknowledged =>
      rw [tokens_erase]
      exact List.filter_sublist.subset
    | pending =>
      rw [tokens_disarm]
      exact put_subset hop

theorem tokens_registerTask (t : OperationTable κ) (token : OpToken) (watcher : κ) :
    (t.registerTask token watcher).tokens ⊆ token :: t.tokens := by
  rw [registerTask, tokens_put]
  exact List.cons_subset_cons _ List.filter_sublist.subset

theorem tokens_register (t : OperationTable κ) (token : OpToken) (kind : OpKind) (watcher : κ)
    (timeout : Nat) : (t.register token kind watcher timeout).tokens ⊆ token :: t.tokens := by
  unfold register
  split
  · rw [tokens_disarm, tokens_put]
    refine List.cons_subset_cons _ fun other hother => ?_
    have := (List.mem_filter.1 hother).1
    rwa [tokens, arm_operations] at this
  · exact List.subset_cons_self _ _

/-! ## Deadlines -/

/-- Elapsed deadlines post themselves and touch no operation. -/
theorem elapse_spec (t : OperationTable κ) :
    t.elapse.operations = t.operations ∧ t.elapse.listening = t.listening ∧
      ∃ tokens : List OpToken, t.elapse.events = t.events ++ tokens.map .deadlineElapsed := by
  have hfold : ∀ (due : List Deadline) (t : OperationTable κ),
      (due.foldl (fun t deadline => t.post (.deadlineElapsed deadline.token)) t).operations =
          t.operations ∧
        (due.foldl (fun t deadline => t.post (.deadlineElapsed deadline.token)) t).listening =
          t.listening ∧
        ∃ tokens : List OpToken,
          (due.foldl (fun t deadline => t.post (.deadlineElapsed deadline.token)) t).events =
            t.events ++ tokens.map .deadlineElapsed := by
    intro due
    induction due with
    | nil => exact fun t => ⟨rfl, rfl, [], (List.append_nil _).symm⟩
    | cons deadline due ih =>
      intro t
      obtain ⟨hops, hlistening, tokens, hevents⟩ := ih (t.post (.deadlineElapsed deadline.token))
      rw [List.foldl_cons]
      refine ⟨by rw [hops, post_operations], by rw [hlistening, post_listening], ?_⟩
      rw [hevents, post_events]
      split
      · exact ⟨deadline.token :: tokens, by simp⟩
      · exact ⟨tokens, by simp⟩
  exact hfold _ { t with deadlines := _ }

theorem tick_spec (t : OperationTable κ) :
    t.tick.operations = t.operations ∧ t.tick.listening = t.listening ∧
      ∃ tokens : List OpToken, t.tick.events = t.events ++ tokens.map .deadlineElapsed :=
  elapse_spec { t with clock := t.clock + 1 }

end Holdfast.OperationTable
