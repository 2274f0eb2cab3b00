import Holdfast.Proofs.Engine.WipesDue

/-!
# A cancel reaches every pass

A pass is canceled under a token of its own, by whoever finds its operation pending. This needs that
nobody else touches that operation. Agents report under the tokens that they were given, and these
are not the tokens of passes as long as no token is issued twice.

- `Roster.Reachable`: a pass is canceled, or its operation is pending under a token that is no
  agent's;
- `World.cancelBackups_cancels`: **a cancel reaches every pass that is reachable**;
- `World.course_canceled`: what a canceled task does from then on, it does canceled;
- `World.issues`: the tokens that are issued in a run;
- `World.Honest`: agents report only under tokens that they were given;
- `Roster.Tokened`: the tokens of passes are kept apart from those of agents. Every event keeps this
  (`Roster.Deed.tokened`, `Roster.Turn.tokened`);
- `World.honest_reachable`: **every pass is reachable** as long as no token is issued twice and
  agents report only under tokens that they were given.
-/

namespace Holdfast

open OperationTable (Spares)

/-- A task is the same pass as before, and if it was canceled it still is. -/
structure Task.Becomes (t t' : Task) : Prop where
  number : t'.number = t.number
  token : t'.token = t.token
  pass : t'.job.isPass = t.job.isPass
  canceled : t.canceled = true → t'.canceled = true

theorem Task.Becomes.refl (t : Task) : t.Becomes t := ⟨rfl, rfl, rfl, id⟩

theorem Task.Continues.becomes {t t' : Task} (h : t.Continues t') : t.Becomes t' :=
  ⟨h.number, h.token, h.pass, fun hcanceled => h.canceled.trans hcanceled⟩

/-- The token that is issued in an event. -/
def Dealing.issued? : Dealing → Option OpToken
  | .issues token => some token
  | .nothing | .hears _ => none

namespace Roster

variable {r r' : Roster} {t t' : Task} {issued agents : List OpToken}

/-- An operation of a pass, as it was entered. -/
def passOperation (number : Nat) : Operation Watcher := ⟨.pending, .backupTask, .task number, none⟩

/-- Some tokens are the agents'. The passes have tokens of their own, each another one, and unless
a pass is canceled its operation is pending. -/
structure Tokened (r : Roster) (issued agents : List OpToken) : Prop where
  among : agents ⊆ issued
  handed : ∀ entry ∈ r.handed, entry.2 ∈ agents
  held : ∀ t ∈ r.tasks, t.holds ⊆ agents
  own : ∀ t ∈ r.tasks, t.job.isPass = true → ∃ key, t.token = some key ∧ key ∈ issued ∧
    key ∉ agents ∧ (t.canceled = true ∨ r.ops.get? key = some (passOperation t.number))
  apart : ∀ t ∈ r.tasks, ∀ other ∈ r.tasks, t.job.isPass = true → other.job.isPass = true →
    t.token = other.token → t.number = other.number

namespace Tokened

/-- Every task was there before, and the operations of passes that are not canceled stay. -/
theorem follow (h : r.Tokened issued agents)
    (hhanded : ∀ entry ∈ r'.handed, entry ∈ r.handed ∨ entry.2 ∈ agents)
    (htasks : ∀ t' ∈ r'.tasks, ∃ t ∈ r.tasks, t.Becomes t' ∧ t'.holds ⊆ agents ∧
      (t'.job.isPass = true → t'.canceled = true ∨
        ∀ key, t'.token = some key → key ∉ agents → r'.ops.get? key = r.ops.get? key)) :
    r'.Tokened issued agents where
  among := h.among
  handed entry hentry := by
    rcases hhanded entry hentry with hold | hnew
    · exact h.handed entry hold
    · exact hnew
  held t' hmem := by
    obtain ⟨t, -, -, hholds, -⟩ := htasks t' hmem
    exact hholds
  own t' hmem hpass := by
    obtain ⟨t, ht, hbecomes, -, hops⟩ := htasks t' hmem
    obtain ⟨key, hkey, hissued, hother, hlast⟩ := h.own t ht (hbecomes.pass ▸ hpass)
    have hkey' : t'.token = some key := hbecomes.token.trans hkey
    refine ⟨key, hkey', hissued, hother, ?_⟩
    rcases hlast with hcanceled | hpending
    · exact .inl (hbecomes.canceled hcanceled)
    · refine (hops hpass).imp_right fun hsame => ?_
      rw [hsame key hkey' hother, hbecomes.number]
      exact hpending
  apart t' hmem other' hmem' hpass hpass' htoken := by
    obtain ⟨t, ht, hbecomes, -⟩ := htasks t' hmem
    obtain ⟨other, hother, hbecomes', -⟩ := htasks other' hmem'
    rw [hbecomes.number, hbecomes'.number]
    exact h.apart t ht other hother (hbecomes.pass ▸ hpass) (hbecomes'.pass ▸ hpass')
      (hbecomes.token.symm.trans (htoken.trans hbecomes'.token))

/-- Tasks are as they were, and only operations of agents have changed. -/
theorem congr (h : r.Tokened issued agents) (hhanded : r'.handed = r.handed)
    (htasks : ∀ t ∈ r'.tasks, t ∈ r.tasks) (hops : r.ops.Spares agents r'.ops) :
    r'.Tokened issued agents :=
  h.follow (fun _ hentry => .inl (hhanded ▸ hentry)) fun t' hmem =>
    ⟨t', htasks t' hmem, .refl t', h.held t' (htasks t' hmem), fun _ => .inr fun key _ => hops key⟩

/-- A token is issued to an agent. -/
theorem grow (h : r.Tokened issued agents) {token : OpToken} (hnew : token ∉ issued) :
    r.Tokened (issued ++ [token]) (agents ++ [token]) where
  among := by
    intro other hmem
    rcases List.mem_append.1 hmem with hold | hlast
    · exact List.mem_append_left _ (h.among hold)
    · exact List.mem_append_right _ hlast
  handed entry hentry := List.mem_append_left _ (h.handed entry hentry)
  held t hmem _ htoken := List.mem_append_left _ (h.held t hmem htoken)
  own t hmem hpass := by
    obtain ⟨key, hkey, hissued, hother, hlast⟩ := h.own t hmem hpass
    refine ⟨key, hkey, List.mem_append_left _ hissued, fun hmem => ?_, hlast⟩
    rcases List.mem_append.1 hmem with hold | hsame
    · exact hother hold
    · obtain rfl := List.mem_singleton.1 hsame
      exact hnew hissued
  apart := h.apart

/-- A token is issued to a pass that begins under it. -/
theorem begins (h : r.Tokened issued agents) {token : OpToken} (hnew : token ∉ issued)
    (htoken : t.token = some token) (hholds : t.holds = []) (hpass : t.job.isPass = true)
    (hhanded : r'.handed = r.handed) (htasks : r'.tasks = r.tasks ++ [t])
    (hops : r'.ops = r.ops.registerTask token (.task t.number)) :
    r'.Tokened (issued ++ [token]) agents := by
  have hget : ∀ key, r'.ops.get? key =
      if key = token then some (passOperation t.number) else r.ops.get? key := by
    intro key
    rw [hops]
    exact OperationTable.get?_put r.ops token key _
  have hcases : ∀ t' ∈ r'.tasks, t' ∈ r.tasks ∨ t' = t := by
    intro t' hmem
    rw [htasks] at hmem
    rcases List.mem_append.1 hmem with hold | hlast
    · exact .inl hold
    · exact .inr (List.mem_singleton.1 hlast)
  -- the passes that were there have other tokens
  have hothers : ∀ other ∈ r.tasks, other.job.isPass = true → other.token ≠ some token := by
    intro other hmem hpass heq
    obtain ⟨key, hkey, hissued, -⟩ := h.own other hmem hpass
    obtain rfl := Option.some.inj (hkey.symm.trans heq)
    exact hnew hissued
  constructor
  · exact fun other hmem => List.mem_append_left _ (h.among hmem)
  · intro entry hentry
    exact h.handed entry (hhanded ▸ hentry)
  · intro t' hmem
    rcases hcases t' hmem with hold | rfl
    · exact h.held t' hold
    · rw [hholds]
      exact List.nil_subset _
  · intro t' hmem hpass'
    rcases hcases t' hmem with hold | rfl
    · obtain ⟨key, hkey, hissued, hother, hlast⟩ := h.own t' hold hpass'
      refine ⟨key, hkey, List.mem_append_left _ hissued, hother, hlast.imp_right fun hpending => ?_⟩
      rw [hget, if_neg fun heq : key = token => hothers t' hold hpass' (heq ▸ hkey)]
      exact hpending
    · refine ⟨token, htoken, List.mem_append_right _ (List.mem_singleton_self _),
        fun hmem => hnew (h.among hmem), .inr ?_⟩
      rw [hget, if_pos rfl]
  · intro t' hmem other hmem' hpass' hpassOther heq
    rcases hcases t' hmem with hold | rfl <;> rcases hcases other hmem' with hold' | rfl
    · exact h.apart t' hold other hold' hpass' hpassOther heq
    · exact absurd (heq.trans htoken) (hothers t' hold hpass')
    · exact absurd (heq.symm.trans htoken) (hothers other hold' hpassOther)
    · rfl

/-- Another task begins. -/
theorem enters (h : r.Tokened issued agents) (hpass : t.job.isPass = false)
    (hholds : t.holds = []) (hhanded : r'.handed = r.handed) (htasks : r'.tasks = r.tasks ++ [t])
    (hops : r'.ops = r.ops) : r'.Tokened issued agents := by
  have hcases : ∀ t' ∈ r'.tasks, t' ∈ r.tasks ∨ t' = t := by
    intro t' hmem
    rw [htasks] at hmem
    rcases List.mem_append.1 hmem with hold | hlast
    · exact .inl hold
    · exact .inr (List.mem_singleton.1 hlast)
  have hpasses : ∀ t' ∈ r'.tasks, t'.job.isPass = true → t' ∈ r.tasks := by
    intro t' hmem hpass'
    rcases hcases t' hmem with hold | rfl
    · exact hold
    · rw [hpass] at hpass'
      cases hpass'
  constructor
  · exact h.among
  · intro entry hentry
    exact h.handed entry (hhanded ▸ hentry)
  · intro t' hmem
    rcases hcases t' hmem with hold | rfl
    · exact h.held t' hold
    · rw [hholds]
      exact List.nil_subset _
  · intro t' hmem hpass'
    rw [hops]
    exact h.own t' (hpasses t' hmem hpass') hpass'
  · intro t' hmem other hmem' hpass' hpassOther
    exact h.apart t' (hpasses t' hmem hpass') other (hpasses other hmem' hpassOther) hpass'
      hpassOther

/-- A task has a new state. -/
theorem seat (h : r.Tokened issued agents) (hmem : t ∈ r.tasks) (hbecomes : t.Becomes t')
    (hholds : t'.holds ⊆ agents) : (r.seat t').Tokened issued agents := by
  refine h.follow (fun _ hentry => .inl hentry) fun other' hmem' => ?_
  obtain ⟨other, hother, rfl⟩ := List.mem_map.1 hmem'
  split
  · exact ⟨t, hmem, hbecomes, hholds, fun _ => .inr fun _ _ _ => rfl⟩
  · exact ⟨other, hother, .refl other, h.held other hother, fun _ => .inr fun _ _ _ => rfl⟩

/-! ### Cancelations -/

/-- What a cancelation of a token has to tell, if that is the token of a pass. -/
theorem answer (h : r.Tokened issued agents) (hmem : t ∈ r.tasks) (hpass : t.job.isPass = true)
    {token : OpToken} (htoken : t.token = some token) (hrunning : t.canceled ≠ true) :
    (r.ops.cancel token).1 = some (.task t.number) := by
  obtain ⟨key, hkey, -, -, hlast⟩ := h.own t hmem hpass
  obtain rfl := Option.some.inj (hkey.symm.trans htoken)
  rw [(r.ops.cancel_tells key).1, hlast.resolve_left hrunning]
  rfl

theorem cancel (h : r.Tokened issued agents) (token : OpToken) :
    (r.cancel token).Tokened issued agents := by
  have hspares : r.ops.Spares [token] (r.ops.cancel token).2 :=
    .cancel (List.mem_singleton_self token)
  -- a pass that is not told has another token, so its operation stays
  have hkept : ∀ t' ∈ r.tasks, t'.job.isPass = true →
      (r.ops.cancel token).1 ≠ some (.task t'.number) →
      t'.canceled = true ∨ ∀ key, t'.token = some key → key ∉ agents →
        (r.ops.cancel token).2.get? key = r.ops.get? key := by
    intro t' hmem hpass hnot
    by_cases hcanceled : t'.canceled = true
    · exact .inl hcanceled
    · refine .inr fun key hkey _ => hspares key fun hsame => hnot ?_
      obtain rfl := List.mem_singleton.1 hsame
      exact h.answer hmem hpass hkey hcanceled
  -- nobody is told
  have hsame : (∀ t' ∈ r.tasks, (r.ops.cancel token).1 ≠ some (.task t'.number)) →
      ({ r with ops := (r.ops.cancel token).2 } : Roster).Tokened issued agents := fun hnot =>
    h.follow (fun _ hentry => .inl hentry) fun t' hmem =>
      ⟨t', hmem, .refl t', h.held t' hmem, fun hpass => hkept t' hmem hpass (hnot t' hmem)⟩
  unfold Roster.cancel
  split
  · rename_i number hanswer
    split
    · rename_i t hfind
      have hmem : t ∈ r.tasks := List.mem_of_find?_eq_some hfind
      have hnumber : t.number = number := by simpa using List.find?_some hfind
      have hcanceled : ({ r with ops := (r.ops.cancel token).2 }.seat
          { t with canceled := true, agentToken := none }).Tokened issued agents := by
        refine h.follow (fun _ hentry => .inl hentry) fun other' hmem' => ?_
        obtain ⟨other, hother, rfl⟩ := List.mem_map.1 hmem'
        split
        · refine ⟨t, hmem, ⟨rfl, rfl, rfl, fun _ => rfl⟩, ?_, fun _ => .inl rfl⟩
          exact List.Subset.trans (List.subset_append_right _ _) (h.held t hmem)
        · rename_i hne
          refine ⟨other, hother, .refl other, h.held other hother, fun hpass => ?_⟩
          refine hkept other hother hpass fun htold => hne ?_
          rw [hanswer] at htold
          exact ((Watcher.task.inj (Option.some.inj htold)).symm.trans hnumber.symm)
      cases hagent : t.agentToken with
      | none => exact hcanceled
      | some agentToken =>
        have hheld : agentToken ∈ agents :=
          h.held t hmem (List.mem_append_left _ (by rw [hagent]; exact List.mem_singleton_self _))
        exact hcanceled.congr rfl (fun _ hmem => hmem) (.cancel hheld)
    · rename_i hnone
      refine hsame fun t' hmem htold => List.find?_eq_none.1 hnone t' hmem ?_
      rw [hanswer] at htold
      simpa using (Watcher.task.inj (Option.some.inj htold)).symm
  · rename_i package hanswer
    refine hsame fun t' _ htold => ?_
    rw [hanswer] at htold
    cases htold
  · rename_i hanswer
    refine hsame fun t' _ htold => ?_
    rw [hanswer] at htold
    cases htold

theorem cancels (tokens : List OpToken) (h : r.Tokened issued agents) :
    (tokens.foldl Roster.cancel r).Tokened issued agents := by
  induction tokens generalizing r with
  | nil => exact h
  | cons token rest ih => exact ih (h.cancel token)

/-! ### Events -/

/-- A transport that asked for it is marked for wiping. -/
theorem mind (h : r.Tokened issued agents) (t : Task) : (r.mind t).Tokened issued agents := by
  unfold Roster.mind Roster.heed
  split
  · split
    · exact h.congr rfl (fun _ hmem => hmem) (.refl _ _)
    · exact h
  · exact h

/-- A pass is over. The others have other tokens. -/
theorem depart (h : r.Tokened issued agents) (hmem : t ∈ r.tasks) (hpass : t.job.isPass = true) :
    ((r.forget t.token).drop t.number).Tokened issued agents := by
  obtain ⟨key, hkey, -⟩ := h.own t hmem hpass
  have hspares : r.ops.Spares [key] (r.ops.remove key) :=
    Spares.of_tells (r.ops.remove_tells key) (List.mem_singleton_self key)
  rw [hkey]
  refine h.follow (fun _ hentry => .inl hentry) fun other hother => ?_
  obtain ⟨hother, hne⟩ := List.mem_filter.1 hother
  refine ⟨other, hother, .refl other, h.held other hother, fun hpass' => .inr ?_⟩
  intro other_key hkey' _
  refine hspares other_key fun hsame => ?_
  obtain rfl := List.mem_singleton.1 hsame
  have hnumber := h.apart other hother t hmem hpass' hpass (hkey'.trans hkey.symm)
  simp [hnumber] at hne

end Tokened

theorem cancel_tokens (r : Roster) (token : OpToken) : (r.cancel token).tokens = r.tokens := by
  rcases r.cancel_cases token with ⟨ops, heq⟩ | ⟨ops, t, -, heq⟩
  · rw [heq]
  · rw [heq]
    rfl

theorem cancels_tokens (tokens : List OpToken) (r : Roster) :
    (tokens.foldl cancel r).tokens = r.tokens := by
  induction tokens generalizing r with
  | nil => rfl
  | cons token rest ih => rw [List.foldl_cons, ih, cancel_tokens]

theorem mind_tokens (r : Roster) (t : Task) : (r.mind t).tokens = r.tokens := by
  unfold mind heed
  split
  · split <;> rfl
  · rfl

theorem forget_tokens (r : Roster) (token : Option OpToken) :
    (r.forget token).tokens = r.tokens := by
  obtain ⟨ops, heq⟩ := r.forget_eq token
  rw [heq]

/-- The next tokens, after an event in which one was issued or none. -/
def after (r : Roster) : Option OpToken → TokenSource
  | some _ => r.issue.tokens
  | none => r.tokens

/-- The tokens that come after a deed. -/
theorem Deed.issues {dealing : Dealing} (hdeed : r.Deed dealing r') :
    r'.tokens = r.after dealing.issued? := by
  cases hdeed with
  | idles _ _ | registers _ | marks _ _ | unregisters _ | posts _ _ _ | reorders _ | hears _ _
  | enters _ _ _ _ _ | begins _ _ _ _ _ => rfl
  | cancels tokens _ => exact cancels_tokens tokens _

theorem Turn.issues {new : Option OpToken} (hturn : r.Turn t new r') :
    r'.tokens = r.after new := by
  cases hturn with
  | stays | goes _ _ _ _ | prepares _ _ _ _ | starts _ _ _ _ _ _ _ | quits _ _ => rfl
  | @heeds t' token _ _ _ _ _ => exact r.cancel_tokens token
  | settles _ _ _ hsettles => cases hsettles <;> rfl
  | closes _ _ _ _ => exact mind_tokens _ _
  | departs _ => exact r.forget_tokens t.token

/-- **A deed keeps the tokens of passes and agents apart.** -/
theorem Deed.tokened {dealing : Dealing} (hdeed : r.Deed dealing r')
    (h : r.Tokened issued agents) (hnew : ∀ token ∈ dealing.issued?, token ∉ issued)
    (hheard : ∀ token, dealing = .hears token → token ∈ agents) :
    r'.Tokened (issued ++ dealing.issued?.toList) agents := by
  have hissued : issued ++ (none : Option OpToken).toList = issued := List.append_nil _
  cases hdeed with
  | idles _ _ | registers _ | marks _ _ | unregisters _ | posts _ _ _ =>
    rw [Dealing.issued?, hissued]
    exact h.congr rfl (fun _ hmem => hmem) (.refl _ _)
  | reorders hperm =>
    rw [Dealing.issued?, hissued]
    exact h.congr rfl (fun _ hmem => hperm.mem_iff.1 hmem) (.refl _ _)
  | cancels tokens hspares =>
    rw [Dealing.issued?, hissued]
    refine Tokened.cancels tokens (h.congr rfl (fun _ hmem => hmem) fun token _ => ?_)
    exact hspares token List.not_mem_nil
  | hears token result =>
    rw [Dealing.issued?, hissued]
    exact h.congr rfl (fun _ hmem => hmem) (.complete result (hheard token rfl))
  | begins hpass _ htoken _ hholds =>
    exact h.begins (hnew _ rfl) htoken hholds hpass rfl rfl rfl
  | enters hpass _ hholds _ _ =>
    rw [Dealing.issued?, hissued]
    exact h.enters hpass hholds rfl rfl rfl

/-- **A step of a task keeps them apart.** Whoever gets a token in it is an agent. -/
theorem Turn.tokened {new : Option OpToken} (hturn : r.Turn t new r') (h : r.Tokened issued agents)
    (hnumbers : (r.tasks.map (·.number)).Nodup) (hmem : t ∈ r.tasks)
    (hnew : ∀ token ∈ new, token ∉ issued) :
    r'.Tokened (issued ++ new.toList) (agents ++ new.toList) := by
  have hheld := h.held t hmem
  have hnone : ∀ tokens : List OpToken, tokens ++ (none : Option OpToken).toList = tokens :=
    List.append_nil
  cases hturn with
  | stays =>
    rw [hnone, hnone]
    exact h
  | goes hcontinues hholds _ hspares =>
    rw [hnone, hnone]
    refine Tokened.seat (h.congr rfl (fun _ hmem => hmem) fun token hother => ?_) hmem
      hcontinues.becomes (List.Subset.trans hholds hheld)
    exact hspares token fun hmem => hother (hheld hmem)
  | @prepares t' ops token hcontinues hholds _ hspares =>
    have hgrown := h.grow (hnew _ rfl)
    have hself : [token] ⊆ agents ++ [token] := List.subset_append_right _ _
    refine Tokened.seat (hgrown.congr rfl (fun _ hmem => hmem) fun key hother => ?_) hmem
      hcontinues.becomes (List.Subset.trans hholds hself)
    exact hspares key fun hmem => hother (hself hmem)
  | @heeds t' token hcanceled hcontinues hholds _ _ =>
    rw [hnone, hnone]
    obtain ⟨told, htold, hsame⟩ := mem_cancel hnumbers hmem token
    refine (h.cancel token).seat htold ?_ (List.Subset.trans hholds hheld)
    have hcanceled' : t'.canceled = true := hcontinues.canceled.trans hcanceled
    rcases hsame with rfl | rfl
    · exact hcontinues.becomes
    · exact ⟨hcontinues.number, hcontinues.token, hcontinues.pass, fun _ => hcanceled'⟩
  | starts _ hcontinues hholds _ hspares hhanded _ =>
    rw [hnone, hnone]
    refine Tokened.seat (h.follow (fun entry hentry => ?_) fun t' hmem' => ?_) hmem
      hcontinues.becomes (List.Subset.trans hholds hheld)
    · exact (hhanded entry hentry).imp_right fun hown => hheld hown
    · refine ⟨t', hmem', .refl t', h.held t' hmem', fun _ => .inr fun key _ hother => ?_⟩
      exact hspares key fun hmem => hother (hheld hmem)
  | @settles t' r₁ name hcontinues hholds _ hsettles =>
    rw [hnone, hnone]
    -- what is done with the transport concerns neither tokens nor tasks
    have hsame : r₁.Tokened issued agents ∧ r₁.tasks = r.tasks := by
      cases hsettles with
      | gone _ => exact ⟨h, rfl⟩
      | wiped | later => exact ⟨h.congr rfl (fun _ hmem => hmem) (.refl _ _), rfl⟩
    exact hsame.1.seat (hsame.2 ▸ hmem) hcontinues.becomes (List.Subset.trans hholds hheld)
  | @closes asked t' ops k _ hcontinues hholds hspares =>
    rw [hnone, hnone]
    have htokened : ({ r with ops, nextNumber := r.nextNumber + k } : Roster).Tokened issued
        agents := h.congr rfl (fun _ hmem => hmem) fun token hother =>
      hspares token fun hmem => hother (hheld hmem)
    refine (htokened.mind asked).seat ?_ hcontinues.becomes (List.Subset.trans hholds hheld)
    rw [mind_tasks]
    exact hmem
  | departs hpass =>
    rw [hnone, hnone]
    exact h.depart hmem hpass
  | quits hpass _ =>
    rw [hnone, hnone]
    exact h.congr rfl (fun _ hmem => (List.mem_filter.1 hmem).1) (.refl _ _)

/-! ## Canceled tasks -/

/-- A number was handed out, and if it is that of a task, that task is canceled. -/
structure Stopped (r : Roster) (number : Nat) : Prop where
  below : number < r.nextNumber
  canceled : ∀ t ∈ r.tasks, t.number = number → t.canceled = true

namespace Stopped

variable {number : Nat}

/-- Every task of the number was there before, and it is canceled if it was so. -/
theorem follow (h : r.Stopped number) (hnext : r.nextNumber ≤ r'.nextNumber)
    (htasks : ∀ t' ∈ r'.tasks, t'.number = number →
      ∃ t ∈ r.tasks, t.number = number ∧ (t.canceled = true → t'.canceled = true)) :
    r'.Stopped number where
  below := Nat.lt_of_lt_of_le h.below hnext
  canceled t' hmem hnumber := by
    obtain ⟨t, ht, hsame, hkept⟩ := htasks t' hmem hnumber
    exact hkept (h.canceled t ht hsame)

theorem congr (h : r.Stopped number) (hnext : r.nextNumber ≤ r'.nextNumber)
    (htasks : ∀ t ∈ r'.tasks, t ∈ r.tasks) : r'.Stopped number :=
  h.follow hnext fun t hmem hnumber => ⟨t, htasks t hmem, hnumber, id⟩

theorem seat (h : r.Stopped number) (hmem : t ∈ r.tasks) (hbecomes : t.Becomes t') :
    (r.seat t').Stopped number := by
  refine h.follow (Nat.le_refl _) fun other' hmem' hnumber => ?_
  obtain ⟨other, hother, rfl⟩ := List.mem_map.1 hmem'
  split at hnumber <;> rename_i hsame
  · refine ⟨t, hmem, hbecomes.number.symm.trans hnumber, ?_⟩
    rw [if_pos hsame]
    exact hbecomes.canceled
  · refine ⟨other, hother, hnumber, ?_⟩
    rw [if_neg hsame]
    exact id

/-- A task begins, under a number that was not handed out before. -/
theorem enter (h : r.Stopped number) {tasks : List Task} (hnext : r.nextNumber ≤ r'.nextNumber)
    (htasks : r'.tasks = tasks ++ [t]) (hold : ∀ t ∈ tasks, t ∈ r.tasks)
    (hnumber : r.nextNumber ≤ t.number) : r'.Stopped number := by
  refine h.follow hnext fun t' hmem hsame => ?_
  rw [htasks] at hmem
  rcases List.mem_append.1 hmem with hmem | hmem
  · exact ⟨t', hold t' hmem, hsame, id⟩
  · obtain rfl := List.mem_singleton.1 hmem
    have hbelow := h.below
    omega

theorem cancel (h : r.Stopped number) (token : OpToken) : (r.cancel token).Stopped number := by
  rcases r.cancel_cases token with ⟨ops, heq⟩ | ⟨ops, t, hmem, heq⟩
  · rw [heq]
    exact h.congr (Nat.le_refl _) fun _ hmem => hmem
  · rw [heq]
    exact Stopped.seat (h.congr (Nat.le_refl _) fun _ hmem => hmem) hmem
      ⟨rfl, rfl, rfl, fun _ => rfl⟩

theorem mind (h : r.Stopped number) (t : Task) : (r.mind t).Stopped number := by
  refine h.congr ?_ fun _ hmem => by rwa [mind_tasks] at hmem
  unfold Roster.mind Roster.heed
  split
  · split
    · exact Nat.le_succ _
    · exact Nat.le_refl _
  · exact Nat.le_refl _

theorem cancels (tokens : List OpToken) (h : r.Stopped number) :
    (tokens.foldl Roster.cancel r).Stopped number := by
  induction tokens generalizing r with
  | nil => exact h
  | cons token rest ih => exact ih (h.cancel token)

end Stopped

theorem Deed.stopped {dealing : Dealing} {number : Nat} (hdeed : r.Deed dealing r')
    (h : r.Stopped number) : r'.Stopped number := by
  cases hdeed with
  | idles _ _ => exact h.congr (Nat.le_add_right _ _) fun _ hmem => hmem
  | reorders hperm => exact h.congr (Nat.le_refl _) fun _ hmem => hperm.mem_iff.1 hmem
  | cancels tokens _ => exact Stopped.cancels tokens (h.congr (Nat.le_refl _) fun _ hmem => hmem)
  | hears _ _ | registers _ | unregisters _ | posts _ _ _ =>
    exact h.congr (Nat.le_refl _) fun _ hmem => hmem
  | begins _ hnumber _ _ _ =>
    exact h.enter (Nat.le_succ _) rfl (fun _ hmem => hmem) (Nat.le_of_eq hnumber.symm)
  | @enters t k _ _ _ hnumber _ _ _ =>
    refine h.enter (Nat.le_succ_of_le (Nat.le_add_right _ _)) rfl (fun _ hmem => hmem) ?_
    rw [hnumber]
    exact Nat.le_add_right _ _
  | marks _ _ => exact h.congr (Nat.le_succ _) fun _ hmem => hmem

theorem Turn.stopped {new : Option OpToken} {number : Nat} (hturn : r.Turn t new r')
    (hnumbers : (r.tasks.map (·.number)).Nodup) (hmem : t ∈ r.tasks) (h : r.Stopped number) :
    r'.Stopped number := by
  cases hturn with
  | stays => exact h
  | goes hcontinues _ _ _ =>
    exact Stopped.seat (h.congr (Nat.le_add_right _ _) fun _ hmem => hmem) hmem hcontinues.becomes
  | prepares hcontinues _ _ _ | starts _ hcontinues _ _ _ _ _ =>
    exact Stopped.seat (h.congr (Nat.le_refl _) fun _ hmem => hmem) hmem hcontinues.becomes
  | @heeds t' token hcanceled hcontinues _ _ _ =>
    obtain ⟨told, htold, hsame⟩ := mem_cancel hnumbers hmem token
    refine (h.cancel token).seat htold ?_
    have hcanceled' : t'.canceled = true := hcontinues.canceled.trans hcanceled
    rcases hsame with rfl | rfl
    · exact hcontinues.becomes
    · exact ⟨hcontinues.number, hcontinues.token, hcontinues.pass, fun _ => hcanceled'⟩
  | settles hcontinues _ _ hsettles =>
    cases hsettles with
    | gone _ => exact h.seat hmem hcontinues.becomes
    | wiped =>
      exact Stopped.seat (h.congr (Nat.le_refl _) fun _ hmem => hmem) hmem hcontinues.becomes
    | later =>
      exact Stopped.seat (h.congr (Nat.le_succ _) fun _ hmem => hmem) hmem hcontinues.becomes
  | @closes asked t' ops k _ hcontinues _ _ =>
    have hcounted : ({ r with ops, nextNumber := r.nextNumber + k } : Roster).Stopped number :=
      h.congr (Nat.le_add_right _ _) fun _ hmem => hmem
    refine (hcounted.mind asked).seat ?_ hcontinues.becomes
    rw [mind_tasks]
    exact hmem
  | departs _ =>
    obtain ⟨ops, hforget⟩ := r.forget_eq t.token
    rw [hforget]
    exact h.congr (Nat.le_refl _) fun _ hmem => (List.mem_filter.1 hmem).1
  | quits _ _ => exact h.congr (Nat.le_refl _) fun _ hmem => (List.mem_filter.1 hmem).1

/-- An agent is told to back up only in a step that was to start it, once. -/
theorem Turn.worked {new : Option OpToken} (hturn : r.Turn t new r') :
    r'.worked = r.worked ∨ ∃ v token, t.stage = .starting v token ∧ r'.worked = r.worked ++
      [Device.Notice.agent v.package.name (System.workNotice t v.mode)].filter (·.isWork) := by
  cases hturn with
  | stays | goes _ _ _ _ | prepares _ _ _ _ | quits _ _ => exact .inl rfl
  | @heeds t' token _ _ _ _ _ =>
    refine .inl ?_
    rcases r.cancel_cases token with ⟨ops, heq⟩ | ⟨ops, told, -, heq⟩ <;>
    · rw [heq]
      rfl
  | starts hstage _ _ _ _ _ hworked => exact .inr ⟨_, _, hstage, hworked⟩
  | settles _ _ _ hsettles =>
    refine .inl ?_
    cases hsettles <;> rfl
  | @closes asked t' ops k _ _ _ _ =>
    refine .inl ?_
    unfold mind heed
    split
    · split <;> rfl
    · rfl
  | departs _ =>
    obtain ⟨ops, hforget⟩ := r.forget_eq t.token
    rw [hforget]
    exact .inl rfl

/-! ## Cancelations of passes -/

theorem mem_pendingTasks {ops : OperationTable Watcher} {key : OpToken} {number : Nat}
    (h : ops.get? key = some (passOperation number)) : key ∈ ops.pendingTasks := by
  have hmem : (key, passOperation number) ∈ ops.operations := by
    obtain ⟨before, after, heq, -⟩ := List.lookup_eq_some_iff.1 h
    rw [heq]
    exact List.mem_append_right _ List.mem_cons_self
  exact List.mem_map.2 ⟨_, List.mem_filter.2 ⟨hmem, rfl⟩, rfl⟩

/-- A pass is canceled, or its operation is pending under its token and no agent works for a pass
under that token. -/
def Reachable (r : Roster) (t : Task) : Prop :=
  t.canceled = true ∨ ∃ key, t.token = some key ∧
    r.ops.get? key = some (passOperation t.number) ∧
    ∀ other ∈ r.tasks, other.agentToken ≠ some key

/-- A cancel under another token leaves a pending operation that is no agent's. -/
theorem cancel_get? {key token : OpToken} (hother : key ≠ token)
    (hagents : ∀ t ∈ r.tasks, t.agentToken ≠ some key) :
    (r.cancel token).ops.get? key = r.ops.get? key := by
  have hspares : (r.ops.cancel token).2.get? key = r.ops.get? key :=
    Spares.cancel (List.mem_singleton_self token) key (by simpa using hother)
  unfold cancel
  split
  · split
    · rename_i t hfind
      have hmem : t ∈ r.tasks := List.mem_of_find?_eq_some hfind
      cases hagent : t.agentToken with
      | none => exact hspares
      | some agentToken =>
        have hne : key ∉ [agentToken] := fun hsame =>
          hagents t hmem (by rw [hagent, List.mem_singleton.1 hsame])
        exact (Spares.cancel (List.mem_singleton_self agentToken) key hne).trans hspares
    · exact hspares
  · exact hspares
  · exact hspares

/-- A pass is canceled under its token. -/
theorem stops_pending (hnumbers : (r.tasks.map (·.number)).Nodup) (hmem : t ∈ r.tasks)
    (hbelow : t.number < r.nextNumber) {key : OpToken}
    (hpending : r.ops.get? key = some (passOperation t.number)) :
    (r.cancel key).Stopped t.number := by
  have hanswer : (r.ops.cancel key).1 = some (.task t.number) := by
    rw [(r.ops.cancel_tells key).1, hpending]
    rfl
  have hfind : r.tasks.find? (·.number == t.number) = some t := by
    cases hfind : r.tasks.find? (·.number == t.number) with
    | none => exact absurd (List.find?_eq_none.1 hfind t hmem) (by simp)
    | some other =>
      have hnumber : other.number = t.number := by simpa using List.find?_some hfind
      rw [List.inj_on_of_nodup_map hnumbers (List.mem_of_find?_eq_some hfind) hmem hnumber]
  have hstopped : ({ r with ops := (r.ops.cancel key).2 }.seat
      { t with canceled := true, agentToken := none }).Stopped t.number := by
    refine ⟨hbelow, fun other hother hnumber => ?_⟩
    obtain ⟨old, -, rfl⟩ := List.mem_map.1 hother
    split at hnumber
    · rename_i hsame
      rw [if_pos hsame]
    · rename_i hne
      exact absurd hnumber hne
  unfold cancel
  simp only [hanswer, hfind]
  cases hagent : t.agentToken with
  | none => exact hstopped
  | some agentToken => exact hstopped.congr (Nat.le_refl _) fun _ hmem => hmem

/-- Of several operations that are canceled, one is that of a pass. -/
theorem cancels_stop (tokens : List OpToken) (hnumbers : (r.tasks.map (·.number)).Nodup)
    (hmem : t ∈ r.tasks) (hbelow : t.number < r.nextNumber) {key : OpToken}
    (hpending : r.ops.get? key = some (passOperation t.number))
    (hagents : ∀ other ∈ r.tasks, other.agentToken ≠ some key) (hlisted : key ∈ tokens) :
    (tokens.foldl cancel r).Stopped t.number := by
  -- on the tokens; the operation is pending until its own turn comes
  induction tokens generalizing r t with
  | nil => exact absurd hlisted List.not_mem_nil
  | cons first rest ih =>
    by_cases hfirst : key = first
    · exact Stopped.cancels rest (hfirst ▸ stops_pending hnumbers hmem hbelow hpending)
    · have hlater : key ∈ rest := (List.mem_cons.1 hlisted).resolve_left hfirst
      have hget := (cancel_get? hfirst hagents).trans hpending
      have hagents' : ∀ other ∈ (r.cancel first).tasks, other.agentToken ≠ some key := by
        rcases r.cancel_cases first with ⟨ops, heq⟩ | ⟨ops, told, htold, heq⟩ <;> rw [heq]
        · exact hagents
        · intro other hother
          obtain ⟨old, hold, rfl⟩ := List.mem_map.1 hother
          split
          · exact fun h => by cases h
          · exact hagents old hold
      have hnext : (r.cancel first).nextNumber = r.nextNumber := by
        rcases r.cancel_cases first with ⟨ops, heq⟩ | ⟨ops, told, -, heq⟩
        · rw [heq]
        · rw [heq]
          rfl
      obtain ⟨t', hmem', hsame⟩ := mem_cancel hnumbers hmem first
      have hnumber : t'.number = t.number := by rcases hsame with rfl | rfl <;> rfl
      rw [List.foldl_cons, ← hnumber]
      rw [← hnumber] at hget hbelow
      exact ih (by rw [cancel_numbers]; exact hnumbers) hmem' (hnext ▸ hbelow) hget hagents' hlater

/-- **All passes that are reachable are canceled** with the operations that are pending. -/
theorem Reachable.stops (h : r.Reachable t) (hnumbers : (r.tasks.map (·.number)).Nodup)
    (hmem : t ∈ r.tasks) (hbelow : t.number < r.nextNumber) :
    (r.ops.pendingTasks.foldl cancel r).Stopped t.number := by
  rcases h with hcanceled | ⟨key, -, hpending, hagents⟩
  · refine Stopped.cancels _ ⟨hbelow, fun other hother hnumber => ?_⟩
    rw [List.inj_on_of_nodup_map hnumbers hother hmem hnumber]
    exact hcanceled
  · exact cancels_stop _ hnumbers hmem hbelow hpending hagents (mem_pendingTasks hpending)

/-- Passes whose tokens are kept apart from those of agents are reachable. -/
theorem Tokened.reachable (h : r.Tokened issued agents) (hmem : t ∈ r.tasks)
    (hpass : t.job.isPass = true) : r.Reachable t := by
  obtain ⟨key, hkey, -, hother, hlast⟩ := h.own t hmem hpass
  refine hlast.imp_right fun hpending => ⟨key, hkey, hpending, fun other hmem' hagent => ?_⟩
  exact hother (h.held other hmem' (List.mem_append_left _ (by
    rw [hagent]
    exact List.mem_singleton_self _)))

end Roster

/-! ## Runs -/

namespace World

variable {w : World} {issued agents : List OpToken}

/-- The tokens that are issued in a run, oldest first. -/
def issues (w : World) : List Event → List OpToken
  | [] => []
  | event :: events =>
    (if (w.happen event).system.engine.tokens.counter = w.system.engine.tokens.counter then []
      else [w.system.freshToken.1]) ++ (w.happen event).issues events

/-- In a run agents report only under tokens that they were given before. -/
def Honest (w : World) (events : List Event) : Prop :=
  ∀ before token result after, events = before ++ .call (.complete token result) :: after →
    ∃ earlier, earlier <+: before ∧
      token ∈ (w.run earlier).system.engine.handed.map (·.2)

theorem issues_append (events more : List Event) (w : World) :
    w.issues (events ++ more) = w.issues events ++ (w.run events).issues more := by
  induction events generalizing w with
  | nil => rfl
  | cons event events ih =>
    rw [List.cons_append, issues, ih, issues, List.append_assoc]
    rfl

theorem run_concat (w : World) (events : List Event) (event : Event) :
    w.run (events ++ [event]) = (w.run events).happen event := run_append _ _ _

theorem Honest.init {events : List Event} {event : Event} (h : w.Honest (events ++ [event])) :
    w.Honest events := by
  rintro before token result after rfl
  exact h before token result (after ++ [event]) (by simp)

theorem TokenSource.counter_next (source : TokenSource) (noise : UInt32) :
    (source.next noise).2.counter ≠ source.counter := by
  show source.counter + 1 ≠ source.counter
  intro heq
  simp at heq

/-- What an event issues shows in the next token. -/
theorem issues_single {event : Event} {new : Option OpToken}
    (hnew : ∀ token ∈ new, token = w.system.freshToken.1)
    (htokens : (w.happen event).system.roster.tokens = w.system.roster.after new) :
    w.issues [event] = new.toList := by
  have hcounter : (w.happen event).system.engine.tokens.counter =
      (w.system.roster.after new).counter := congrArg TokenSource.counter htokens
  unfold issues issues
  rw [List.append_nil]
  cases new with
  | none => exact if_pos hcounter
  | some token =>
    have hmoved : (w.happen event).system.engine.tokens.counter ≠
        w.system.engine.tokens.counter := fun heq =>
      TokenSource.counter_next w.system.engine.tokens w.system.engine.tokens.counter
        (hcounter.symm.trans heq)
    rw [if_neg hmoved, hnew token rfl]
    rfl

theorem happen_tokened (hs : w.Sound) (hheeded : w.system.roster.Heeded)
    (h : w.system.roster.Tokened issued agents) {event : Event}
    (hnodup : (issued ++ w.issues [event]).Nodup)
    (hheard : ∀ token result, event = .call (.complete token result) → token ∈ agents) :
    ∃ more, (w.happen event).system.roster.Tokened (issued ++ w.issues [event])
      (agents ++ more) := by
  have hfresh : ∀ {new : Option OpToken}, w.issues [event] = new.toList →
      ∀ token ∈ new, token ∉ issued := by
    rintro new hissues token ⟨⟩ hmem
    rw [hissues] at hnodup
    exact (List.nodup_append.1 hnodup).2.2 _ hmem _ (List.mem_singleton_self _) rfl
  cases happen_duty hs hheeded.timed event with
  | @deed dealing hdealing hissued hdeed =>
    have hnew : ∀ token ∈ dealing.issued?, token = w.system.freshToken.1 := by
      intro token htoken
      cases dealing with
      | nothing | hears _ => cases htoken
      | issues other =>
        obtain rfl := Option.some.inj htoken
        exact hissued other rfl
    have hissues := issues_single hnew hdeed.issues
    refine ⟨[], ?_⟩
    rw [hissues, List.append_nil]
    refine hdeed.tokened h (hfresh hissues) fun token hhears => ?_
    obtain ⟨result, hcall⟩ := hdealing token hhears
    exact hheard token result hcall
  | @turn t new hmem _ hnew hturn =>
    have hissues := issues_single hnew hturn.issues
    refine ⟨new.toList, ?_⟩
    rw [hissues]
    exact hturn.tokened h hs.task_numbers hmem (hfresh hissues)

/-- **In every run the tokens of passes are kept apart from those of agents**, if no token is issued
twice and agents report only under tokens that they were given. -/
theorem run_tokened (hs : w.Sound) (hheeded : w.system.roster.Heeded)
    (h : w.system.roster.Tokened [] []) (events : List Event) (hnodup : (w.issues events).Nodup)
    (hhonest : w.Honest events) :
    ∃ agents, (w.run events).system.roster.Tokened (w.issues events) agents ∧
      ∀ earlier, earlier <+: events →
        ∀ entry ∈ (w.run earlier).system.engine.handed, entry.2 ∈ agents := by
  -- on the events from the last one back, since what agents were given must come before
  induction events using List.reverseRecOn with
  | nil =>
    refine ⟨[], h, fun earlier hearlier => ?_⟩
    obtain rfl := List.prefix_nil.1 hearlier
    exact h.handed
  | append_singleton events event ih =>
    rw [issues_append] at hnodup
    obtain ⟨agents, htokened, hgiven⟩ := ih (List.nodup_append.1 hnodup).1 hhonest.init
    have hheard : ∀ token result, event = .call (.complete token result) → token ∈ agents := by
      rintro token result rfl
      obtain ⟨earlier, hearlier, hmem⟩ := hhonest events token result [] rfl
      obtain ⟨entry, hentry, rfl⟩ := List.mem_map.1 hmem
      exact hgiven earlier hearlier entry hentry
    obtain ⟨more, hnext⟩ := happen_tokened (run_sound events hs) (run_heeded events hs hheeded)
      htokened hnodup hheard
    rw [run_concat, issues_append]
    refine ⟨agents ++ more, hnext, fun earlier hearlier entry hentry => ?_⟩
    rcases List.prefix_concat_iff.1 hearlier with rfl | hold
    · exact hnext.handed entry (by rwa [run_concat] at hentry)
    · exact List.mem_append_left _ (hgiven earlier hold entry hentry)

theorem opened_tokened {settings : Settings} {disk : Disk} {device : Device} {s : System}
    (h : System.start settings disk device.fresh = .ok s) :
    (opened s).system.roster.Tokened [] [] := by
  rw [opened, System.start_roster h]
  exact ⟨List.Subset.refl _, fun _ hentry => absurd hentry List.not_mem_nil,
    fun _ ht => absurd ht List.not_mem_nil, fun _ ht => absurd ht List.not_mem_nil,
    fun _ ht => absurd ht List.not_mem_nil⟩

/-- **Every pass is reachable** in a run in which no token is issued twice and agents report only
under tokens that they were given. -/
theorem honest_reachable {settings : Settings} {disk : Disk} {device : Device} {s : System}
    (h : System.start settings disk device.fresh = .ok s) {events : List Event}
    (hnodup : ((opened s).issues events).Nodup) (hhonest : (opened s).Honest events) {t : Task}
    (hmem : t ∈ ((opened s).run events).system.engine.tasks) (hpass : t.job.isPass = true) :
    ((opened s).run events).system.roster.Reachable t := by
  obtain ⟨agents, htokened, -⟩ :=
    run_tokened (opened_sound h) (opened_heeded h) (opened_tokened h) events hnodup hhonest
  exact htokened.reachable hmem hpass

/-- **A cancel reaches every pass that is reachable.** -/
theorem cancelBackups_cancels (hs : w.Sound) {t : Task} (hmem : t ∈ w.system.engine.tasks)
    (h : w.system.roster.Reachable t) :
    (w.happen (.call .cancelBackups)).system.roster.Stopped t.number := by
  have hroster : (w.happen (.call .cancelBackups)).system.roster =
      w.system.engine.ops.pendingTasks.foldl Roster.cancel w.system.roster := by
    show w.system.cancelBackups.roster = _
    unfold System.cancelBackups
    simp only
    rw [System.note_roster _ rfl, System.note_roster _ rfl, System.foldl_cancelOperation_roster]
  rw [hroster]
  exact h.stops hs.task_numbers hmem (hs.below t.seat (List.mem_map_of_mem hmem))

/-- **What a canceled task does, it does canceled.** -/
theorem course_canceled (hs : w.Sound) (hheeded : w.system.roster.Heeded) {number : Nat}
    (h : w.system.roster.Stopped number) (events : List Event) :
    ∀ x ∈ w.course number events, x.task.canceled = true := by
  induction events generalizing w with
  | nil => exact fun x hx => absurd hx List.not_mem_nil
  | cons event events ih =>
    have hstopped : (w.happen event).system.roster.Stopped number := by
      cases happen_duty hs hheeded.timed event with
      | deed _ _ hdeed => exact hdeed.stopped h
      | turn hmem _ _ hturn => exact hturn.stopped hs.task_numbers hmem h
    intro x hx
    rcases List.mem_append.1 hx with hfirst | hrest
    · obtain ⟨-, -, hmem, hnumber, -⟩ := turn?_eq_some (Option.mem_toList.1 hfirst)
      exact h.canceled x.task hmem hnumber
    · exact ih (run_sound [event] hs) (run_heeded [event] hs hheeded) hstopped x hrest

end World

end Holdfast
