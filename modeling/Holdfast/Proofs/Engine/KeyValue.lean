import Holdfast.Proofs.Engine.Rounds
import Holdfast.Proofs.Utf8

/-!
# Key-value passes, end to end

- `Step.Stores`: what a step of a pass leaves in the stores;
- `Standing.stepsLeft`: how many steps a pass can still make;
- `Account`: what the steps of a pass come to, told by the fates of its packages;
- `System.Drains`: how a pass over everything pending begins;
- `World.keyValue_pass`: **what a key-value pass does, from its first step to its last**.
-/

namespace Holdfast

/-! ## Every step -/

/-- What a step leaves in the stores. A package that the transport took in it counts as processed,
unless it is the metadata, and a full backup is scheduled anew from the time of the step. -/
structure Step.Stores (x : Step) : Prop where
  processed : ∀ package, package ∈ x.after.engine.processed.packages ↔
    package ∈ x.before.engine.processed.packages ∨
      (package ≠ metadataPackage ∧ ∃ e ∈ x.backedUp, e.package = package)
  schedule : x.after.engine.schedule =
    match x.backedUp with
    | some ⟨package, .full⟩ => x.before.engine.schedule.enqueue package x.before.now
    | _ => x.before.engine.schedule

theorem Step.Makes.stores {x : Step} {c : Charter} {d : Stride} {sign : Sign}
    (h : x.Makes c d sign) : x.Stores := by
  have hstored : x.after.chronicle.processed =
        (x.before.chronicle.take x.before.now x.backedUp).processed ∧
      x.after.chronicle.schedule =
        (x.before.chronicle.take x.before.now x.backedUp).schedule := by
    rw [h.chronicle, h.taken, Chronicle.record]
    cases d.outlook <;> exact ⟨rfl, rfl⟩
  obtain ⟨hprocessed, hschedule⟩ := hstored
  constructor
  · intro package
    show package ∈ x.after.chronicle.processed ↔ _
    rw [hprocessed]
    cases x.backedUp with
    | none => simp [Chronicle.take, System.chronicle]
    | some e =>
      by_cases hmeta : e.package = metadataPackage
      · simp only [Chronicle.take, if_pos hmeta, System.chronicle]
        constructor
        · exact .inl
        · rintro (h | ⟨hne, e', he', rfl⟩)
          · exact h
          · exact absurd (Option.some.inj he' ▸ hmeta) hne
      · simp only [Chronicle.take, if_neg hmeta, System.chronicle, NameSet.mem_insert]
        constructor
        · rintro (rfl | h)
          · exact .inr ⟨hmeta, e, rfl, rfl⟩
          · exact .inl h
        · rintro (h | ⟨-, e', he', rfl⟩)
          · exact .inr h
          · exact .inl (congrArg Entry.package (Option.some.inj he')).symm
  · show x.after.chronicle.schedule = _
    rw [hschedule]
    cases x.backedUp with
    | none => rfl
    | some e =>
      obtain ⟨package, mode⟩ := e
      cases mode <;> rfl

/-- How many steps a pass can still make: at most seven for each package that is left, beside those
for the package in hand, four for the commit and one to tell its observer. -/
def Standing.stepsLeft (p : Standing) : Nat :=
  match p.stage with
  | .opening => 7 * p.entries.length + 5
  | .choosing => 7 * p.entries.length + 4
  | .queued _ _ => 7 * p.entries.length + 10
  | .binding _ _ => 7 * p.entries.length + 9
  | .prepared _ _ => 7 * p.entries.length + 8
  | .starting _ _ => 7 * p.entries.length + 7
  | .working _ _ => 7 * p.entries.length + 6
  | .calling .currentRestoreSet => 2
  | .calling call => if call.payload?.isSome then 7 * p.entries.length + 5 else 3
  | .closing _ => 1
  -- no key-value pass stands here
  | .leaving | .fallen => 0

/-- Where a pass waits for the answer to the data of a package. -/
theorem Standing.stepsLeft_call (e : Entry) (nonIncremental : Bool) (next : Standing) :
    Standing.stepsLeft { next with stage := .calling (e.call nonIncremental) } =
      7 * next.entries.length + 5 := by
  obtain ⟨package, mode⟩ := e
  cases mode <;> rfl

/-- Where a pass stands after a step, if it still does. -/
def Outlook.standing? : Outlook → Option Standing
  | .goesOn standing => some standing
  | .ends standing status => some { standing with stage := .closing status }
  | .departs _ => none

/-- A step after which a pass has fewer steps left, if it goes on at all. -/
def Outlook.Nearer (outlook : Outlook) (bound : Nat) : Prop :=
  ∀ next, outlook.standing? = some next → 0 < next.stepsLeft ∧ next.stepsLeft < bound

namespace Outlook

theorem nearer_departs (status : Status) (bound : Nat) : (departs status).Nearer bound :=
  fun _ h => by cases h

theorem nearer_ends (next : Standing) (status : Status) {bound : Nat} (h : 1 < bound) :
    (ends next status).Nearer bound := by
  rintro _ ⟨⟩
  exact ⟨Nat.one_pos, h⟩

theorem nearer_goesOn {next : Standing} {bound : Nat} (hpos : 0 < next.stepsLeft)
    (h : next.stepsLeft < bound) : (goesOn next).Nearer bound := by
  rintro _ ⟨⟩
  exact ⟨hpos, h⟩

theorem nearer_after (status : Status) {next : Standing} {bound : Nat}
    (h : 7 * next.entries.length + 4 < bound) : (after status next).Nearer bound := by
  unfold after
  split
  · exact nearer_ends _ _ (by omega)
  · exact nearer_goesOn (Nat.succ_pos _) h

end Outlook

theorem Stride.done_nearer (package : String) (status : Status) {next : Standing} {bound : Nat}
    (h : 7 * next.entries.length + 4 < bound) : (done package status next).outlook.Nearer bound :=
  Outlook.nearer_after status h

/-- A package that is chosen is not counted any more. -/
theorem Entry.chosen_nearer {e : Entry} {next : Standing} {bound : Nat}
    (h : 7 * next.entries.length + 10 < bound) (nonIncremental : Bool) (listed : Option Package)
    (ticket : Nat) : (e.chosen nonIncremental listed ticket next).outlook.Nearer bound := by
  unfold Entry.chosen
  split
  · refine Outlook.nearer_goesOn ?_ ?_ <;> rw [Standing.stepsLeft_call] <;> omega
  · have hdone : 7 * next.entries.length + 4 < bound := by omega
    split
    · exact Stride.done_nearer _ _ hdone
    · split
      · exact Outlook.nearer_goesOn (Nat.succ_pos _) h
      · exact Stride.done_nearer _ _ hdone

/-- **Every step of a pass makes a stride and brings it nearer to its end.** -/
theorem Step.From.strides {x : Step} {c : Charter} {p : Standing} (h : x.From (c.seat p))
    (hleft : 0 < p.stepsLeft) : ∃ d sign, x.Makes c d sign ∧ d.outlook.Nearer p.stepsLeft := by
  cases hstage : p.stage with
  | opening =>
    refine ⟨_, _, h.makes_opening hstage, ?_⟩
    simp only [Standing.stepsLeft, hstage]
    split
    -- the transport waits for a wipe, or the pass goes on
    · exact Outlook.nearer_ends _ _ (by omega)
    · exact Outlook.nearer_goesOn (Nat.succ_pos _) (Nat.lt_succ_self _)
  | choosing =>
    simp only [Standing.stepsLeft, hstage]
    cases hentries : p.entries with
    | nil =>
      refine ⟨_, _, h.makes_commit hstage hentries, Outlook.nearer_goesOn ?_ ?_⟩ <;>
        simp [Standing.stepsLeft, TransportCall.payload?]
    | cons e rest =>
      cases hcanceled : x.task.canceled with
      | true =>
        exact ⟨_, _, h.makes_canceled hstage (by simp [hentries]) hcanceled,
          Outlook.nearer_ends _ _ (by omega)⟩
      | false =>
        refine ⟨_, _, h.makes_choosing hstage hentries hcanceled, Entry.chosen_nearer ?_ _ _ _⟩
        rw [Standing.rest_entries hentries, List.length_cons]
        omega
  | queued v ticket =>
    refine ⟨_, _, h.makes_queued hstage, ?_⟩
    simp only [Standing.stepsLeft, hstage]
    split
    · exact Outlook.nearer_goesOn (Nat.succ_pos _) (Nat.lt_succ_self _)
    · exact Stride.done_nearer _ _ (by omega)
  | binding v ticket =>
    simp only [Standing.stepsLeft, hstage]
    rcases h.makes_binding hstage with ⟨token, hmakes⟩ | hmakes
    · exact ⟨_, _, hmakes, Outlook.nearer_goesOn (Nat.succ_pos _) (Nat.lt_succ_self _)⟩
    · exact ⟨_, _, hmakes, Stride.done_nearer _ _ (by omega)⟩
  | prepared v token =>
    refine ⟨_, _, h.makes_prepared hstage, ?_⟩
    simp only [Standing.stepsLeft, hstage]
    cases x.task.canceled with
    | true => exact Outlook.nearer_goesOn (Nat.succ_pos _) (Nat.lt_succ_of_lt (Nat.lt_succ_self _))
    | false => exact Outlook.nearer_goesOn (Nat.succ_pos _) (Nat.lt_succ_self _)
  | starting v token =>
    refine ⟨_, _, h.makes_starting hstage, Outlook.nearer_goesOn (Nat.succ_pos _) ?_⟩
    simp only [Standing.stepsLeft, hstage]
    exact Nat.lt_succ_self _
  | working v token =>
    simp only [Standing.stepsLeft, hstage]
    -- the work was acknowledged; or else it failed, or the pass was canceled
    rcases h.makes_working hstage with hmakes | ⟨-, hmakes⟩ | ⟨-, hmakes⟩
    · refine ⟨_, _, hmakes, Outlook.nearer_goesOn ?_ ?_⟩ <;> rw [Standing.stepsLeft_call] <;>
        omega
    · exact ⟨_, _, hmakes, Stride.done_nearer _ _ (by omega)⟩
    · exact ⟨_, _, hmakes, Stride.done_nearer _ _ (by omega)⟩
  | calling call =>
    by_cases hcall : call = .currentRestoreSet
    · subst hcall
      refine ⟨_, _, h.makes_dataset hstage, Outlook.nearer_ends _ _ ?_⟩
      simp [Standing.stepsLeft, hstage]
    · obtain ⟨reply, hmakes⟩ := h.makes_calling hstage hcall
      refine ⟨_, _, hmakes, ?_⟩
      -- the answer is to an offer, or to the commit
      have hcount : p.stepsLeft =
          if call.payload?.isSome then 7 * p.entries.length + 5 else 3 := by
        unfold Standing.stepsLeft
        rw [hstage]
        cases call <;> first | rfl | exact absurd rfl hcall
      rw [hcount]
      cases call.payload? with
      | none =>
        simp only
        split
        · exact Outlook.nearer_goesOn (Nat.succ_pos _) (by simp [Standing.stepsLeft])
        · exact Outlook.nearer_ends _ _ (by simp)
      | some e => exact Outlook.nearer_after _ (by simp)
  | closing status =>
    exact ⟨_, _, h.makes_closing hstage, Outlook.nearer_departs _ _⟩
  | leaving | fallen => simp [Standing.stepsLeft, hstage] at hleft

/-- A step takes a pass to the next place where it stands, or to its end. -/
theorem Course.onward {c : Charter} {p : Standing} {x : Step} {steps : List Step}
    {final : Option Seat} (h : Course (c.seat p) (x :: steps) final) {d : Stride} {sign : Sign}
    (hmakes : x.Makes c d sign) :
    match d.outlook.standing? with
    | some next => Course (c.seat next) steps final
    | none => steps = [] ∧ final = none := by
  cases houtlook : d.outlook with
  | goesOn next => exact h.goesOn hmakes houtlook
  | ends next status => exact h.announced hmakes houtlook
  | departs status => exact h.ended hmakes houtlook

/-- A pass comes to its end: it makes at most so many steps, and fewer as long as it runs. -/
theorem Course.bounded {c : Charter} {p : Standing} {steps : List Step} {final : Option Seat}
    (h : Course (c.seat p) steps final) (hleft : 0 < p.stepsLeft) :
    (∀ x ∈ steps, x.Stores) ∧ (final.isSome → steps.length < p.stepsLeft) := by
  -- on the steps; the standing is that before the first of them
  induction steps generalizing p with
  | nil => exact ⟨by simp, fun _ => hleft⟩
  | cons x steps ih =>
    obtain ⟨d, sign, hmakes, hnearer⟩ := h.from_head.strides hleft
    have honward := h.onward hmakes
    rw [List.forall_mem_cons, and_assoc]
    refine ⟨hmakes.stores, ?_⟩
    cases hstanding : d.outlook.standing? with
    | some next =>
      rw [hstanding] at honward
      obtain ⟨hpos, hnext⟩ := hnearer next hstanding
      obtain ⟨hstores, hlength⟩ := ih honward hpos
      refine ⟨hstores, fun hfinal => ?_⟩
      have hshort := hlength hfinal
      rw [List.length_cons]
      omega
    | none =>
      rw [hstanding] at honward
      obtain ⟨rfl, rfl⟩ := honward
      exact ⟨by simp, fun hfinal => by cases hfinal⟩

/-! ## Whole passes -/

/-- The fates of the packages that a pass has taken, one for each round. -/
def fatesOf (entries : List Entry) (rounds : List (List Step)) : List Fate :=
  (entries.zip rounds).map fun pair => Fate.of pair.1 pair.2

/-- What the steps of a pass come to, up to the one that announces its end, told by the fates of its
packages, by the calls of its commit and by its status. -/
structure Account (c : Charter) (fates : List Fate) (commit : List TransportCall) (status : Status)
    (steps : List Step) : Prop where
  /-- The transport is called for every package that it is offered, in order, and for the commit. -/
  calls : steps.flatMap Step.calls =
    (fates.flatMap (·.calls c.nonIncremental) ++ commit).map (c.transport, ·)
  /-- The observer is told the result of every package, in order. -/
  told : steps.flatMap Step.told =
    fates.flatMap fun f => System.resultNotice c.observer f.entry.package f.status
  /-- The transport takes the packages that succeed. -/
  backedUp : steps.filterMap Step.backedUp =
    (fates.filter fun f => f.status = .success).map (·.entry)
  /-- What was drained for the pass is out until the last of these steps. -/
  settles : Settles c steps (some status)

/-- How a pass comes to its end. -/
inductive Conclusion (entries : List Entry) (fates : List Fate) :
    List Step → List TransportCall → Status → Prop where
  /-- Every package was taken, and what was sent is committed. The pass waits for the answers to the
  calls of its commit. -/
  | commit {x y : Step} {asks : List Step} {reply : Device.Reply} :
    fates.map (·.entry) = entries → (∀ f ∈ fates, f.status.endsPass = false) →
    x.task.stage = .choosing → y.task.stage = .calling .finishBackup → y.sign = .replied reply →
    asks.map (·.task.stage) = (y.before.datasetCalls reply).map .calling →
    Conclusion entries fates (x :: y :: asks) (.finishBackup :: y.before.datasetCalls reply)
      (System.commitStatus reply)
  /-- The result of the last package that was taken has ended the pass. -/
  | breakOff {f : Fate} :
    fates.map (·.entry) <+: entries → (∀ f ∈ fates.dropLast, f.status.endsPass = false) →
    fates.getLast? = some f → f.status.endsPass = true → Conclusion entries fates [] [] f.status
  /-- The pass was canceled between two packages. -/
  | cancel {x : Step} :
    fates.map (·.entry) <+: entries → (∀ f ∈ fates, f.status.endsPass = false) →
    x.task.canceled = true → Conclusion entries fates [x] [] .cancelled

namespace Account

variable {c : Charter} {e : Entry} {round steps : List Step} {fates : List Fate}
  {commit : List TransportCall} {status : Status}

/-- A package is done, and the pass takes the next one. -/
theorem next (hround : Round c e round) (hgoes : (Fate.of e round).status.endsPass = false)
    (h : Account c fates commit status steps) (hsteps : steps ≠ []) :
    Account c (Fate.of e round :: fates) commit status (round ++ steps) where
  calls := by
    rw [List.flatMap_append, hround.handled.calls, h.calls, List.flatMap_cons, ← List.map_append,
      List.append_assoc]
    rfl
  told := by
    rw [List.flatMap_append, hround.handled.told, h.told, List.flatMap_cons]
    rfl
  backedUp := by
    rw [List.filterMap_append, hround.handled.taken, h.backedUp, List.filter_cons]
    by_cases hsuccess : (Fate.of e round).status = .success
    · simp only [hsuccess, if_true]
      rfl
    · simp [hsuccess]
  settles := by
    have hsettles := hround.handled.settles
    rw [hgoes] at hsettles
    exact hsettles.append hsteps h.settles

/-- The result of a package ends the pass. -/
theorem breakOff (hround : Round c e round) (hends : (Fate.of e round).status.endsPass = true) :
    Account c [Fate.of e round] [] (Fate.of e round).status round where
  calls := by
    rw [hround.handled.calls, List.flatMap_singleton, List.append_nil]
    rfl
  told := by
    rw [hround.handled.told, List.flatMap_singleton]
    rfl
  backedUp := by
    have hne : (Fate.of e round).status ≠ .success := by
      intro hsuccess
      rw [hsuccess] at hends
      cases hends
    rw [hround.handled.taken, if_neg hne]
    simp [hne]
  settles := by
    have hsettles := hround.handled.settles
    rwa [if_pos hends] at hsettles

/-- The pass announces its end at once. -/
theorem announces {x : Step} {next : Standing} {sign : Sign}
    (hx : x.Makes c { outlook := .ends next status } sign) : Account c [] [] status [x] where
  calls := by
    rw [List.flatMap_singleton, hx.calls]
    rfl
  told := by
    rw [List.flatMap_singleton, hx.told]
    rfl
  backedUp := by
    have hx' : x.backedUp = none := hx.taken
    rw [List.filterMap_cons, hx']
    rfl
  settles := .single hx.closes

/-- A call of the commit ahead. -/
theorem asks {x : Step} {call : TransportCall} {next : Standing} {sign : Sign}
    (h : Account c [] commit status steps) (hsteps : steps ≠ [])
    (hx : x.Makes c { calls := [call], outlook := .goesOn next } sign) :
    Account c [] (call :: commit) status (x :: steps) where
  calls := by
    rw [List.flatMap_cons, hx.calls, h.calls]
    rfl
  told := by
    rw [List.flatMap_cons, hx.told, h.told]
    rfl
  backedUp := by
    have hx' : x.backedUp = none := hx.taken
    rw [List.filterMap_cons, hx', h.backedUp]
  settles := .cons hx.closes hsteps h.settles

end Account

/-- A conclusion is still one if there is a package ahead that did not end the pass. -/
theorem Conclusion.next {entries : List Entry} {fates : List Fate} {closing : List Step}
    {commit : List TransportCall} {status : Status}
    (h : Conclusion entries fates closing commit status) {f : Fate}
    (hgoes : f.status.endsPass = false) :
    Conclusion (f.entry :: entries) (f :: fates) closing commit status := by
  have hcons : ∀ {fates : List Fate}, (∀ g ∈ fates, g.status.endsPass = false) →
      ∀ g ∈ f :: fates, g.status.endsPass = false := by
    intro fates h g hg
    rcases List.mem_cons.1 hg with rfl | hg
    · exact hgoes
    · exact h g hg
  cases h with
  | commit hentries hall hchoosing hstage hsign hasks =>
    exact .commit (by rw [List.map_cons, hentries]) (hcons hall) hchoosing hstage hsign hasks
  | breakOff hprefix hall hlast hends =>
    have hne : fates ≠ [] := by
      rintro rfl
      cases hlast
    refine .breakOff (List.cons_prefix_cons.2 ⟨rfl, hprefix⟩) ?_ ?_ hends
    · rw [List.dropLast_cons_of_ne_nil hne]
      exact hcons hall
    · rw [List.getLast?_cons_of_ne_nil hne, hlast]
  | cancel hprefix hall hcanceled =>
    exact .cancel (List.cons_prefix_cons.2 ⟨rfl, hprefix⟩) (hcons hall) hcanceled

namespace Handles

variable {c : Charter} {entries : List Entry} {rounds : List (List Step)} {closing : List Step}
  {status : Status}

theorem steps_ne_nil (h : Handles c entries rounds closing status) :
    rounds.flatten ++ closing ≠ [] := by
  have hround : ∀ {e round}, Round c e round → round ≠ [] := by
    rintro e round hround rfl
    obtain ⟨x, tail, hnil, -, -⟩ := hround.chooses
    cases hnil
  cases h with
  | commit _ _ _ _ _ => simp
  | commitFirst _ _ _ _ _ _ _ => simp
  | cancel _ _ _ => simp
  | breakOff h _ => simpa using hround h
  | next h _ _ => simp [hround h]

/-- **The rounds of a pass add up.** -/
theorem account (h : Handles c entries rounds closing status) :
    ∃ commit, Account c (fatesOf entries rounds) commit status (rounds.flatten ++ closing) ∧
      Conclusion entries (fatesOf entries rounds) closing commit status := by
  -- from the end of the pass to its beginning, round by round
  induction h with
  | @commit x y _ _ reply hchoosing hx hstage hwants hy =>
    have hcalls : y.before.datasetCalls reply = [] := by
      rw [System.datasetCalls_eq, if_neg (by simp [hwants])]
    have hconcludes := @Conclusion.commit [] [] x y [] reply rfl (by simp) hchoosing hstage hy.sign
      (by rw [hcalls]; rfl)
    rw [hcalls] at hconcludes
    exact ⟨_, (Account.announces hy).asks (by simp) hx, hconcludes⟩
  | @commitFirst x y z _ _ _ reply hchoosing hx hstage hwants hy hasked hz =>
    have hcalls : y.before.datasetCalls reply = [.currentRestoreSet] := by
      rw [System.datasetCalls_eq, if_pos hwants]
    have hconcludes := @Conclusion.commit [] [] x y [z] reply rfl (by simp) hchoosing hstage hy.sign
      (by rw [hcalls, List.map_singleton, hasked]; rfl)
    rw [hcalls, ((y.before.wantsDataset_iff reply).1 hwants).1] at hconcludes
    exact ⟨_, ((Account.announces hz).asks (by simp) hy).asks (by simp) hx, hconcludes⟩
  | cancel _ hcanceled hx =>
    exact ⟨_, .announces hx, .cancel (List.nil_prefix) (by simp [fatesOf]) hcanceled⟩
  | @breakOff e entries round hround hends =>
    have hfates : fatesOf (e :: entries) [round] = [Fate.of e round] := by simp [fatesOf]
    rw [hfates]
    refine ⟨[], by simpa using Account.breakOff hround hends, .breakOff ?_ (by simp) rfl hends⟩
    exact List.prefix_append [e] entries
  | @next e entries round closing rounds status hround hgoes hhandles ih =>
    obtain ⟨commit, haccount, hconclusion⟩ := ih
    have hfates : fatesOf (e :: entries) (round :: rounds) =
        Fate.of e round :: fatesOf entries rounds := rfl
    rw [hfates, List.flatten_cons, List.append_assoc]
    exact ⟨commit, haccount.next hround hgoes hhandles.steps_ne_nil, hconclusion.next hgoes⟩

/-- Every package that was taken had its round. -/
theorem rounds_of (h : Handles c entries rounds closing status) :
    ∀ pair ∈ entries.zip rounds, Round c pair.1 pair.2 := by
  induction h with
  | commit _ _ _ _ _ => simp
  | commitFirst _ _ _ _ _ _ _ => simp
  | cancel _ _ _ => simp
  | breakOff hround _ => simpa using hround
  | next hround _ _ ih =>
    intro pair hpair
    rcases List.mem_cons.1 hpair with rfl | hpair
    · exact hround
    · exact ih pair hpair

theorem length_le (h : Handles c entries rounds closing status) :
    rounds.length ≤ entries.length := by
  induction h with
  | commit _ _ _ _ _ | commitFirst _ _ _ _ _ _ _ | cancel _ _ _ => exact Nat.zero_le _
  | breakOff _ _ => exact Nat.succ_le_succ (Nat.zero_le _)
  | next _ _ _ ih => exact Nat.succ_le_succ ih

end Handles

/-- How a pass begins and how it ends. With a transport that is to be wiped first it announces its
end at once. -/
theorem Course.opens {c : Charter} {p : Standing} {steps : List Step}
    (h : Course (c.seat p) steps none) (hstage : p.stage = .opening) :
    ∃ x between last, steps = x :: (between ++ [last]) ∧ x.calls = [] ∧ x.told = [] ∧
      (x.before.engine.transports.isInitPending c.transport = true →
        between = [] ∧ x.Closes c (some .transportAborted) ∧ last.Departs c .transportAborted) ∧
      (x.before.engine.transports.isInitPending c.transport = false →
        x.Closes c none ∧
          ∃ rounds closing status, between = rounds.flatten ++ closing ∧
            Handles c p.entries rounds closing status ∧ last.Departs c status) := by
  obtain ⟨x, rest, rfl, hfrom⟩ := h.uncons
  have hmakes := hfrom.makes_opening hstage
  cases hinit : x.before.engine.transports.isInitPending c.transport with
  | true =>
    rw [if_pos hinit] at hmakes
    obtain ⟨last, rfl, hdeparts⟩ := (h.announced hmakes rfl).departs rfl
    exact ⟨x, [], last, rfl, hmakes.calls, hmakes.told, fun _ => ⟨rfl, hmakes.closes, hdeparts⟩,
      fun h => by rw [hinit] at h; cases h⟩
  | false =>
    rw [if_neg (by simp [hinit])] at hmakes
    have h₁ := h.goesOn hmakes rfl
    have hentries : ({ p with stage := .choosing } : Standing).entries = p.entries := rfl
    obtain ⟨rounds, closing, last, status, rfl, hhandles, hdeparts⟩ :=
      Course.handles hentries rfl h₁
    exact ⟨x, rounds.flatten ++ closing, last, rfl, hmakes.calls, hmakes.told,
      fun h => (by rw [hinit] at h; cases h),
      fun _ => ⟨hmakes.closes, rounds, closing, status, rfl, hhandles, hdeparts⟩⟩

/-! ## Passes that nobody cancels -/

theorem Status.endsPass_iff {status : Status} :
    status.endsPass = true ↔ status = .transportAborted ∨ status = .cancelled := by
  cases status <;> simp [endsPass]

/-- An agent is given up only by a pass that was canceled. -/
theorem Step.canceled_of_abandoned {x : Step} (h : x.sign = .abandoned) :
    x.task.canceled = true := by
  unfold Step.sign at h
  split at h
  · split at h <;> cases h
  · split at h
    · cases h
    · split at h
      · assumption
      · cases h
  all_goals cases h

/-- Only the transport can end a pass that nobody cancels. -/
theorem Fate.endsPass_iff {f : Fate} (h : f.abandoned = false) :
    f.status.endsPass = true ↔ f.status = .transportAborted := by
  have hne : f.status ≠ .cancelled := by
    unfold Fate.status
    split
    · cases f.reply with
      | none => simp
      | some reply => exact System.ofReply_ne_cancelled reply
    · split
      · simp
      · simp only [h, Bool.false_eq_true, if_false]
        split <;> simp
  rw [Status.endsPass_iff]
  constructor
  · rintro (h | h)
    · exact h
    · exact absurd h hne
  · exact .inl

/-- The steps of a pass that nobody cancels, from its second to the one that announces its end. The
rounds and the steps of the commit are those of one account, and it tells how the pass ends. -/
structure Concludes (c : Charter) (entries : List Entry) (rounds : List (List Step))
    (closing : List Step) (commit : List TransportCall) (status : Status) : Prop where
  /-- Every round begins with the choice of its package, and no other step chooses one. -/
  chooses : ∀ pair ∈ entries.zip rounds, ∃ x tail, pair.2 = x :: tail ∧
    x.choice? = some pair.1 ∧ ∀ y ∈ tail, y.task.stage ≠ .choosing
  /-- What the transport answers in a round, it answers to the call for the package. -/
  asked : ∀ pair ∈ entries.zip rounds, ∀ y ∈ pair.2, ∀ reply, y.sign = .replied reply →
    y.task.stage = .calling (pair.1.call c.nonIncremental)
  /-- It answers whatever it is offered. -/
  answered : ∀ f ∈ fatesOf entries rounds, f.isOffered = f.reply.isSome
  account : Account c (fatesOf entries rounds) commit status (rounds.flatten ++ closing)
  taken : rounds.length ≤ entries.length
  /-- No result but the last aborts the pass. -/
  goesOn : ∀ f ∈ (fatesOf entries rounds).dropLast, f.status ≠ .transportAborted
  /-- Either every package was taken and the pass ends as its commit does, or the last result has
  aborted it and nothing is committed. -/
  ends :
    (rounds.length = entries.length ∧
      (∀ f ∈ fatesOf entries rounds, f.status ≠ .transportAborted) ∧
      ∃ x y asks reply, closing = x :: y :: asks ∧ x.task.stage = .choosing ∧
        y.task.stage = .calling .finishBackup ∧ y.sign = .replied reply ∧
        asks.map (·.task.stage) = (y.before.datasetCalls reply).map .calling ∧
        commit = .finishBackup :: y.before.datasetCalls reply ∧
        status = System.commitStatus reply) ∨
    ((∃ f ∈ (fatesOf entries rounds).getLast?, f.status = .transportAborted) ∧
      closing = [] ∧ commit = [] ∧ status = .transportAborted)

theorem Handles.concludes {c : Charter} {entries : List Entry} {rounds : List (List Step)}
    {closing : List Step} {status : Status} (h : Handles c entries rounds closing status)
    (hcanceled : ∀ x ∈ rounds.flatten ++ closing, x.task.canceled = false) :
    ∃ commit, Concludes c entries rounds closing commit status := by
  obtain ⟨commit, haccount, hconclusion⟩ := h.account
  -- without a cancel no agent is given up, so only the transport can end the pass
  have hfate : ∀ f ∈ fatesOf entries rounds,
      f.isOffered = f.reply.isSome ∧ (f.status.endsPass = true ↔ f.status = .transportAborted) := by
    intro f hf
    obtain ⟨⟨e, round⟩, hpair, rfl⟩ := List.mem_map.1 hf
    refine ⟨(h.rounds_of _ hpair).answered, Fate.endsPass_iff ?_⟩
    simp only [Fate.of, List.any_eq_false, decide_eq_true_eq]
    intro x hx habandoned
    have hmem : x ∈ rounds.flatten ++ closing :=
      List.mem_append_left _ (List.mem_flatten.2 ⟨round, (List.of_mem_zip hpair).2, hx⟩)
    have hnot := hcanceled x hmem
    rw [Step.canceled_of_abandoned habandoned] at hnot
    cases hnot
  have hgoes : ∀ f ∈ fatesOf entries rounds, f.status.endsPass = false →
      f.status ≠ .transportAborted := by
    intro f hf hends haborted
    have hends' := (hfate f hf).2.2 haborted
    rw [hends] at hends'
    cases hends'
  have hlength : (fatesOf entries rounds).length = rounds.length := by
    simp [fatesOf, h.length_le]
  refine ⟨commit, fun pair hpair => (h.rounds_of pair hpair).chooses,
    fun pair hpair => (h.rounds_of pair hpair).asked, fun f hf => (hfate f hf).1, haccount,
    h.length_le, ?_, ?_⟩
  · intro f hf
    refine hgoes f (List.dropLast_subset _ hf) ?_
    cases hconclusion with
    | commit _ hall _ _ _ _ => exact hall f (List.dropLast_subset _ hf)
    | breakOff _ hall _ _ => exact hall f hf
    | cancel _ hall _ => exact hall f (List.dropLast_subset _ hf)
  · cases hconclusion with
    | commit hentries hall hchoosing hstage hsign hasks =>
      left
      refine ⟨?_, fun f hf => hgoes f hf (hall f hf), _, _, _, _, rfl, hchoosing, hstage, hsign,
        hasks, rfl, rfl⟩
      rw [← hentries, List.length_map, hlength]
    | breakOff _ _ hlast hends =>
      right
      have haborted := (hfate _ (List.mem_of_getLast? hlast)).2.1 hends
      exact ⟨⟨_, hlast, haborted⟩, rfl, rfl, haborted⟩
    | cancel _ _ hx =>
      rw [hcanceled _ (by simp)] at hx
      cases hx

/-! ## Passes over everything pending -/

namespace System

/-- Whether a pass over everything pending can begin: the policy allows it, no other pass runs,
something is pending, and there is a transport. -/
def canDrain (s : System) : Bool :=
  s.engine.policy.allows && !s.isBackupRunning && !s.engine.pending.packages.isEmpty &&
    (s.engine.transports.leaseCurrent "key-value").1.isSome

/-- A pass over everything pending begins, as a new task on the selected transport. -/
structure Drains (s s' : System) (t : Task) : Prop where
  tasks : s'.engine.tasks = s.engine.tasks ++ [t]
  number : t.number = s.engine.nextNumber
  stage : t.stage = .opening
  canceled : t.canceled = false
  transport : s.engine.transports.selected = some t.transport
  /-- What was pending is so no more. -/
  pending : s'.engine.pending.packages = .empty
  /-- The packages that were pending, each once and in the order of their octets, behind the
  metadata if that was pending too or the transport has none. -/
  job : ∃ front names,
    t.job = .keyValue (some ⟨s.engine.pending.packages.toList, s.engine.pending.journal⟩)
      (front ++ names) [] none false ∧
    front = (if metadataPackage ∈ s.engine.pending.packages ∨
      s.engine.transports.hasMetadata t.transport s.disk = false then [metadataPackage] else []) ∧
    names.Pairwise (fun a b => Utf8.encode a < Utf8.encode b) ∧
    ∀ package, package ∈ names ↔ package ∈ s.engine.pending.packages ∧ package ≠ metadataPackage

/-- The metadata goes to the front of what is sorted otherwise. -/
theorem metadataFirst_eq (packages : NameSet) (hasMetadata : Bool) :
    metadataFirst packages.toList hasMetadata =
      (if metadataPackage ∈ packages ∨ hasMetadata = false then [metadataPackage] else []) ++
        (packages.erase metadataPackage).toList := by
  have hne : ∀ {a b : String}, a < b → a ≠ b := by
    rintro a _ h rfl
    exact String.lt_irrefl a h
  have hnodup : packages.toList.Nodup := packages.sorted.imp hne
  have herase : packages.toList.erase metadataPackage =
      (packages.erase metadataPackage).toList := by
    rw [hnodup.erase_eq_filter]
    exact List.filter_congr fun x _ => by simp [bne, Bool.beq_eq_decide_eq]
  unfold metadataFirst
  by_cases hmem : metadataPackage ∈ packages
  · have hcontains : packages.toList.contains metadataPackage = true := List.contains_iff_mem.2 hmem
    rw [if_pos hcontains, if_pos (.inl hmem), herase]
    rfl
  · have hcontains : ¬ packages.toList.contains metadataPackage = true :=
      fun h => hmem (List.contains_iff_mem.1 h)
    have hsame : packages.toList = (packages.erase metadataPackage).toList := by
      rw [← herase, List.erase_of_not_mem hmem]
    rw [if_neg hcontains, ← hsame]
    cases hasMetadata <;> simp [hmem]

/-- **What happens when the engine is to back up everything pending.** -/
theorem runKeyValue_drains (s : System) :
    (s.canDrain = true → ∃ t, s.Drains s.runKeyValue t) ∧
      (s.canDrain = false → s.runKeyValue.engine.tasks = s.engine.tasks ∧
        s.runKeyValue.engine.pending = s.engine.pending) := by
  unfold canDrain runKeyValue
  by_cases hallows : s.engine.policy.allows = true
  swap
  · simp [hallows]
  by_cases hrunning : s.isBackupRunning = true
  · simp [hallows, hrunning]
  by_cases hempty : s.engine.pending.packages.isEmpty = true
  · simp [hallows, hrunning, hempty]
  simp only [hallows, hrunning, hempty, Bool.not_true, Bool.not_false, Bool.and_self,
    Bool.true_and, Bool.false_eq_true, if_false]
  rcases s.engine.transports.leaseCurrent_cases "key-value" with
    ⟨-, hnone⟩ | ⟨name, hselected, -, hsome⟩
  · rw [hnone]
    exact ⟨nofun, fun _ => ⟨rfl, rfl⟩⟩
  · rw [hsome]
    refine ⟨fun _ => ⟨_, rfl, rfl, rfl, rfl, hselected, rfl, _, _, ?_, rfl,
      (s.engine.pending.packages.erase metadataPackage).sorted.imp Utf8.encode_lt,
      fun package => NameSet.mem_erase⟩, fun h => by cases h⟩
    exact congrArg (Job.keyValue _ · [] none false) (metadataFirst_eq _ _)

end System

/-- The entry of a key-value pass in the books. -/
theorem Task.seat_keyValue (t : Task) {drained : Option Drained} {keyValue full : List String}
    {observer : Option String} {nonIncremental : Bool} {stage : Stage}
    (hjob : t.job = .keyValue drained keyValue full observer nonIncremental)
    (hstage : t.stage = stage) :
    t.seat = Charter.seat ⟨t.number, t.lease, t.token, drained, observer, nonIncremental⟩
      ⟨keyValue, full, stage⟩ := by
  show Seat.mk t.number t.job t.stage t.lease t.token = _
  rw [hjob, hstage]
  rfl

namespace World

variable {w : World}

/-- A command to back up everything pending starts a pass over it if it can. -/
theorem command_drains {rest : List Command}
    (hinbox : w.system.engine.inbox = .runKeyValue :: rest) :
    (w.system.canDrain = true → ∃ t, w.system.Drains (w.happen .command).system t) ∧
      (w.system.canDrain = false →
        (w.happen .command).system.engine.tasks = w.system.engine.tasks ∧
          (w.happen .command).system.engine.pending = w.system.engine.pending) := by
  have hsystem : (w.happen .command).system =
      (w.system.onEngine fun e => { e with inbox := rest }).runKeyValue := by
    simp only [happen, hinbox]
    rfl
  obtain ⟨hdrains, hstays⟩ :=
    (w.system.onEngine fun e => { e with inbox := rest }).runKeyValue_drains
  rw [hsystem]
  refine ⟨fun hcan => ?_, hstays⟩
  obtain ⟨t, ht⟩ := hdrains hcan
  exact ⟨t, ht.tasks, ht.number, ht.stage, ht.canceled, ht.transport, ht.pending, ht.job⟩

/-- **What a key-value pass does, end to end.** A command to back up everything pending starts a
pass over it if it can (`System.Drains`). Take any pass that is about to make its first step, with
its two lists of packages, and anything that happens from then on, as long as nobody cancels the
pass. Every step stores exactly what the transport took in it, and after seven steps for each
package and five more the pass is over. When it is over, it has made no call in its first step, and
in its last one it has told its observer the end and nothing else. With a transport to be wiped
first these were its only steps, and the pass was aborted. Otherwise the steps between them fall
into the rounds of the packages, taken in order up to the first that aborts the pass, and the steps
of the commit; the calls, the results told, the packages stored and what is pending are as their
fates say (`Concludes`). -/
theorem keyValue_pass {settings : Settings} {disk : Disk} {device : Device} {s : System}
    (hstart : System.start settings disk device.fresh = .ok s) (events : List Event) :
    let w := (opened s).run events
    (∀ rest, w.system.engine.inbox = .runKeyValue :: rest →
      (w.system.canDrain = true → ∃ t, w.system.Drains (w.happen .command).system t) ∧
        (w.system.canDrain = false →
          (w.happen .command).system.engine.tasks = w.system.engine.tasks ∧
            (w.happen .command).system.engine.pending = w.system.engine.pending)) ∧
    ∀ t ∈ w.system.engine.tasks, ∀ drained keyValue full observer nonIncremental,
      t.job = .keyValue drained keyValue full observer nonIncremental → t.stage = .opening →
      ∀ more, (∀ x ∈ w.course t.number more, x.task.canceled = false) →
        let c : Charter := ⟨t.number, t.lease, t.token, drained, observer, nonIncremental⟩
        let entries : List Entry := keyValue.map (⟨·, .incremental⟩) ++ full.map (⟨·, .full⟩)
        (∀ x ∈ w.course t.number more, x.Stores) ∧
        ((w.run more).runs t.number →
          (w.course t.number more).length < 7 * (keyValue.length + full.length) + 5) ∧
        (¬ (w.run more).runs t.number → ∃ x steps last,
          w.course t.number more = x :: (steps ++ [last]) ∧ x.calls = [] ∧ x.told = [] ∧
          (x.before.engine.transports.isInitPending t.transport = true →
            steps = [] ∧ x.Closes c (some .transportAborted) ∧
              last.Departs c .transportAborted) ∧
          (x.before.engine.transports.isInitPending t.transport = false →
            x.Closes c none ∧
              ∃ rounds closing commit status, steps = rounds.flatten ++ closing ∧
                Concludes c entries rounds closing commit status ∧ last.Departs c status)) := by
  intro w
  have hs : w.Sound := run_sound events (opened_sound hstart)
  refine ⟨fun rest => command_drains, ?_⟩
  intro t ht drained keyValue full observer nonIncremental hjob hstage more hcanceled c entries
  let p : Standing := ⟨keyValue, full, .opening⟩
  have hseat : t.seat = c.seat p := t.seat_keyValue hjob hstage
  obtain ⟨final, hcourse, hfinal⟩ := course_of_seat hs (List.mem_map_of_mem ht) more
  rw [hseat] at hcourse
  change Course (c.seat p) (w.course t.number more) final at hcourse
  obtain ⟨hstores, hlength⟩ := hcourse.bounded (Nat.succ_pos _)
  refine ⟨hstores, fun hruns => ?_, fun hover => ?_⟩
  · have hshort := hlength (hfinal.2 hruns)
    simpa [Standing.stepsLeft, Standing.entries, p] using hshort
  · obtain rfl : final = none := Option.not_isSome_iff_eq_none.1 fun h => hover (hfinal.1 h)
    obtain ⟨x, steps, last, hsteps, hcalls, htold, habort, hrest⟩ := hcourse.opens rfl
    rw [← System.transport_of_seat hseat] at habort hrest
    refine ⟨x, steps, last, hsteps, hcalls, htold, habort, fun hinit => ?_⟩
    obtain ⟨hcloses, rounds, closing, status, rfl, hhandles, hdeparts⟩ := hrest hinit
    obtain ⟨commit, hconcludes⟩ := hhandles.concludes fun y hy =>
      hcanceled y (by rw [hsteps]; exact List.mem_cons_of_mem _ (List.mem_append_left _ hy))
    exact ⟨hcloses, rounds, closing, commit, status, rfl, hconcludes, hdeparts⟩

/-- A package announces a change and everything pending is to be backed up, on an engine that has
just been set up. -/
def changeOfOne : List Event :=
  [.command, .call (.registerTransport ⟨"local", "vault/Local", "local"⟩), .select "local", .land 0,
    .call (.setEnabled true), .call (.setProvisioned true), .call (.dataChanged .system "app"),
    .command, .call .runPass]

/-- The name of a command tells it apart from the others. -/
theorem only_runKeyValue {inbox : List Command}
    (h : inbox.map Command.name = [Command.runKeyValue.name]) : inbox = [.runKeyValue] := by
  obtain ⟨command, rfl, hname⟩ := List.map_eq_singleton_iff.1 h
  cases command <;> simp [Command.name] at hname ⊢

theorem keyValue_pass_changeOfOne :
    ∃ s, System.start {} {} deviceOfOne.fresh = .ok s ∧
      let w := ((opened s).run changeOfOne).happen .command
      (∃ t, ((opened s).run changeOfOne).system.Drains w.system t) ∧
        (w.course 0 (List.replicate 13 (.task 0))).flatMap Step.calls =
          [("local", .performBackup "@pm@" false), ("local", .performBackup "app" false),
            ("local", .finishBackup)] ∧
        ∃ x rounds closing last commit c entries status,
          w.course 0 (List.replicate 13 (.task 0)) =
              x :: (rounds.flatten ++ closing ++ [last]) ∧
            Concludes c entries rounds closing commit status ∧ last.Departs c status := by
  obtain ⟨s, hstart, hcheck⟩ := @start_check {} {} deviceOfOne.fresh (fun s =>
    let w := (opened s).run changeOfOne
    let w' := w.happen .command
    let steps := w'.course 0 (List.replicate 13 (.task 0))
    (w.system.engine.inbox.map Command.name == [Command.runKeyValue.name] && w.system.canDrain &&
      w.system.engine.nextNumber == 0 && w.system.engine.transports.selected == some "local") &&
    (steps.all (fun x => !x.task.canceled) &&
      steps.all (fun x => !x.before.engine.transports.isInitPending "local") &&
      (w'.run (List.replicate 13 (.task 0))).system.engine.tasks.isEmpty &&
      steps.flatMap Step.calls == [("local", .performBackup "@pm@" false),
        ("local", .performBackup "app" false), ("local", .finishBackup)])) (by decide +kernel)
  simp only [Bool.and_eq_true, List.isEmpty_iff, beq_iff_eq, List.all_eq_true,
    Bool.not_eq_true'] at hcheck
  obtain ⟨⟨⟨⟨hinbox, hcan⟩, hnumber⟩, hselected⟩, ⟨⟨hcanceled, hinit⟩, hover⟩, hcalls⟩ := hcheck
  have hhappen : ∀ events, (opened s).run (events ++ [.command]) =
      ((opened s).run events).happen .command := fun events => run_append _ _ _
  obtain ⟨t, ht⟩ := ((keyValue_pass hstart changeOfOne).1 [] (only_runKeyValue hinbox)).1 hcan
  obtain ⟨front, names, hjob, -⟩ := ht.job
  have hpass := (keyValue_pass hstart (changeOfOne ++ [.command])).2 t
  have hzero : t.number = 0 := ht.number.trans hnumber
  have hlocal : t.transport = "local" := Option.some.inj (ht.transport.symm.trans hselected)
  rw [hhappen, hzero, hlocal] at hpass
  obtain ⟨-, -, hend⟩ := hpass (by rw [ht.tasks]; simp) _ _ _ _ _ hjob ht.stage
    (List.replicate 13 (.task 0)) hcanceled
  obtain ⟨x, steps, last, hsteps, -, -, -, hrest⟩ := hend (by rw [runs, hover]; simp)
  obtain ⟨-, rounds, closing, commit, status, rfl, hconcludes, hdeparts⟩ :=
    hrest (hinit x (by rw [hsteps]; simp))
  exact ⟨s, hstart, ⟨t, ht⟩, hcalls, x, rounds, closing, last, commit, _, _, status, hsteps,
    hconcludes, hdeparts⟩

end World

end Holdfast
