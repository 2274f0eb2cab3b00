import Holdfast.Proofs.Engine.KeyValue

/-!
# What becomes of the packages that a pass has drained

A pass takes what is pending, and unless it succeeds everything it took is pending again. It can
succeed although single packages fail.

- `IsRound`: the steps of a pass from the choice of a package to the next choice or to the end;
- `Offered`, `PassedOver`: what can become of a package in its round;
- `World.drained_accounted`: **a package that was drained is pending again after the pass, or the
  transport was offered its data, or a pass that succeeded has passed it over**;
- `World.refused_package_forgotten`: the last of these happens to a package whose agent refuses to
  be bound. It is installed and takes part in backups, but it is neither pending nor in a journal.
-/

namespace Holdfast

/-- The steps of a pass from the choice of a package up to the next choice, or to the step that
tells the end of the pass. -/
structure IsRound (steps : List Step) (e : Entry) (round : List Step) : Prop where
  chooses : ∃ x tail, round = x :: tail ∧ x.choice? = some e ∧ ∀ y ∈ tail, y.task.stage ≠ .choosing
  whole : ∃ before after, steps = before ++ (round ++ after) ∧
    ∀ y ∈ after.head?, y.task.stage = .choosing ∨ ∃ status, y.task.stage = .closing status

/-- A transport was called in some steps, and it has returned a status. -/
structure Offered (steps : List Step) (transport : String) (call : TransportCall) : Prop where
  called : ∃ x ∈ steps, (transport, call) ∈ x.calls
  returned : ∃ x ∈ steps, x.task.stage = .calling call ∧ ∃ status, x.sign = .replied (.ok status)

/-- A package had its round in some steps, but its data was not offered to the transport: it was not
listed as a participant, or its agent did not connect, or it did not do its work. -/
def PassedOver (steps : List Step) (package : String) : Prop :=
  ∃ round, IsRound steps ⟨package, .incremental⟩ round ∧
    let f := Fate.of ⟨package, .incremental⟩ round
    f.listed.any (·.isParticipant) = false ∨ f.bound = false ∨ f.acknowledged = false

theorem IsRound.cons {steps : List Step} {e : Entry} {round : List Step} (h : IsRound steps e round)
    (x : Step) : IsRound (x :: steps) e round := by
  obtain ⟨before, after, rfl, hnext⟩ := h.whole
  exact ⟨h.chooses, x :: before, after, rfl, hnext⟩

theorem IsRound.concat {steps : List Step} {e : Entry} {round : List Step}
    (h : IsRound steps e round) {x : Step} {status : Status}
    (hx : x.task.stage = .closing status) : IsRound (steps ++ [x]) e round := by
  obtain ⟨before, after, rfl, hnext⟩ := h.whole
  refine ⟨h.chooses, before, after ++ [x], by simp, ?_⟩
  cases after with
  | nil =>
    intro y hy
    obtain rfl := Option.some.inj hy
    exact .inr ⟨status, hx⟩
  | cons y after => exact hnext

theorem Offered.mono {steps more : List Step} {transport : String} {call : TransportCall}
    (h : Offered steps transport call) (hmore : steps ⊆ more) : Offered more transport call := by
  obtain ⟨⟨x, hx, hcall⟩, y, hy, hreturned⟩ := h
  exact ⟨⟨x, hmore hx, hcall⟩, y, hmore hy, hreturned⟩

theorem Sign.eq_replied {sign : Sign} {reply : Device.Reply} (h : sign.reply? = some reply) :
    sign = .replied reply := by
  cases sign with
  | replied other => exact congrArg _ (Option.some.inj h)
  | _ => cases h

theorem Step.choosing_of_choice? {x : Step} {e : Entry} (h : x.choice? = some e) :
    x.task.stage = .choosing := by
  unfold Step.choice? at h
  split at h
  · assumption
  · cases h

namespace Round

variable {c : Charter} {e : Entry} {round : List Step}

theorem head_choosing (h : Round c e round) : ∀ y ∈ round.head?, y.task.stage = .choosing := by
  obtain ⟨x, tail, rfl, hchoice, -⟩ := h.chooses
  intro y hy
  obtain rfl := Option.some.inj hy
  exact Step.choosing_of_choice? hchoice

/-- A package that is offered, and whose result does not end the pass, gets a status. -/
theorem offered (h : Round c e round) (hoffered : (Fate.of e round).isOffered = true)
    (hgoes : (Fate.of e round).status.endsPass = false) :
    Offered round c.transport (e.call c.nonIncremental) := by
  have hanswered := h.answered
  rw [hoffered] at hanswered
  obtain ⟨reply, hreply⟩ := Option.isSome_iff_exists.1 hanswered.symm
  obtain ⟨y, hy, hsign⟩ := List.exists_of_findSome?_eq_some hreply
  have hsign' := Sign.eq_replied hsign
  refine ⟨?_, y, hy, h.asked y hy reply hsign', ?_⟩
  · have hcalls := h.handled.calls
    rw [hoffered] at hcalls
    have hmem : (c.transport, e.call c.nonIncremental) ∈ round.flatMap Step.calls := by
      rw [hcalls]
      simp
    exact List.mem_flatMap.1 hmem
  · cases reply with
    | ok status => exact ⟨status, hsign'⟩
    | error fault =>
      rw [Fate.status, if_pos hoffered, hreply] at hgoes
      cases hgoes

end Round

namespace Handles

variable {c : Charter} {entries : List Entry} {rounds : List (List Step)} {closing : List Step}
  {status : Status}

/-- What follows on a package begins with a choice. -/
theorem head_choosing (h : Handles c entries rounds closing status) :
    ∀ y ∈ (rounds.flatten ++ closing).head?, y.task.stage = .choosing := by
  cases h with
  | commit hchoosing _ _ _ _ => simpa using hchoosing
  | commitFirst hchoosing _ _ _ _ _ _ => simpa using hchoosing
  | cancel hchoosing _ _ => simpa using hchoosing
  | breakOff hround _ => simpa using hround.head_choosing
  | next hround _ _ =>
    obtain ⟨x, tail, rfl, -, -⟩ := hround.chooses
    simpa using hround.head_choosing

theorem isRound (h : Handles c entries rounds closing status) :
    ∀ pair ∈ entries.zip rounds, IsRound (rounds.flatten ++ closing) pair.1 pair.2 := by
  induction h with
  | commit _ _ _ _ _ => simp
  | commitFirst _ _ _ _ _ _ _ => simp
  | cancel _ _ _ => simp
  | breakOff hround _ =>
    intro pair hpair
    obtain rfl : pair = (_, _) := by simpa using hpair
    exact ⟨hround.chooses, [], [], by simp, by simp⟩
  | @next e entries round closing rounds status hround _ hhandles ih =>
    intro pair hpair
    rcases List.mem_cons.1 hpair with rfl | hpair
    · exact ⟨hround.chooses, [], _, by simp, fun y hy => .inl (hhandles.head_choosing y hy)⟩
    · obtain ⟨hchooses, before, after, hsteps, hnext⟩ := ih pair hpair
      refine ⟨hchooses, round ++ before, after, ?_, hnext⟩
      rw [List.flatten_cons, List.append_assoc, hsteps, List.append_assoc]

/-- A pass succeeds only by its commit, after every package had its round. -/
theorem of_success (h : Handles c entries rounds closing .success) :
    (fatesOf entries rounds).map (·.entry) = entries ∧
      (∀ f ∈ fatesOf entries rounds, f.status.endsPass = false) ∧
      ∃ y ∈ closing, y.task.stage = .calling .finishBackup ∧ y.sign = .replied (.ok .ok) := by
  obtain ⟨commit, -, hconclusion⟩ := h.account
  generalize hstatus : Status.success = status at hconclusion
  cases hconclusion with
  | @commit x y asks reply hentries hall _ hstage hsign _ =>
    refine ⟨hentries, hall, y, by simp, hstage, ?_⟩
    rw [hsign]
    unfold System.commitStatus at hstatus
    split at hstatus
    · rfl
    · cases hstatus
  | breakOff _ _ _ hends =>
    rw [← hstatus] at hends
    cases hends
  | cancel _ _ _ => cases hstatus

/-- **In a pass that succeeds every package is offered to the transport or passed over.** -/
theorem offered_or_not (h : Handles c entries rounds closing .success) {e : Entry}
    (he : e ∈ entries) :
    Offered (rounds.flatten ++ closing) c.transport (e.call c.nonIncremental) ∨
      ∃ round, IsRound (rounds.flatten ++ closing) e round ∧
        (Fate.of e round).isOffered = false := by
  obtain ⟨hentries, hall, -⟩ := h.of_success
  rw [← hentries] at he
  obtain ⟨f, hf, rfl⟩ := List.mem_map.1 he
  have hgoes := hall f hf
  obtain ⟨⟨e, round⟩, hpair, rfl⟩ := List.mem_map.1 hf
  cases hoffered : (Fate.of e round).isOffered with
  | false => exact .inr ⟨round, h.isRound _ hpair, hoffered⟩
  | true =>
    left
    have hround : round ⊆ rounds.flatten ++ closing := fun x hx =>
      List.mem_append_left _ (List.mem_flatten.2 ⟨round, (List.of_mem_zip hpair).2, hx⟩)
    exact ((h.rounds_of _ hpair).offered hoffered hgoes).mono hround

end Handles

/-- A package that is no metadata is not offered for one of three reasons. -/
theorem Fate.not_offered {f : Fate} {package : String} (hentry : f.entry = ⟨package, .incremental⟩)
    (h : f.isOffered = false) :
    f.listed.any (·.isParticipant) = false ∨ f.bound = false ∨ f.acknowledged = false := by
  unfold Fate.isOffered at h
  rw [hentry] at h
  simp only [Bool.or_eq_false_iff, Bool.and_eq_false_iff] at h
  obtain ⟨-, (hlisted | hbound) | hacknowledged⟩ := h
  · exact .inl hlisted
  · exact .inr (.inl hbound)
  · exact .inr (.inr hacknowledged)

/-- What became of a package that a pass has drained, by the steps of the pass and by the one that
announced its end. -/
def Accounted (steps : List Step) (announcing : Step) (transport package : String) : Prop :=
  package ∈ announcing.after.engine.pending.packages ∨
    Offered steps transport (.performBackup package false) ∨
    ((∃ x ∈ steps, x.task.stage = .calling .finishBackup ∧ x.sign = .replied (.ok .ok)) ∧
      PassedOver steps package)

theorem Course.accounted {c : Charter} {p : Standing} {steps : List Step}
    (h : Course (c.seat p) steps none) (hstage : p.stage = .opening) {pass : Drained}
    (hdrained : c.drained = some pass) (hpackages : pass.packages ⊆ p.keyValue)
    (hplain : c.nonIncremental = false) :
    ∃ before announcing last status, steps = before ++ [announcing, last] ∧
      last.Departs c status ∧
      ∀ package ∈ pass.packages, Accounted steps announcing c.transport package := by
  -- a pass that does not succeed stages everything again, whatever became of the single packages
  have hback : ∀ {x : Step} {status : Status}, x.Closes c (some status) → status ≠ .success →
      ∀ package ∈ pass.packages, package ∈ x.after.engine.pending.packages := by
    intro x status hcloses hstatus package hpackage
    rw [show x.after.engine.pending.packages = _ from hcloses, Pending.mem_closed]
    exact .inr ⟨hstatus, pass, hdrained, hpackage⟩
  obtain ⟨x, between, last, rfl, -, -, habort, hrest⟩ := h.opens hstage
  cases hinit : x.before.engine.transports.isInitPending c.transport with
  | true =>
    obtain ⟨rfl, hcloses, hdeparts⟩ := habort hinit
    exact ⟨[], x, last, _, rfl, hdeparts,
      fun package hpackage => .inl (hback hcloses (by decide) package hpackage)⟩
  | false =>
    obtain ⟨-, rounds, closing, status, rfl, hhandles, hdeparts⟩ := hrest hinit
    obtain ⟨commit, haccount, -⟩ := hhandles.account
    have hne := hhandles.steps_ne_nil
    obtain ⟨before, announcing, hsplit⟩ := (List.eq_nil_or_concat _).resolve_left hne
    have hcloses := haccount.settles.last announcing (by simp [hsplit])
    refine ⟨x :: before, announcing, last, status, by simp [hsplit], hdeparts,
      fun package hpackage => ?_⟩
    by_cases hstatus : status = .success
    · -- a pass that succeeds stages nothing again, so it depends on the round of the package
      subst hstatus
      right
      have hsteps : rounds.flatten ++ closing ⊆ x :: (rounds.flatten ++ closing ++ [last]) :=
        fun y hy => List.mem_cons_of_mem _ (List.mem_append_left _ hy)
      have he : (⟨package, .incremental⟩ : Entry) ∈ p.entries :=
        List.mem_append_left _ (List.mem_map_of_mem (hpackages hpackage))
      rcases hhandles.offered_or_not he with hoffered | ⟨round, hround, hnot⟩
      · left
        rw [hplain] at hoffered
        exact hoffered.mono hsteps
      · right
        obtain ⟨-, -, y, hy, hstage, hsign⟩ := hhandles.of_success
        exact ⟨⟨y, hsteps (List.mem_append_right _ hy), hstage, hsign⟩, round,
          (hround.concat hdeparts.stage).cons x,
          Fate.not_offered rfl hnot⟩
    · exact .inl (hback hcloses hstatus package hpackage)

namespace World

/-- **What becomes of the packages that a pass has drained.** Let a pass over everything pending
begin, and let anything happen from then on: changes, cancels, deadlines, and any behaviour of the
agents and the transport. A pass that is over has announced its end in its last step but one, and
left what is pending alone in its last. Every package that was pending at its start is pending again
right after the announcement, or the transport was offered the data of the package and has returned
a status, or the pass was committed although the package was passed over. -/
theorem drained_accounted {settings : Settings} {disk : Disk} {device : Device} {s : System}
    (hstart : System.start settings disk device.fresh = .ok s) (events : List Event) :
    let w := (opened s).run events
    let w' := w.happen .command
    let number := w.system.engine.nextNumber
    ∀ rest, w.system.engine.inbox = .runKeyValue :: rest → w.system.canDrain = true →
      ∀ more, ¬ (w'.run more).runs number →
        ∃ before announcing last transport,
          w'.course number more = before ++ [announcing, last] ∧
          last.after.engine.pending.packages = last.before.engine.pending.packages ∧
          w.system.engine.transports.selected = some transport ∧
          ∀ package ∈ w.system.engine.pending.packages,
            Accounted (w'.course number more) announcing transport package := by
  intro w w' number rest hinbox hcan more hover
  have hs : w.Sound := run_sound events (opened_sound hstart)
  have hs' : w'.Sound := (happen_change hs .command).sound hs
  obtain ⟨t, ht⟩ := (command_drains hinbox).1 hcan
  obtain ⟨front, names, hjob, hfront, -, hnames⟩ := ht.job
  let pass : Drained := ⟨w.system.engine.pending.packages.toList, w.system.engine.pending.journal⟩
  let c : Charter := ⟨t.number, t.lease, t.token, some pass, none, false⟩
  have hseat : t.seat = c.seat ⟨front ++ names, [], .opening⟩ := t.seat_keyValue hjob ht.stage
  have hmem : t ∈ w'.system.engine.tasks := by
    rw [ht.tasks]
    exact List.mem_append_right _ (List.mem_singleton_self t)
  -- every package that was drained is one of those that the pass takes
  have hpackages : pass.packages ⊆ front ++ names := by
    intro package hpackage
    by_cases hmeta : package = metadataPackage
    · refine List.mem_append_left _ ?_
      rw [hfront, if_pos (.inl (hmeta ▸ hpackage)), hmeta]
      exact List.mem_singleton_self _
    · exact List.mem_append_right _ ((hnames package).2 ⟨hpackage, hmeta⟩)
  obtain ⟨final, hcourse, hfinal⟩ := course_of_seat hs' (List.mem_map_of_mem hmem) more
  rw [show t.seat.number = number from ht.number] at hcourse hfinal
  obtain rfl : final = none := Option.not_isSome_iff_eq_none.1 fun h => hover (hfinal.1 h)
  rw [hseat] at hcourse
  obtain ⟨before, announcing, last, status, hsteps, hdeparts, haccounted⟩ :=
    hcourse.accounted rfl rfl hpackages rfl
  rw [← System.transport_of_seat hseat] at haccounted
  exact ⟨before, announcing, last, t.transport, hsteps, hdeparts.closes, ht.transport, haccounted⟩

theorem drained_accounted_changeOfOne :
    ∃ s, System.start {} {} deviceOfOne.fresh = .ok s ∧
      let w := (opened s).run changeOfOne
      let steps := (w.happen .command).course 0 (List.replicate 13 (.task 0))
      "app" ∈ w.system.engine.pending.packages ∧
        ∃ before announcing last, steps = before ++ [announcing, last] ∧
          Accounted steps announcing "local" "app" := by
  obtain ⟨s, hstart, hcheck⟩ := @start_check {} {} deviceOfOne.fresh (fun s =>
    let w := (opened s).run changeOfOne
    w.system.engine.inbox.map Command.name == [Command.runKeyValue.name] && w.system.canDrain &&
      w.system.engine.nextNumber == 0 && w.system.engine.transports.selected == some "local" &&
      decide ("app" ∈ w.system.engine.pending.packages) &&
      ((w.happen .command).run (List.replicate 13 (.task 0))).system.engine.tasks.isEmpty)
    (by decide +kernel)
  simp only [Bool.and_eq_true, List.isEmpty_iff, beq_iff_eq, decide_eq_true_eq] at hcheck
  obtain ⟨⟨⟨⟨⟨hinbox, hcan⟩, hnumber⟩, hselected⟩, happ⟩, hover⟩ := hcheck
  obtain ⟨before, announcing, last, transport, hsteps, -, htransport, haccounted⟩ :=
    drained_accounted hstart changeOfOne [] (only_runKeyValue hinbox) hcan
      (List.replicate 13 (.task 0)) (by rw [runs, hover]; simp)
  rw [hnumber] at hsteps haccounted
  obtain rfl : transport = "local" := Option.some.inj (htransport.symm.trans hselected)
  exact ⟨s, hstart, happ, before, announcing, last, hsteps, haccounted "app" happ⟩

/-- What can be decided of the state after a start. -/
theorem start_decide {settings : Settings} {disk : Disk} {device : Device} {P : System → Prop}
    [DecidablePred P]
    (h : (match System.start settings disk device with
      | .ok s => decide (P s)
      | .error _ => false) = true) :
    ∃ s, System.start settings disk device = .ok s ∧ P s := by
  obtain ⟨s, hstart, hdecided⟩ := start_check h
  exact ⟨s, hstart, of_decide_eq_true hdecided⟩

/-- A device whose only package does not let its agent be bound. -/
def deviceOfRefusal : Device := { deviceOfOne with behaviours := [("app", .refuse)] }

/-- **A package can be forgotten.** It has announced a change, and the pass that drained it is over
and was committed. The package is still installed and takes part in backups. But it is not pending,
no journal is left, and the transport was called for the metadata and for the commit only. -/
theorem refused_package_forgotten :
    ∃ s, System.start {} {} deviceOfRefusal.fresh = .ok s ∧
      let w := (opened s).run changeOfOne
      let steps := (w.happen .command).course 0 (List.replicate 8 (.task 0))
      let ended := ((w.happen .command).run (List.replicate 8 (.task 0))).system
      ("app" ∈ w.system.engine.pending.packages ∧ w.system.canDrain = true ∧
          ended.engine.tasks.map (·.number) = []) ∧
        (steps.getLast?.map (·.told)) = some (System.finishedNotice none .success) ∧
        (steps.any fun x => x.task.stage == .calling .finishBackup &&
          x.sign == .replied (.ok .ok)) = true ∧
        (ended.device.package? "app").any (·.isParticipant) = true ∧
        ¬ "app" ∈ ended.engine.pending.packages ∧
        (Journal.list ended.disk ended.engine.pending.folder).map (·.path) = [] ∧
        steps.flatMap Step.calls =
          [("local", .performBackup "@pm@" false), ("local", .finishBackup)] :=
  start_decide (by decide +kernel)

end World

end Holdfast
