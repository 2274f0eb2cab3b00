import Holdfast.Proofs.Engine.FrontCalls
import Holdfast.Proofs.Engine.Slot
import Holdfast.Proofs.Engine.Unheard

/-!
# One bind at a time

The host is asked for an agent by the task whose turn it is, and the turn passes to the next task
when the bind returns. What a task does with its agent is no part of its turn.

- `Front.InLine`: the line of binds is made up of the tasks that are queued or asking, and only the
  first of them asks. Every step keeps this (`Front.Turn.inLine`), and so does everything else
  (`World.live_inLine`);
- `Desk.Serial`, `World.live_serial`: at most one restore runs, a shutdown included;
- `World.same_kind`: with that, passes that have agents brought up are told apart by their kinds;
- `World.binds_in_turn`: **one bind at a time, and one agent for each kind of pass**;
- `World.binds_overlap`: agents of all three kinds of passes are bound at the same time.
-/

namespace Holdfast

open scoped List

namespace Stage

/-- Whether the host was asked for an agent and the bind has not returned. -/
def isBinding : Stage → Bool
  | .binding _ _ => true
  | .opening | .choosing | .queued _ _ | .prepared _ _ | .starting _ _ | .working _ _ | .calling _
  | .closing _ | .leaving | .fallen => false

/-- Whether a bind has returned an agent that is not torn down yet. -/
def isAttended (stage : Stage) : Bool := stage.agent?.isSome

variable {stage : Stage}

theorem isBinding_of_isApart (h : stage.isApart = true) : stage.isBinding = false := by
  cases stage <;> first | rfl | cases h

theorem isApart_of_isAttended (h : stage.isAttended = true) : stage.isApart = false := by
  obtain ⟨v, hagent⟩ := Option.isSome_iff_exists.1 h
  exact isApart_of_agent? hagent

theorem exists_of_isBinding (h : stage.isBinding = true) :
    ∃ v ticket, stage = .binding v ticket := by
  cases stage <;> first | exact ⟨_, _, rfl⟩ | cases h

end Stage

/-! ## The line of binds -/

namespace Front

variable {f f' : Front} {p : Place} {due delays : List Nat} {rest : List Place}

/-- The tickets of the tasks that are queued or asking. -/
def tickets (f : Front) : List Nat := f.places.filterMap (·.stage.ticket?)

/-- The line is made up of the tasks that are queued or asking, and only the first one asks. -/
structure InLine (f : Front) : Prop where
  line : f.line ~ f.tickets
  nodup : f.line.Nodup
  below : ∀ ticket ∈ f.line, ticket < f.nextTicket
  turn : ∀ p ∈ f.places, ∀ v ticket, p.stage = .binding v ticket → f.line.head? = some ticket
  visits : ∀ p ∈ f.places, p.stage.isApart = false → p.kind.visits = true

/-- One ticket is that of one task. -/
theorem InLine.sole (h : f.InLine) (hnodup : (f.places.map (·.number)).Nodup) {q : Place}
    (hmem : p ∈ f.places) (hmem' : q ∈ f.places) {ticket : Nat}
    (hticket : p.stage.ticket? = some ticket) (hticket' : q.stage.ticket? = some ticket) :
    q = p := by
  obtain ⟨rest, hperm, -⟩ := exists_rest hnodup hmem
  rcases List.mem_cons.1 (hperm.mem_iff.1 hmem') with heq | hrest
  · exact heq
  · have hline : f.line ~ ticket :: rest.filterMap (·.stage.ticket?) := by
      refine h.line.trans ((hperm.filterMap _).trans ?_)
      rw [List.filterMap_cons, hticket]
    exact absurd (List.mem_filterMap.2 ⟨q, hrest, hticket'⟩)
      (List.nodup_cons.1 (hline.nodup_iff.1 h.nodup)).1

/-- Whoever asks is the task whose turn it is. -/
theorem InLine.binding (h : f.InLine) (hnodup : (f.places.map (·.number)).Nodup) {q : Place}
    (hmem : p ∈ f.places) (hmem' : q ∈ f.places) {ticket : Nat}
    (hticket : p.stage.ticket? = some ticket) (hturn : f.line.head? = some ticket)
    (hbinding : q.stage.isBinding = true) : q = p := by
  obtain ⟨v, other, hstage⟩ := Stage.exists_of_isBinding hbinding
  have hsame : other = ticket :=
    Option.some.inj ((h.turn q hmem' v other hstage).symm.trans hturn)
  refine h.sole hnodup hmem hmem' hticket ?_
  rw [hstage, ← hsame]
  rfl

/-- Two tasks that ask are one. -/
theorem InLine.unique (h : f.InLine) (hnodup : (f.places.map (·.number)).Nodup) {q : Place}
    (hmem : p ∈ f.places) (hmem' : q ∈ f.places) (hbinding : p.stage.isBinding = true)
    (hbinding' : q.stage.isBinding = true) : q = p := by
  obtain ⟨v, ticket, hstage⟩ := Stage.exists_of_isBinding hbinding
  refine h.binding hnodup hmem hmem' ?_ (h.turn p hmem v ticket hstage) hbinding'
  rw [hstage]
  rfl

/-- A task that is outside the line joins it, behind everyone with a fresh ticket. -/
theorem InLine.join (h : f.InLine) (hplaces : f.places ~ p :: rest)
    (hapart : p.stage.isApart = true) (hvisits : p.kind.visits = true) (v : Visit)
    (hplaces' : f'.places ~ { p with stage := .queued v f.nextTicket } :: rest)
    (hline : f'.line = f.line ++ [f.nextTicket]) (hnext : f'.nextTicket = f.nextTicket + 1) :
    f'.InLine := by
  have hold : ∀ q ∈ rest, q ∈ f.places :=
    fun q hmem => hplaces.mem_iff.2 (List.mem_cons_of_mem p hmem)
  have hfresh : f.nextTicket ∉ f.line := fun hmem => Nat.lt_irrefl _ (h.below _ hmem)
  have htickets : f.line ~ rest.filterMap (·.stage.ticket?) := by
    have hall := h.line.trans (hplaces.filterMap _)
    rwa [List.filterMap_cons, Stage.ticket?_of_isApart hapart] at hall
  refine ⟨?_, ?_, ?_, ?_, ?_⟩
  · refine .trans ?_ (hplaces'.filterMap _).symm
    rw [hline, List.filterMap_cons]
    exact (List.perm_append_singleton _ _).trans (htickets.cons _)
  · rw [hline]
    refine List.nodup_append.2 ⟨h.nodup, List.nodup_singleton _, ?_⟩
    intro ticket hmem other hnew heq
    rw [List.mem_singleton.1 hnew] at heq
    exact hfresh (heq ▸ hmem)
  · intro ticket hmem
    rw [hline] at hmem
    rw [hnext]
    rcases List.mem_append.1 hmem with hmem | hmem
    · exact Nat.lt_succ_of_lt (h.below ticket hmem)
    · rw [List.mem_singleton.1 hmem]
      exact Nat.lt_succ_self _
  · intro q hmem v' ticket hstage
    rcases List.mem_cons.1 (hplaces'.mem_iff.1 hmem) with rfl | hmem
    · cases hstage
    · rw [hline, List.head?_append, h.turn q (hold q hmem) v' ticket hstage]
      rfl
  · intro q hmem hin
    rcases List.mem_cons.1 (hplaces'.mem_iff.1 hmem) with rfl | hmem
    · exact hvisits
    · exact h.visits q (hold q hmem) hin

/-- The task whose turn it is asks, and keeps its ticket. -/
theorem InLine.ask (h : f.InLine) (hplaces : f.places ~ p :: rest) {v : Visit} {ticket : Nat}
    (hstage : p.stage = .queued v ticket) (hturn : f.line.head? = some ticket)
    (hplaces' : f'.places ~ { p with stage := .binding v ticket } :: rest)
    (hline : f'.line = f.line) (hnext : f'.nextTicket = f.nextTicket) : f'.InLine := by
  have hold : ∀ q ∈ rest, q ∈ f.places :=
    fun q hmem => hplaces.mem_iff.2 (List.mem_cons_of_mem p hmem)
  refine ⟨?_, hline ▸ h.nodup, hnext ▸ hline ▸ h.below, ?_, ?_⟩
  · rw [hline]
    refine h.line.trans ((hplaces.filterMap _).trans (.trans ?_ (hplaces'.filterMap _).symm))
    rw [List.filterMap_cons, List.filterMap_cons, hstage]
    exact .refl _
  · intro q hmem v' other hother
    rw [hline]
    rcases List.mem_cons.1 (hplaces'.mem_iff.1 hmem) with rfl | hmem
    · cases hother
      exact hturn
    · exact h.turn q (hold q hmem) v' other hother
  · intro q hmem hin
    rcases List.mem_cons.1 (hplaces'.mem_iff.1 hmem) with rfl | hmem
    · exact h.visits p (hplaces.mem_iff.2 List.mem_cons_self) (by rw [hstage]; rfl)
    · exact h.visits q (hold q hmem) hin

/-- The task that has a ticket and makes a step is the first in line. -/
theorem InLine.ready (h : f.InLine) (hmem : p ∈ f.places)
    (hqueued : ∀ v ticket, p.stage = .queued v ticket → f.line.head? = some ticket)
    {ticket : Nat} (hticket : p.stage.ticket? = some ticket) : f.line.head? = some ticket := by
  cases hstage : p.stage with
  | queued v other =>
    rw [hstage] at hticket
    cases hticket
    exact hqueued v ticket hstage
  | binding v other =>
    rw [hstage] at hticket
    cases hticket
    exact h.turn p hmem v ticket hstage
  | _ =>
    rw [hstage] at hticket
    cases hticket

/-- A task whose turn it is, if it is in line, goes on without a ticket or is over. -/
theorem InLine.depart (h : f.InLine) (new : List Place) (hplaces : f.places ~ p :: rest)
    (hready : ∀ ticket, p.stage.ticket? = some ticket → f.line.head? = some ticket)
    (hline : f'.line = (f.quit p.stage).line) (hnext : f'.nextTicket = f.nextTicket)
    (hplaces' : f'.places ~ new ++ rest)
    (hnew : ∀ q ∈ new, q.stage.ticket? = none ∧ (q.stage.isApart = false → q.kind.visits = true)) :
    f'.InLine := by
  have htickets : f'.tickets ~ rest.filterMap (·.stage.ticket?) := by
    refine (hplaces'.filterMap _).trans ?_
    rw [List.filterMap_append, List.filterMap_eq_nil_iff.2 fun q hmem => (hnew q hmem).1]
    exact .refl _
  have hold : ∀ q ∈ rest, q ∈ f.places :=
    fun q hmem => hplaces.mem_iff.2 (List.mem_cons_of_mem p hmem)
  have hvisits : ∀ q ∈ f'.places, q.stage.isApart = false → q.kind.visits = true := by
    intro q hmem
    rcases List.mem_append.1 (hplaces'.mem_iff.1 hmem) with hmem | hmem
    · exact (hnew q hmem).2
    · exact h.visits q (hold q hmem)
  have hbinding : ∀ q ∈ f'.places, ∀ v ticket, q.stage = .binding v ticket → q ∈ rest := by
    intro q hmem v ticket hstage
    rcases List.mem_append.1 (hplaces'.mem_iff.1 hmem) with hmem | hmem
    · have hnone := (hnew q hmem).1
      rw [hstage] at hnone
      cases hnone
    · exact hmem
  rw [quit_line] at hline
  cases hticket : p.stage.ticket? with
  | none =>
    have hsame : f'.line = f.line := by rw [hline, hticket]; rfl
    refine ⟨?_, hsame ▸ h.nodup, hnext ▸ hsame ▸ h.below, ?_, hvisits⟩
    · refine hsame ▸ h.line.trans ((hplaces.filterMap _).trans ?_)
      rw [List.filterMap_cons, hticket]
      exact htickets.symm
    · intro q hmem v ticket hstage
      rw [hsame]
      exact h.turn q (hold q (hbinding q hmem v ticket hstage)) v ticket hstage
  | some ticket =>
    obtain ⟨tail, hhead⟩ := List.head?_eq_some_iff.1 (hready ticket hticket)
    have htail : f'.line = tail := by rw [hline, hticket, hhead]; rfl
    have hnodup : (ticket :: tail).Nodup := hhead ▸ h.nodup
    have hperm : tail ~ rest.filterMap (·.stage.ticket?) := by
      have hall := h.line.trans (hplaces.filterMap _)
      rw [hhead, List.filterMap_cons, hticket] at hall
      exact hall.cons_inv
    refine ⟨htail ▸ hperm.trans htickets.symm, htail ▸ (List.nodup_cons.1 hnodup).2, ?_, ?_,
      hvisits⟩
    · intro other hmem
      rw [hnext]
      exact h.below other (by rw [hhead]; exact List.mem_cons_of_mem _ (htail ▸ hmem))
    · -- whoever else asked would have had the same ticket
      intro q hmem v other hstage
      have hrest := hbinding q hmem v other hstage
      have hother := h.turn q (hold q hrest) v other hstage
      rw [hhead] at hother
      cases hother
      refine absurd (hperm.mem_iff.2 (List.mem_filterMap.2 ⟨q, hrest, ?_⟩))
        (List.nodup_cons.1 hnodup).1
      rw [hstage]
      rfl

/-- **A step keeps the line.** The task that asks or has asked is the first one. -/
theorem Turn.inLine (hturn : f.Turn p due f') (h : f.InLine)
    (hnodup : (f.places.map (·.number)).Nodup) (hmem : p ∈ f.places)
    (hqueued : ∀ v ticket, p.stage = .queued v ticket → f.line.head? = some ticket) :
    f'.InLine := by
  -- whoever stands in the line and makes a step is at its head, so to leave is to take the head off
  obtain ⟨rest, hperm, hstand, hdrop⟩ := exists_rest hnodup hmem
  have hready : ∀ ticket, p.stage.ticket? = some ticket → f.line.head? = some ticket :=
    fun _ hticket => h.ready hmem hqueued hticket
  have hvisits : p.stage.isApart = false → p.kind.visits = true := h.visits p hmem
  cases hturn with
  | joins v hapart hkind => exact h.join hperm hapart hkind v (hstand _ rfl) rfl rfl
  | @asks v ticket hstage =>
    exact h.ask hperm hstage (hqueued v ticket hstage) (hstand _ rfl) rfl rfl
  | @meets v ticket token hstage =>
    refine h.depart [{ p with stage := .prepared v token }] hperm hready ?_ rfl
      (hstand { p with stage := .prepared v token } rfl) ?_
    · rw [hstage]
      rfl
    · intro q hmem
      rw [List.mem_singleton.1 hmem]
      exact ⟨rfl, fun _ => hvisits (by rw [hstage]; rfl)⟩
  | @works v stage hagent hagent' =>
    refine h.depart [{ p with stage }] hperm hready ?_ rfl (hstand { p with stage } rfl) ?_
    · rw [f.quit_agent hagent]
      rfl
    · intro q hmem
      rw [List.mem_singleton.1 hmem]
      exact ⟨Stage.ticket?_of_agent? hagent',
        fun _ => hvisits (Stage.isApart_of_agent? hagent)⟩
  | @goes stage hapart =>
    have hplaces : ((f.quit p.stage).stand { p with stage }).places ~
        [{ p with stage }] ++ rest := by
      rw [stand, quit_places]
      exact hstand { p with stage } rfl
    refine h.depart [{ p with stage }] hperm hready rfl (f.quit_next _) hplaces ?_
    intro q hmem
    rw [List.mem_singleton.1 hmem]
    exact ⟨Stage.ticket?_of_isApart hapart,
      fun hin => absurd (hapart.symm.trans hin) Bool.noConfusion⟩
  | ends _ =>
    refine h.depart [] hperm hready rfl (f.quit_next _) ?_
      fun q hmem => absurd hmem List.not_mem_nil
    show (f.quit p.stage).places.filter (fun q => q.number ≠ p.number) ~ rest
    rw [quit_places]
    exact hdrop
  | leaves _ hstage =>
    refine h.depart [] hperm hready ?_ rfl hdrop fun q hmem => absurd hmem List.not_mem_nil
    rw [hstage]
    rfl
  | stays _ => exact h

/-- Other events leave the line alone, and a task that begins is in no line. -/
theorem Deed.inLine (hdeed : f.Deed delays f') (h : f.InLine) : f'.InLine := by
  cases hdeed with
  | settle hperm =>
    exact ⟨h.line.trans (hperm.filterMap _), h.nodup, h.below,
      fun p hmem => h.turn p (hperm.mem_iff.2 hmem),
      fun p hmem => h.visits p (hperm.mem_iff.2 hmem)⟩
  | @enters p hstage =>
    refine ⟨?_, h.nodup, h.below, ?_, ?_⟩
    · refine h.line.trans (.of_eq ?_)
      show f.tickets = (f.places ++ [p]).filterMap _
      rw [List.filterMap_append, List.filterMap_cons, hstage]
      exact (List.append_nil _).symm
    · intro q hmem v ticket hbinding
      rcases List.mem_append.1 hmem with hmem | hmem
      · exact h.turn q hmem v ticket hbinding
      · rw [List.mem_singleton.1 hmem, hstage] at hbinding
        cases hbinding
    · intro q hmem hin
      rcases List.mem_append.1 hmem with hmem | hmem
      · exact h.visits q hmem hin
      · rw [List.mem_singleton.1 hmem, hstage] at hin
        cases hin

/-! ## What is asked and what is torn down -/

/-- Only a task that is queued asks, and it asks for the agent for which it is queued. -/
theorem Turn.asked (hturn : f.Turn p due f') :
    f'.asked = f.asked ∨ ∃ v ticket, p.stage = .queued v ticket ∧
      f'.asked = f.asked ++ [(v.package.name, v.mode)] := by
  have hquit : (f.quit p.stage).asked = f.asked ∨ ∃ v ticket, p.stage = .queued v ticket ∧
      (f.quit p.stage).asked = f.asked ++ [(v.package.name, v.mode)] := by
    cases p.stage with
    | queued v ticket => exact .inr ⟨v, ticket, rfl, rfl⟩
    | _ => exact .inl rfl
  cases hturn with
  | joins _ _ _ | meets _ _ | works _ _ | leaves _ _ | stays _ => exact .inl rfl
  | asks hstage => exact .inr ⟨_, _, hstage, rfl⟩
  | goes _ | ends _ => exact hquit

/-- A task that has an agent has it after its next step as well, or tears it down. -/
theorem Turn.tornDown (hturn : f.Turn p due f') (hmem : p ∈ f.places) {v : Visit}
    (hagent : p.stage.agent? = some v) :
    (∃ q ∈ f'.places, q.number = p.number ∧ q.stage.agent? = some v) ∨
      f'.unbound = f.unbound ++ [v.package.name] := by
  have hquit : (f.quit p.stage).unbound = f.unbound ++ [v.package.name] := by
    rw [f.quit_agent hagent]
    rfl
  cases hturn with
  | joins _ hapart _ => cases hagent.symm.trans (Stage.agent?_of_isApart hapart)
  | asks hother | meets _ hother | leaves _ hother =>
    rw [hother] at hagent
    cases hagent
  | @works v' stage hsame hagent' =>
    cases hagent.symm.trans hsame
    exact .inl ⟨_, List.mem_map.2 ⟨p, hmem, if_pos rfl⟩, rfl, hagent'⟩
  | goes _ | ends _ => exact .inr hquit
  | stays _ => exact .inl ⟨p, hmem, rfl, hagent⟩

/-- A task that asks has its agent or is in no visit after its next step. -/
theorem Turn.returned (hturn : f.Turn p due f') (hbinding : p.stage.isBinding = true) :
    ∀ q ∈ f'.places, q.number = p.number → q.stage.isBinding = false := by
  have hstands : ∀ (f : Front) (stage : Stage), stage.isBinding = false →
      ∀ q ∈ (f.stand { p with stage }).places, q.number = p.number → q.stage.isBinding = false := by
    intro f stage hstage q hmem hnumber
    obtain ⟨other, -, rfl⟩ := List.mem_map.1 hmem
    by_cases hsame : other.number = p.number
    · rw [if_pos hsame]
      exact hstage
    · rw [if_neg hsame] at hnumber
      exact absurd hnumber hsame
  cases hturn with
  | joins _ hapart _ =>
    exact absurd (hbinding.symm.trans (Stage.isBinding_of_isApart hapart)) Bool.noConfusion
  | asks hother =>
    rw [hother] at hbinding
    cases hbinding
  | meets token _ => exact hstands _ _ rfl
  | works hagent _ =>
    obtain ⟨_, _, hstage⟩ := Stage.exists_of_isBinding hbinding
    rw [hstage] at hagent
    cases hagent
  | goes hapart => exact hstands _ _ (Stage.isBinding_of_isApart hapart)
  | ends _ | leaves _ _ =>
    intro q hmem hnumber
    have hne := (List.mem_filter.1 hmem).2
    simp [hnumber] at hne
  | stays hapart =>
    exact absurd (hbinding.symm.trans (Stage.isBinding_of_isApart hapart)) Bool.noConfusion

/-- An agent is returned only to the task for which the host was asked. -/
theorem Turn.arrived (hturn : f.Turn p due f') (hp : p ∈ f.places) {q : Place}
    (hmem : q ∈ f'.places) {v : Visit} (hagent : q.stage.agent? = some v) :
    (∃ old ∈ f.places, old.number = q.number ∧ old.stage.agent? = some v) ∨
      q.number = p.number ∧ ∃ ticket, p.stage = .binding v ticket := by
  have hold : q ∈ f.places → (∃ old ∈ f.places, old.number = q.number ∧
      old.stage.agent? = some v) ∨ q.number = p.number ∧ ∃ ticket, p.stage = .binding v ticket :=
    fun hq => .inl ⟨q, hq, rfl, hagent⟩
  have hstands : ∀ (f : Front) (stage : Stage), q ∈ (f.stand { p with stage }).places →
      q ∈ f.places ∨ q = { p with stage } := by
    intro f stage hmem
    obtain ⟨other, hother, rfl⟩ := List.mem_map.1 hmem
    split
    · exact .inr rfl
    · exact .inl hother
  -- a task that goes to another stage has no agent there
  have hnone : ∀ (f₁ : Front) (stage : Stage), f₁.places = f.places → stage.agent? = none →
      q ∈ (f₁.stand { p with stage }).places → q ∈ f.places := by
    intro f₁ stage hsame hnone hmem
    rcases hstands f₁ stage hmem with hold | heq
    · exact hsame ▸ hold
    · rw [heq] at hagent
      cases hnone.symm.trans hagent
  cases hturn with
  | joins _ _ _ => exact hold (hnone f.join _ rfl rfl hmem)
  | @asks v _ _ => exact hold (hnone (f.ask v) _ rfl rfl hmem)
  | @meets v' ticket token' hbinding =>
    rcases hstands f.leave _ hmem with hq | heq
    · exact hold hq
    · rw [heq] at hagent ⊢
      cases hagent
      exact .inr ⟨rfl, ticket, hbinding⟩
  | @works v' stage hsame hagent' =>
    rcases hstands f stage hmem with hq | heq
    · exact hold hq
    · rw [heq] at hagent ⊢
      cases hagent'.symm.trans hagent
      exact .inl ⟨p, hp, rfl, hsame⟩
  | goes hapart =>
    exact hold (hnone _ _ (f.quit_places _) (Stage.agent?_of_isApart hapart) hmem)
  | ends _ => exact hold (f.quit_places p.stage ▸ (List.mem_filter.1 hmem).1)
  | leaves _ _ => exact hold (List.mem_filter.1 hmem).1
  | stays _ => exact hold hmem

theorem Deed.arrived (hdeed : f.Deed delays f') {q : Place} (hmem : q ∈ f'.places)
    {v : Visit} (hagent : q.stage.agent? = some v) : q ∈ f.places := by
  cases hdeed with
  | settle hperm => exact hperm.mem_iff.2 hmem
  | enters hopening =>
    rcases List.mem_append.1 hmem with hold | hnew
    · exact hold
    · rw [List.mem_singleton.1 hnew, hopening] at hagent
      cases hagent

/-- A step leaves all other tasks where they are. -/
theorem Turn.others (hturn : f.Turn p due f') {q : Place} (hmem : q ∈ f.places)
    (hne : q.number ≠ p.number) : q ∈ f'.places := by
  have hstands : ∀ (f : Front) (stage : Stage), q ∈ f.places →
      q ∈ (f.stand { p with stage }).places := by
    intro f stage hmem
    exact List.mem_map.2 ⟨q, hmem, if_neg hne⟩
  have hquit : q ∈ (f.quit p.stage).places := (f.quit_places _).symm ▸ hmem
  cases hturn with
  | joins _ _ _ | asks _ | meets _ _ | works _ _ => exact hstands _ _ hmem
  | goes _ => exact hstands _ _ hquit
  | ends _ => exact List.mem_filter.2 ⟨hquit, by simpa using hne⟩
  | leaves _ _ => exact List.mem_filter.2 ⟨hmem, by simpa using hne⟩
  | stays _ => exact hmem

theorem Deed.others (hdeed : f.Deed delays f') {q : Place} (hmem : q ∈ f.places) :
    q ∈ f'.places := by
  cases hdeed with
  | settle hperm => exact hperm.mem_iff.1 hmem
  | enters _ => exact List.mem_append_left _ hmem

theorem Deed.asked (hdeed : f.Deed delays f') : f'.asked = f.asked := by
  cases hdeed <;> rfl

end Front

/-! ## The line of an engine -/

namespace System

variable {s : System} {t : Task}

/-- A task whose bind is queued makes a step when it is its turn. -/
theorem isReady_queued {v : Visit} {ticket : Nat} (hready : s.isReady t = true)
    (hstage : t.stage = .queued v ticket) : s.front.line.head? = some ticket := by
  unfold isReady at hready
  rw [hstage] at hready
  exact beq_iff_eq.1 hready

theorem wakeUp_arms (s : System) (scheduleChanged : Bool) : s.Arms (s.wakeUp scheduleChanged) := by
  refine wakeUp_elim .refl ?writes ?armsKeyValue ?armsFull
  case writes => exact fun s' h => h.trans (.of_eq s'.requestScheduleWrite_front)
  case armsKeyValue => exact fun s' h => h.trans (.of_eq s'.scheduleKeyValueJob_front)
  case armsFull => exact fun s' h => h.trans (s'.scheduleNextFullJob_arms 0)

/-- In a new engine no task is in line. -/
theorem start_inLine {settings : Settings} {disk : Disk} {device : Device} {s : System}
    (h : System.start settings disk device.fresh = .ok s) : s.front.InLine := by
  obtain ⟨hline, hplaces⟩ : s.front.line = [] ∧ s.front.places = [] := by
    obtain ⟨-, _, disk', -, -, rfl⟩ := System.start_cases h
    obtain ⟨_, _, _, _, _, _, hload⟩ := System.load_eq settings disk' device.fresh
    obtain ⟨delays, hfront⟩ := (load settings disk' device.fresh).2.wakeUp_arms
      (load settings disk' device.fresh).1
    rw [hfront, hload]
    exact ⟨rfl, rfl⟩
  refine ⟨?_, ?_, ?_, ?_, ?_⟩
  · rw [hline, Front.tickets, hplaces]
    exact .nil
  · rw [hline]
    exact List.nodup_nil
  · rw [hline]
    exact fun ticket hmem => absurd hmem List.not_mem_nil
  · rw [hplaces]
    exact fun p hmem => absurd hmem List.not_mem_nil
  · rw [hplaces]
    exact fun p hmem => absurd hmem List.not_mem_nil

end System

/-! ## One restore at a time -/

namespace Desk

variable {d d' : Desk}

/-- At most one restore runs or has its end queued, and then the flag is up. -/
def Serial (d : Desk) : Prop :=
  d.running.length + d.mail.countP Command.isRestoreEnd ≤ d.restoring.toNat

theorem Aside.serial (h : d.Aside d') (hd : d.Serial) : d'.Serial := by
  rw [Serial, h.running, h.ends, h.restoring]
  exact hd

theorem receive_serial (order : RestoreOrder) (h : d.Serial) : (d.receive order).Serial := by
  unfold receive
  cases hflag : d.restoring with
  | true =>
    unfold Serial at h
    rwa [hflag] at h
  | false =>
    unfold Serial at h
    rw [hflag] at h
    show (d.running ++ [(d.nextNumber, order)]).length + d.mail.countP Command.isRestoreEnd ≤ 1
    rw [List.length_append, List.length_singleton]
    have hzero : d.running.length + d.mail.countP Command.isRestoreEnd ≤ 0 := h
    omega

/-- The end of a restore was taken, so none runs. -/
theorem advance_serial (hrunning : d.running = [])
    (hends : d.mail.countP Command.isRestoreEnd = 0) (hflag : d.restoring = true) :
    d.advance.Serial := by
  unfold advance
  split
  · show d.running.length + d.mail.countP Command.isRestoreEnd ≤ 0
    rw [hrunning, hends]
    exact Nat.le_refl _
  · show (d.running ++ [_]).length + d.mail.countP Command.isRestoreEnd ≤ d.restoring.toNat
    rw [hrunning, hends, hflag]
    exact Nat.le_refl _

theorem take_serial {command : Command} {rest : List Command} (hmail : d.mail = command :: rest)
    (h : d.Serial) : (d.take command).Serial := by
  have hcount : d.running.length + (command :: rest).countP Command.isRestoreEnd ≤
      d.restoring.toNat := hmail ▸ h
  have hrest : { d with mail := rest }.Serial := by
    refine Nat.le_trans (Nat.add_le_add_left ?_ _) hcount
    exact (List.sublist_cons_self _ _).countP_le
  rw [take, hmail]
  cases command with
  | startRestore order =>
    obtain ⟨d₁, htimed, heq⟩ := start_frame { d with mail := rest } order
    show (start _ order).Serial
    rw [List.tail_cons, heq]
    exact receive_serial order (htimed.aside.serial hrest)
  | restoreFinished session =>
    obtain ⟨d₁, htimed, heq⟩ := finished_frame { d with mail := rest } session
    rw [List.countP_cons_of_pos rfl] at hcount
    have hflag := Bool.toNat_le d.restoring
    have hone : d.restoring = true := by
      cases hflag : d.restoring with
      | true => rfl
      | false =>
        rw [hflag] at hcount
        exact absurd hcount (by simp)
    have haside := htimed.aside
    show (finished _ session).Serial
    rw [List.tail_cons, heq]
    refine advance_serial ?_ (haside.ends.trans ?_) (haside.restoring.trans hone)
    · refine haside.running.trans ?_
      show d.running = []
      exact List.length_eq_zero_iff.1 (by omega)
    · show rest.countP Command.isRestoreEnd = 0
      omega
  | sessionTimeout session => exact (close_timed { d with mail := rest } session).aside.serial hrest
  | shutdown => exact Nat.le_trans (Nat.le_add_right _ _) hcount
  | _ => exact hrest

theorem post_serial {command : Command} (hend : command.isRestoreEnd = false) (h : d.Serial) :
    (d.post command).Serial := by
  unfold post
  split
  · have hnone : ([command].filter (!·.isQuiet)).countP Command.isRestoreEnd = 0 := by
      refine List.countP_eq_zero.2 fun other hmem => ?_
      rw [List.mem_singleton.1 (List.mem_filter.1 hmem).1, hend]
      exact Bool.false_ne_true
    show d.running.length + (d.mail ++ _).countP Command.isRestoreEnd ≤ _
    rw [List.countP_append, hnone]
    exact h
  · exact h

/-- The restore that runs comes to its end. -/
theorem finish_serial {number : Nat} {order : RestoreOrder} (started : Bool)
    (hmem : (number, order) ∈ d.running) (h : d.Serial) :
    (d.finish number order started).Serial := by
  obtain ⟨ancestral, ancestralPackages, heq⟩ := d.finish_frame number order started
  have hflag := Bool.toNat_le d.restoring
  have hcount : d.running.length + d.mail.countP Command.isRestoreEnd ≤ d.restoring.toNat := h
  have hpos := List.length_pos_of_mem hmem
  -- the one restore that runs is this one
  obtain ⟨entry, hentry⟩ := List.length_eq_one_iff.1 (show d.running.length = 1 by omega)
  have hgone : d.running.filter (fun entry => entry.1 ≠ number) = [] := by
    rw [hentry] at hmem ⊢
    rw [← List.mem_singleton.1 hmem]
    simp
  rw [heq, hgone]
  show 0 + (if d.looping then d.mail ++ [.restoreFinished order.session]
    else d.mail).countP Command.isRestoreEnd ≤ d.restoring.toNat
  have hends : (d.mail ++ [Command.restoreFinished order.session]).countP Command.isRestoreEnd =
      d.mail.countP Command.isRestoreEnd + 1 := List.countP_append
  split
  · rw [hends]
    omega
  · omega

end Desk

namespace World

variable {w : World} {i : Incident} {forfeited unheard : List Command} {strays : List Lease}

theorem Matter.serial {d : Desk} (hmatter : w.Matter i d) (htended : w.system.desk.Tended)
    (h : w.system.desk.Serial) : d.Serial := by
  cases hmatter with
  | calm _ | tick | skip _ _ => exact h
  | ring => exact htended.ring_aside.serial h
  | take hinbox hquiet => exact Desk.take_serial (mail_cons hinbox hquiet) h
  | opens _ _ _ => exact (Desk.opens_timed _).aside.serial h
  | renew _ => exact (Desk.arm_timed _ _).aside.serial h
  | close _ => exact (Desk.close_timed _ _).aside.serial h
  | submit _ => exact Desk.post_serial rfl h
  | finish hend => exact Desk.finish_serial _ (ending_mem hend) h
  | stop => exact Desk.post_serial rfl h

/-- **At most one restore runs**, in every run, a shutdown included. -/
theorem live_serial (hs : w.system.Numbered) (htended : w.system.desk.Tended)
    (h : w.system.desk.Serial) (incidents : List Incident) :
    (w.live incidents).system.desk.Serial := by
  induction incidents generalizing w with
  | nil => exact h
  | cons i incidents ih =>
    obtain ⟨d, hmatter, hshows⟩ := meet_matter hs i
    refine ih hshows.numbered (hshows.tended (hmatter.tended htended)) ?_
    have hserial := hmatter.serial htended h
    rw [hshows.eq]
    show (w.meet i).system.desk.running.length + _ ≤ _
    rw [hshows.running.length_eq]
    exact hserial

/-! ## One pass of each kind -/

/-- What at most one item of a list has, no two of them have. -/
theorem eq_of_countP_le_one {α : Type} {has : α → Bool} {items : List α}
    (h : items.countP has ≤ 1) {a b : α} (ha : a ∈ items) (hb : b ∈ items) (hasa : has a = true)
    (hasb : has b = true) : a = b := by
  have ha' := List.mem_filter.2 ⟨ha, hasa⟩
  have hb' := List.mem_filter.2 ⟨hb, hasb⟩
  rw [List.countP_eq_length_filter] at h
  obtain ⟨only, honly⟩ := List.length_eq_one_iff.1
    (Nat.le_antisymm h (List.length_pos_of_mem ha'))
  rw [honly] at ha' hb'
  rw [List.mem_singleton.1 ha', List.mem_singleton.1 hb']

theorem tasks_numbers (hs : w.system.Distinct) :
    (w.system.engine.tasks.map (·.number)).Nodup := by
  have hnumbers : ((w.system.engine.tasks.map Task.seat).map (·.number)).Nodup := hs
  rwa [List.map_map] at hnumbers

/-- A task in a visit does not wind down. -/
theorem not_windingDown {stage : Stage} (h : stage.isApart = false) :
    stage.isClosing = false ∧ stage.isLeaving = false := by
  cases stage <;> first | exact ⟨rfl, rfl⟩ | cases h

/-- **Passes that have agents brought up are told apart by their kinds.** A pass that winds down may
overlap with the next one, but neither has anything to do with agents then. -/
theorem same_kind (hk : (w.audit unheard strays).Kept) (hserial : w.system.desk.Serial)
    {t t' : Task} (ht : t ∈ w.system.engine.tasks) (ht' : t' ∈ w.system.engine.tasks)
    (hin : t.stage.isApart = false) (hin' : t'.stage.isApart = false)
    (hvisits : t.job.kind.visits = true) (hkind : t'.job.kind = t.job.kind) : t' = t := by
  obtain ⟨hclosing, hleaving⟩ := not_windingDown hin
  obtain ⟨hclosing', hleaving'⟩ := not_windingDown hin'
  have hseat := List.mem_map_of_mem (f := Task.seat) ht
  have hseat' := List.mem_map_of_mem (f := Task.seat) ht'
  refine List.inj_on_of_nodup_map (tasks_numbers (steady_of_kept hk).distinct) ht' ht ?_
  cases hof : t.job.kind with
  | keyValue =>
    -- one pass is counted at most
    have hcount : (w.system.engine.tasks.map Task.seat).countP Seat.isPass ≤ 1 := by
      have hpasses := hk.sound.passes
      have hsingle := hk.sound.single
      have heq : (w.audit unheard strays).ledger.seats = w.system.engine.tasks.map Task.seat := rfl
      rw [heq] at hpasses
      omega
    exact congrArg Seat.number (eq_of_countP_le_one hcount hseat' hseat
      (by simp [Seat.isPass, Task.seat, hkind, hof, hclosing'])
      (by simp [Seat.isPass, Task.seat, hof, hclosing]))
  | full =>
    -- there is one slot
    have hcount : (w.system.engine.tasks.map Task.seat).countP Seat.isFull ≤ 1 := by
      refine Nat.le_trans (Nat.le_of_eq hk.sound.fullCount) ?_
      cases (w.audit unheard strays).ledger.full <;> simp
    exact congrArg Seat.number (eq_of_countP_le_one hcount hseat' hseat
      (by simp [Seat.isFull, Task.seat, hkind, hof, hleaving'])
      (by simp [Seat.isFull, Task.seat, hof, hleaving]))
  | restore =>
    -- restores run one after the other
    have hrunning : ∀ t ∈ w.system.engine.tasks, t.job.kind = .restore →
        ∃ order, (t.number, order) ∈ w.system.desk.running := by
      intro t ht hrestore
      cases hjob : t.job with
      | restore order rest =>
        refine ⟨order, List.mem_filterMap.2 ⟨t.entry, List.mem_map_of_mem ht, ?_⟩⟩
        rw [Task.entry, hjob]
        rfl
      | _ =>
        rw [hjob] at hrestore
        cases hrestore
    obtain ⟨order, hmem⟩ := hrunning t ht hof
    obtain ⟨order', hmem'⟩ := hrunning t' ht' (hkind.trans hof)
    have hflag := Bool.toNat_le w.system.desk.restoring
    have hone : w.system.desk.running.length ≤ 1 := by
      have hcount : w.system.desk.running.length +
        w.system.desk.mail.countP Command.isRestoreEnd ≤ w.system.desk.restoring.toNat := hserial
      omega
    obtain ⟨only, honly⟩ := List.length_eq_one_iff.1
      (Nat.le_antisymm hone (List.length_pos_of_mem hmem))
    rw [honly] at hmem hmem'
    exact congrArg Prod.fst ((List.mem_singleton.1 hmem').trans (List.mem_singleton.1 hmem).symm)
  | wipe | clearData =>
    rw [hof] at hvisits
    cases hvisits

/-! ## The line along a run -/

/-- **An incident keeps the line.** -/
theorem meet_inLine (hs : w.system.Distinct) (h : w.system.front.InLine) (i : Incident) :
    (w.meet i).system.front.InLine := by
  cases w.meet_front hs i with
  | deed delays _ hdeed => exact hdeed.inLine h
  | turn hmem _ hready _ hreaches =>
    exact Front.Turn.inLine hreaches h (System.places_numbers hs) (System.mem_places hmem)
      fun v ticket hstage => System.isReady_queued hready hstage

/-- **The line holds after every run**, a shutdown included. -/
theorem live_inLine (hk : (w.audit unheard strays).Kept)
    (hphase : w.system.ledger.Phase forfeited unheard) (h : w.system.front.InLine)
    (incidents : List Incident) : (w.live incidents).system.front.InLine := by
  induction incidents generalizing w forfeited unheard strays with
  | nil => exact h
  | cons i incidents ih =>
    obtain ⟨unheard₁, hphase₁, hchange⟩ := meet_change hk hphase i
    exact ih (hchange.kept hk) hphase₁ (meet_inLine (steady_of_kept hk).distinct h i)

/-- The host is asked for an agent only when no bind is outstanding. -/
theorem meet_asked (hs : w.system.Distinct) (h : w.system.front.InLine) (i : Incident) :
    (w.meet i).system.front.asked = w.system.front.asked ∨
      ∃ t ∈ w.system.engine.tasks, ∃ v ticket,
        i = .event (.task t.number) ∧ t.stage = .queued v ticket ∧
        (w.meet i).system.front.asked = w.system.front.asked ++ [(v.package.name, v.mode)] ∧
        ∀ t' ∈ w.system.engine.tasks, t'.stage.isBinding = false := by
  cases w.meet_front hs i with
  | deed delays _ hdeed => exact .inl hdeed.asked
  | @turn t hmem hstep hready _ hreaches =>
    rcases Front.Turn.asked hreaches with hsame | ⟨v, ticket, hstage, hasked⟩
    · exact .inl hsame
    · have hstage : t.stage = .queued v ticket := hstage
      refine .inr ⟨t, hmem, v, ticket, hstep, hstage, hasked, fun t' hmem' => ?_⟩
      refine eq_false_of_ne_true fun hbinding => ?_
      have hticket : t.place.stage.ticket? = some ticket := by
        show t.stage.ticket? = some ticket
        rw [hstage]
        rfl
      have heq : t'.place = t.place :=
        h.binding (System.places_numbers hs) (System.mem_places hmem)
          (System.mem_places hmem') hticket (System.isReady_queued hready hstage) hbinding
      have hsame : t'.stage = t.stage := congrArg Place.stage heq
      rw [hsame, hstage] at hbinding
      cases hbinding

/-- A task stands where it does until it makes a step. -/
theorem meet_stands (hs : w.system.Distinct) (i : Incident) {t : Task}
    (ht : t ∈ w.system.engine.tasks) :
    t.place ∈ (w.meet i).system.front.places ∨
      i = .event (.task t.number) ∧ w.system.front.Reaches t.place (w.meet i).system := by
  cases w.meet_front hs i with
  | deed delays _ hdeed => exact .inl (hdeed.others (System.mem_places ht))
  | @turn t' hmem hstep _ _ hreaches =>
    by_cases hnumber : t.number = t'.number
    · have heq : t = t' :=
        List.inj_on_of_nodup_map (tasks_numbers hs) ht hmem hnumber
      exact .inr (heq ▸ ⟨hstep, hreaches⟩)
    · exact .inl (Front.Turn.others hreaches (System.mem_places ht) hnumber)

/-- An agent is returned only to a task for which the host was asked. -/
theorem meet_arrived (hs : w.system.Distinct) (i : Incident) {t' : Task}
    (ht' : t' ∈ (w.meet i).system.engine.tasks) {v : Visit} (hagent : t'.stage.agent? = some v) :
    (∃ t ∈ w.system.engine.tasks, t.number = t'.number ∧ t.stage.agent? = some v) ∨
      ∃ t ∈ w.system.engine.tasks, ∃ ticket,
        i = .event (.task t.number) ∧ t'.number = t.number ∧ t.stage = .binding v ticket := by
  have hmem : t'.place ∈ (w.meet i).system.front.places := System.mem_places ht'
  have hagent : t'.place.stage.agent? = some v := hagent
  cases w.meet_front hs i with
  | deed delays _ hdeed =>
    obtain ⟨t, ht, hplace⟩ := List.mem_map.1 (hdeed.arrived hmem hagent)
    refine .inl ⟨t, ht, congrArg Place.number hplace, ?_⟩
    exact (congrArg (fun p : Place => p.stage.agent?) hplace).trans hagent
  | @turn t ht hstep _ _ hreaches =>
    rcases Front.Turn.arrived hreaches (System.mem_places ht) hmem hagent with
      ⟨old, hold, hnumber, hhas⟩ | ⟨hnumber, ticket, hbinding⟩
    · obtain ⟨t₀, ht₀, rfl⟩ := List.mem_map.1 hold
      exact .inl ⟨t₀, ht₀, hnumber, hhas⟩
    · exact .inr ⟨t, ht, ticket, hstep, hnumber, hbinding⟩

/-- What an incident does about agents, from the moment at which the host is asked for one to the
moment at which it is torn down. -/
structure Attends (w : World) (i : Incident) : Prop where
  /-- The host is asked for an agent by a task in line, when no bind is outstanding and no pass of
  that kind has an agent. -/
  asked : (w.meet i).system.front.asked = w.system.front.asked ∨
    ∃ t ∈ w.system.engine.tasks, ∃ v ticket,
      i = .event (.task t.number) ∧ t.stage = .queued v ticket ∧
      (w.meet i).system.front.asked = w.system.front.asked ++ [(v.package.name, v.mode)] ∧
      ∀ t' ∈ w.system.engine.tasks, t'.stage.isBinding = false ∧
        (t'.stage.isAttended = true → t'.job.kind ≠ t.job.kind)
  /-- A bind is outstanding until its task goes on. -/
  outstanding : ∀ t ∈ w.system.engine.tasks, t.stage.isBinding = true →
    t.place ∈ (w.meet i).system.front.places ∨
      i = .event (.task t.number) ∧ ∀ t' ∈ (w.meet i).system.engine.tasks,
        t'.number = t.number → t'.stage.isBinding = false
  /-- A task has an agent that it had before, or for which the host was asked on its behalf. -/
  returned : ∀ t' ∈ (w.meet i).system.engine.tasks, ∀ v, t'.stage.agent? = some v →
    (∃ t ∈ w.system.engine.tasks, t.number = t'.number ∧ t.stage.agent? = some v) ∨
      ∃ t ∈ w.system.engine.tasks, ∃ ticket,
        i = .event (.task t.number) ∧ t'.number = t.number ∧ t.stage = .binding v ticket
  /-- A task has its agent until it tears it down. -/
  tornDown : ∀ t ∈ w.system.engine.tasks, ∀ v, t.stage.agent? = some v →
    (∃ t' ∈ (w.meet i).system.engine.tasks, t'.number = t.number ∧ t'.stage.agent? = some v) ∨
      i = .event (.task t.number) ∧
        (w.meet i).system.front.unbound = w.system.front.unbound ++ [v.package.name]

theorem meet_attends (hk : (w.audit unheard strays).Kept) (hserial : w.system.desk.Serial)
    (h : w.system.front.InLine) (i : Incident) : w.Attends i where
  asked := by
    have hs := (steady_of_kept hk).distinct
    rcases meet_asked hs h i with hsame | ⟨t, ht, v, ticket, hstep, hstage, hasked, hnone⟩
    · exact .inl hsame
    · refine .inr ⟨t, ht, v, ticket, hstep, hstage, hasked, fun t' ht' => ⟨hnone t' ht', ?_⟩⟩
      intro hattended hkind
      -- a pass of that kind would be this one, which has no agent yet
      have hin : t.stage.isApart = false := by rw [hstage]; rfl
      have hvisits : t.job.kind.visits = true := h.visits t.place (System.mem_places ht) hin
      rw [same_kind hk hserial ht ht' hin (Stage.isApart_of_isAttended hattended) hvisits hkind,
        hstage] at hattended
      cases hattended
  outstanding := by
    intro t ht hbinding
    rcases meet_stands (steady_of_kept hk).distinct i ht with hstands | ⟨hstep, hreaches⟩
    · exact .inl hstands
    · refine .inr ⟨hstep, fun t' ht' hnumber => ?_⟩
      exact Front.Turn.returned hreaches hbinding t'.place (System.mem_places ht') hnumber
  returned t' ht' v hagent := meet_arrived (steady_of_kept hk).distinct i ht' hagent
  tornDown := by
    intro t ht v hagent
    -- where a task of this number stands afterwards
    have hplaced : ∀ q ∈ (w.meet i).system.front.places, q.number = t.number →
        q.stage.agent? = some v → ∃ t' ∈ (w.meet i).system.engine.tasks,
          t'.number = t.number ∧ t'.stage.agent? = some v := by
      intro q hq hnumber hhas
      obtain ⟨t', ht', rfl⟩ := List.mem_map.1 hq
      exact ⟨t', ht', hnumber, hhas⟩
    rcases meet_stands (steady_of_kept hk).distinct i ht with hstands | ⟨hstep, hreaches⟩
    · exact .inl (hplaced t.place hstands rfl hagent)
    · rcases Front.Turn.tornDown hreaches (System.mem_places ht) hagent with
        ⟨q, hq, hnumber, hhas⟩ | hunbound
      · exact .inl (hplaced q hq hnumber hhas)
      · exact .inr ⟨hstep, hunbound⟩

/-- A task that has its agent is a pass of a kind that has agents brought up. -/
theorem attended_visits (h : w.system.front.InLine) {t : Task} (ht : t ∈ w.system.engine.tasks)
    (hattended : t.stage.isAttended = true) : t.job.kind.visits = true :=
  h.visits t.place (System.mem_places ht) (Stage.isApart_of_isAttended hattended)

theorem one_bind (hs : w.system.Distinct) (h : w.system.front.InLine) {t t' : Task}
    (ht : t ∈ w.system.engine.tasks) (ht' : t' ∈ w.system.engine.tasks)
    (hbinding : t.stage.isBinding = true) (hbinding' : t'.stage.isBinding = true) : t' = t := by
  have heq : t'.place = t.place :=
    h.unique (System.places_numbers hs) (System.mem_places ht) (System.mem_places ht') hbinding
      hbinding'
  exact List.inj_on_of_nodup_map (tasks_numbers hs) ht' ht (congrArg Place.number heq)

/-- Three kinds of passes have agents brought up, so three agents at most are bound. -/
theorem attended_le_three (hk : (w.audit unheard strays).Kept) (hserial : w.system.desk.Serial)
    (h : w.system.front.InLine) : w.system.engine.tasks.countP (·.stage.isAttended) ≤ 3 := by
  have hnumbers := tasks_numbers (steady_of_kept hk).distinct
  have hnodup :
      ((w.system.engine.tasks.filter (·.stage.isAttended)).map (·.job.kind)).Nodup := by
    refine List.Nodup.map_on ?_ ((List.Nodup.of_map _ hnumbers).filter _)
    intro t' ht' t ht hkind
    obtain ⟨ht, hattended⟩ := List.mem_filter.1 ht
    obtain ⟨ht', hattended'⟩ := List.mem_filter.1 ht'
    exact same_kind hk hserial ht ht' (Stage.isApart_of_isAttended hattended)
      (Stage.isApart_of_isAttended hattended') (attended_visits h ht hattended) hkind
  have hsubset : ∀ kind ∈ (w.system.engine.tasks.filter (·.stage.isAttended)).map (·.job.kind),
      kind ∈ [Pass.Kind.keyValue, .full, .restore] := by
    intro kind hmem
    obtain ⟨t, ht, rfl⟩ := List.mem_map.1 hmem
    obtain ⟨ht, hattended⟩ := List.mem_filter.1 ht
    have hvisits := attended_visits h ht hattended
    cases hkind : t.job.kind <;> simp [hkind, Pass.Kind.visits] at hvisits ⊢
  have hlength := (List.subperm_of_subset hnodup hsubset).length_le
  rwa [List.length_map, ← List.countP_eq_length_filter] at hlength

/-- **One bind at a time, and one agent for each kind of pass.** After every run, a shutdown
included, at most one bind is outstanding, and the tasks that have agents are passes of different
kinds: one key-value pass, one scheduled full backup and one restore at most. From the moment at
which the host is asked for an agent to the return of that bind, it is asked for no other. From
there until the agent is torn down, it is asked for another only by a pass of another kind. -/
theorem binds_in_turn {settings : Settings} {disk : Disk} {device : Device} {s : System}
    (hstart : System.start settings disk device.fresh = .ok s) (incidents : List Incident) :
    let w := (opened s).live incidents
    let tasks := w.system.engine.tasks
    (∀ t ∈ tasks, ∀ t' ∈ tasks, t.stage.isBinding = true → t'.stage.isBinding = true → t' = t) ∧
      (∀ t ∈ tasks, t.stage.isAttended = true → t.job.kind.visits = true ∧
        ∀ t' ∈ tasks, t'.stage.isAttended = true → t'.job.kind = t.job.kind → t' = t) ∧
      tasks.countP (·.stage.isAttended) ≤ 3 ∧ ∀ i, w.Attends i := by
  obtain ⟨hphase, hkept⟩ := opened_audited hstart
  obtain ⟨hnumbered, hcleared⟩ := System.start_desk hstart
  have hserial : s.desk.Serial := by
    rw [hcleared]
    exact Nat.le_refl _
  obtain ⟨unheard, -, hk⟩ := live_audited hkept hphase incidents
  have hinLine := live_inLine hkept hphase (System.start_inLine hstart) incidents
  have hserial := @live_serial (opened s) hnumbered (opened_tended hstart) hserial incidents
  refine ⟨fun t ht t' ht' => one_bind (steady_of_kept hk).distinct hinLine ht ht', ?_,
    attended_le_three hk hserial hinLine, meet_attends hk hserial hinLine⟩
  intro t ht hattended
  have hvisits := attended_visits hinLine ht hattended
  exact ⟨hvisits, fun t' ht' hattended' hkind =>
    same_kind hk hserial ht ht' (Stage.isApart_of_isAttended hattended)
      (Stage.isApart_of_isAttended hattended') hvisits hkind⟩

/-- A device with three packages whose agents do not come to an end. -/
def deviceOfThree : Device where
  catalog := [{ name := "files", uid := 10002 }, { name := "app", uid := 10001, hasAgent := true },
    { name := "notes", uid := 10003, hasAgent := true }]
  behaviours := [("files", .silent), ("app", .silent), ("notes", .silent)]
  now := 1000

/-- A scheduled full backup and a restore have their agents, and a requested backup is in line. -/
def twoAttended : List Incident :=
  (filesInFlight.dropLast ++
    [Event.command, .call (.beginSession .system none none),
      .call (.restoreAll ⟨1, none, "local"⟩ 5 ["notes"]), .call .beginFull,
      .call (.requestBackup .system ["app"] (some "observer") false)] ++
    List.replicate 3 Event.command ++ List.replicate 5 (Event.task 3) ++
    List.replicate 7 (Event.task 4) ++ List.replicate 2 (Event.task 5)).map .event

/-- While a scheduled full backup and a restore have their agents, no other full backup and no other
restore asks for one. -/
theorem binds_in_turn_twoAttended :
    ∃ s, System.start {} {} deviceOfThree.fresh = .ok s ∧
      let w := (opened s).live twoAttended
      (∀ kind ∈ [Pass.Kind.full, .restore], ∃ t ∈ w.system.engine.tasks,
        t.stage.isAttended = true ∧ t.job.kind = kind) ∧
      ∀ i, (w.meet i).system.front.asked = w.system.front.asked ∨
        ∃ t ∈ w.system.engine.tasks, i = .event (.task t.number) ∧
          t.job.kind ≠ .full ∧ t.job.kind ≠ .restore := by
  obtain ⟨s, hstart, hattended⟩ := @start_decide {} {} deviceOfThree.fresh
    (fun s => ∀ kind ∈ [Pass.Kind.full, .restore],
      ∃ t ∈ ((opened s).live twoAttended).system.engine.tasks,
        t.stage.isAttended = true ∧ t.job.kind = kind) inferInstance (by decide +kernel)
  refine ⟨s, hstart, hattended, fun i => ?_⟩
  obtain ⟨-, -, -, hattends⟩ := binds_in_turn hstart twoAttended
  rcases (hattends i).asked with hsame | ⟨t, ht, -, -, hstep, -, -, hothers⟩
  · exact .inl hsame
  · have hother : ∀ kind ∈ [Pass.Kind.full, .restore], t.job.kind ≠ kind := by
      rintro kind hmem rfl
      obtain ⟨t', ht', hattended, hkind⟩ := hattended t.job.kind hmem
      exact (hothers t' ht').2 hattended hkind
    exact .inr ⟨t, ht, hstep, hother .full (by decide), hother .restore (by decide)⟩

/-- **Agents of three kinds of passes are bound at the same time.** A scheduled full backup of one
package and the restore of another have their agents, and while they do, the host is asked for the
agent of a third package, which is returned to a key-value pass. Nothing is torn down in between. -/
theorem binds_overlap :
    ∃ s, System.start {} {} deviceOfThree.fresh = .ok s ∧
      let w := (opened s).live twoAttended
      let w' := w.live (List.replicate 4 (.event (.task 5)))
      w.system.engine.tasks.map (fun t => (t.job.kind, t.stage.isAttended)) =
          [(.full, true), (.restore, true), (.keyValue, false)] ∧
        w'.system.engine.tasks.map (fun t => (t.job.kind, t.stage.isAttended)) =
          [(.full, true), (.restore, true), (.keyValue, true)] ∧
        w.system.front.asked = [("files", .full), ("notes", .restore)] ∧
        w'.system.front.asked = [("files", .full), ("notes", .restore), ("app", .incremental)] ∧
        w'.system.front.unbound = [] :=
  start_decide (by decide +kernel)

end World

end Holdfast
