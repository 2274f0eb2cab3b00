import Holdfast.Proofs.Disk

/-!
# Interrupted changes

A change of the disk is a run of effects, and a crash can stop it before any of them; an
append can also be torn, so that only the first octets of its content arrive.

- `Disk.effectsSince`: the effects that led from one disk to a later one, read off the log;
- `Disk.Interrupted`: the disks that a crash on the way can leave behind;
- `Disk.Guarded P d d'`: `P` holds wherever the way from `d` to `d'` can be interrupted. It is
  built up effect by effect (`Guarded.perform`, `Guarded.trans`) and answers for every crash
  (`Guarded.interrupted`).
-/

namespace Holdfast.Disk

/-! ## Crashes -/

/-- The effects that led from one disk to a later one, oldest first. -/
def effectsSince (d d' : Disk) : List Effect :=
  (d'.log.take (d'.log.length - d.log.length)).reverse

/-- The disk after some effects. -/
def redo (d : Disk) (effects : List Effect) : Disk :=
  effects.foldl (fun d effect => (d.perform effect).2) d

/-- What a crash can leave behind of a change that leads from `d` to `d'`, short of the whole
change. -/
inductive Interrupted (d d' : Disk) : Disk → Prop where
  /-- Some effects happened and the next one did not. -/
  | cut {done rest : List Effect} {next : Effect} :
    effectsSince d d' = done ++ next :: rest → Interrupted d d' (d.redo done)
  /-- Only the first octets of an append arrived. -/
  | torn {done rest : List Effect} {path : Path} {content : Bytes} (arrived : Nat) :
    effectsSince d d' = done ++ .extendFile path content :: rest →
    Interrupted d d' (d.redo (done ++ [.extendFile path (content.take arrived)]))

/-! ## Guarded changes -/

/-- `P` holds before each of the effects that lead from one listing to another, and after
every torn append among them. -/
inductive Course (P : Listing → Prop) : Listing → List Effect → Listing → Prop where
  | stay (nodes : Listing) : Course P nodes [] nodes
  | go {nodes next last : Listing} {effect : Effect} {effects : List Effect} :
    P nodes →
    (∀ path content, effect = .extendFile path content → ∀ arrived torn,
      after nodes (.extendFile path (content.take arrived)) = .ok torn → P torn) →
    after nodes effect = .ok next → Course P next effects last →
    Course P nodes (effect :: effects) last

theorem Course.append {P : Listing → Prop} {a b c : Listing} {es fs : List Effect}
    (h : Course P a es b) (h' : Course P b fs c) : Course P a (es ++ fs) c := by
  induction h with
  | stay => exact h'
  | go hP htorn hafter _ ih => exact .go hP htorn hafter (ih h')

/-- Effects that are carried out one after the other lead along their course. -/
theorem Course.redo_nodes {P : Listing → Prop} {d : Disk} {es fs : List Effect} {last : Listing}
    (h : Course P d.nodes (es ++ fs) last) : Course P (d.redo es).nodes fs last := by
  induction es generalizing d with
  | nil => exact h
  | cons e es ih =>
    cases h with
    | @go _ next _ _ _ _ _ hafter hrest =>
      have hperform : (d.perform e).2 = { d with nodes := next, log := e :: d.log } := by
        rw [perform, hafter]
      rw [redo, List.foldl_cons, hperform]
      exact ih hrest

/-- `P` holds wherever the way from `d` to `d'` can be interrupted. -/
def Guarded (P : Listing → Prop) (d d' : Disk) : Prop :=
  ∃ effects, d'.log = effects.reverse ++ d.log ∧ Course P d.nodes effects d'.nodes

namespace Guarded

variable {P : Listing → Prop} {d d' d'' : Disk}

/-- Nothing happened to the listing. -/
theorem still (hlog : d'.log = d.log) (hnodes : d'.nodes = d.nodes) : Guarded P d d' :=
  ⟨[], hlog, hnodes ▸ .stay _⟩

theorem refl : Guarded P d d := still rfl rfl

theorem trans (h : Guarded P d d') (h' : Guarded P d' d'') : Guarded P d d'' := by
  obtain ⟨es, hlog, hcourse⟩ := h
  obtain ⟨fs, hlog', hcourse'⟩ := h'
  exact ⟨es ++ fs, by simp [hlog', hlog], hcourse.append hcourse'⟩

/-- A single effect, before which `P` holds and which leaves `P` when it is torn. -/
theorem perform {effect : Effect} (h : d.perform effect = (.ok (), d')) (hP : P d.nodes)
    (htorn : ∀ path content, effect = .extendFile path content → ∀ arrived torn,
      after d.nodes (.extendFile path (content.take arrived)) = .ok torn → P torn) :
    Guarded P d d' := by
  rcases perform_cases d effect with ⟨nodes, hafter, heq⟩ | ⟨_, _, heq⟩
  · rw [h] at heq
    cases heq
    exact ⟨[effect], rfl, .go hP htorn hafter (.stay _)⟩
  · rw [h] at heq
    cases heq

/-- A single effect that cannot be torn. -/
theorem performWhole {effect : Effect} (h : d.perform effect = (.ok (), d')) (hP : P d.nodes)
    (hwhole : ∀ path content, effect ≠ .extendFile path content) : Guarded P d d' :=
  perform h hP fun path content heq => absurd heq (hwhole path content)

theorem effectsSince_eq {effects : List Effect} (hlog : d'.log = effects.reverse ++ d.log) :
    effectsSince d d' = effects := by
  simp [effectsSince, hlog]

/-- **A guarded change keeps its promise at every crash.** -/
theorem interrupted (h : Guarded P d d') {m : Disk} (hm : Interrupted d d' m) : P m.nodes := by
  obtain ⟨effects, hlog, hcourse⟩ := h
  have hsince := effectsSince_eq hlog
  cases hm with
  | cut heq =>
    rw [hsince] at heq
    subst heq
    cases hcourse.redo_nodes with
    | go hP _ _ _ => exact hP
  | torn arrived heq =>
    rename_i done rest path content
    rw [hsince] at heq
    subst heq
    rw [redo, List.foldl_append, List.foldl_cons, List.foldl_nil]
    cases hcourse.redo_nodes with
    | go hP htorn _ _ =>
      rcases perform_cases (d.redo done) (.extendFile path (content.take arrived)) with
        ⟨nodes, hafter, heq⟩ | ⟨_, _, heq⟩
      · rw [← redo, heq]
        exact htorn path content rfl arrived nodes hafter
      · rw [← redo, heq]
        exact hP

end Guarded

end Holdfast.Disk
