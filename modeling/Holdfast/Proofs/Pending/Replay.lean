import Holdfast.Proofs.Pending.Staging

/-!
# Replaying what earlier runs left behind

Replay stages the packages of each leftover generation before it deletes that generation.

- `Pending.mem_replay_of_jotted`: **a new set stages every package that some journal file lists
  and that may be announced**, whatever becomes of the file operations on the way;
- `Pending.Replayed`: what a replay whose file operations succeed does to the journals,
  generation by generation (`replayOne_replayed`, `replayEach_replayed`): the leftovers are
  gone, and no package that may be announced was missing at any point.
-/

namespace Holdfast.Pending

open Disk

/-! ## Recovery -/

theorem replayOne_aside {p : Pending} {d : Disk} {path : Path} {content : Bytes} {j : Journal}
    (targets : NameSet) (ht : Tree d.nodes) (h : p.Aside d path content) (hne : path ≠ j.path) :
    Tree (p.replayOne j targets d).2.2.nodes ∧
      (p.replayOne j targets d).2.1.Aside (p.replayOne j targets d).2.2 path content := by
  unfold replayOne
  split
  · exact ⟨ht, h⟩
  · rename_i packages _
    obtain ⟨ht₁, hother, hmem⟩ := recordAll_aside packages targets ht h
    obtain ⟨ht₂, hspares⟩ := Journal.delete_spares ht₁ j
    exact ⟨ht₂, hother, (hspares path content hne).2 hmem⟩

theorem mem_replayOne_of_mem {p : Pending} {x : String} (h : x ∈ p.packages) (j : Journal)
    (targets : NameSet) (d : Disk) : x ∈ (p.replayOne j targets d).2.1.packages := by
  unfold replayOne
  split
  · exact h
  · exact mem_recordAll.2 (.inl h)

/-- Replay forgets no package. -/
theorem mem_replayEach_of_mem {p : Pending} {x : String} (h : x ∈ p.packages)
    (journals : List Journal) (targets : NameSet) (d : Disk) :
    x ∈ (p.replayEach journals targets d).2.1.packages := by
  induction journals generalizing p d with
  | nil => exact h
  | cons j rest ih =>
    rw [replayEach]
    split
    · exact ih h d
    · exact ih (mem_replayOne_of_mem h j targets d) _

/-- A leftover generation keeps its content until its turn comes, and is staged then. -/
theorem mem_replayEach_of_aside {p : Pending} {d : Disk} {journals : List Journal} {j : Journal}
    {content : Bytes} {targets : NameSet} {x : String} (ht : Tree d.nodes)
    (haside : p.Aside d j.path content) (hj : j ∈ journals) (hx : x ∈ Record.textsOf content)
    (htarget : x ∈ targets) : x ∈ (p.replayEach journals targets d).2.1.packages := by
  induction journals generalizing p d with
  | nil => cases hj
  | cons first rest ih =>
    rw [replayEach]
    by_cases hfirst : j = first
    · subst hfirst
      rw [if_neg haside.1]
      refine mem_replayEach_of_mem ?_ rest targets _
      rw [replayOne, Journal.packages_of_mem ht haside.2]
      exact mem_recordAll.2 (.inr ⟨hx, htarget⟩)
    · have hrest : j ∈ rest := (List.mem_cons.1 hj).resolve_left hfirst
      split
      · exact ih ht haside hrest
      · have hpath : j.path ≠ first.path := fun heq => hfirst (Journal.eq_of_path heq)
        obtain ⟨ht₁, haside₁⟩ := replayOne_aside targets ht haside hpath
        exact ih ht₁ haside₁ hrest

/-- **A new set stages every listed package that may be announced.** -/
theorem mem_replay_of_jotted {p : Pending} {d : Disk} {targets : NameSet} {x : String}
    (hnone : p.journal = none) (ht : Tree d.nodes) (h : Jotted d.nodes p.folder x)
    (htarget : x ∈ targets) : x ∈ (p.replay targets d).2.1.packages := by
  obtain ⟨name, content, hname, hmem, hlists⟩ := h
  have hlisted : ⟨name :: p.folder⟩ ∈ Journal.list d p.folder :=
    (Journal.mem_list_iff ht).2 ⟨name, content, rfl, hname, hmem⟩
  have haside : p.Aside d (name :: p.folder) content := ⟨by simp [hnone], hmem⟩
  exact mem_replayEach_of_aside ht haside hlisted hlists htarget

/-! ## A replay whose file operations succeed -/

/-- Every file operation of a replay succeeds. -/
def ReplaysEach (p : Pending) (journals : List Journal) (targets : NameSet) (d : Disk) : Prop :=
  match journals with
  | [] => True
  | j :: rest =>
    if p.journal = some j then p.ReplaysEach rest targets d
    else
      (∀ packages, j.packages d = .ok packages → p.RecordsAll packages targets d) ∧
        (p.replayOne j targets d).2.1.ReplaysEach rest targets (p.replayOne j targets d).2.2

/-- The generations are files of the folder, and none of them is the current one. -/
def Leftover (p : Pending) (d : Disk) (j : Journal) : Prop :=
  p.journal ≠ some j ∧ ∃ name content, j.path = name :: p.folder ∧
    Journal.isJournalName name = true ∧ (j.path, Node.file content) ∈ d.nodes

/-- What replaying leftover generations does. -/
structure Replayed (p : Pending) (d : Disk) (journals : List Journal) (targets : NameSet)
    (p' : Pending) (d' : Disk) : Prop where
  tree : Tree d'.nodes
  current : Current p' d'.nodes
  folder : p'.folder = p.folder
  journal : ∀ j, p.journal = some j → p'.journal = some j
  /-- A file that is still there is the current generation, or it is older and not one of
  those replayed. -/
  files : ∀ path content, (path, Node.file content) ∈ d'.nodes →
    p'.journal = some ⟨path⟩ ∨ (⟨path⟩ ∉ journals ∧ (path, Node.file content) ∈ d.nodes)
  /-- Generations that are not replayed stay where they are. -/
  leftover : ∀ j, j ∉ journals → p.Leftover d j → p'.Leftover d' j
  staged : ∀ x ∈ p'.packages, x ∈ p.packages ∨ (x ∈ targets ∧
    ∃ j ∈ journals, ∃ content, (j.path, Node.file content) ∈ d.nodes ∧ x ∈ Record.textsOf content)
  safe : ∀ held : String → Prop, (∀ x, held x → x ∈ targets) → Safe p.folder held d.nodes →
    Safe p.folder held d'.nodes
  guarded : ∀ held : String → Prop, (∀ x, held x → x ∈ targets) → Safe p.folder held d.nodes →
    Guarded (Safe p.folder held) d d'

theorem Replayed.refl {p : Pending} {d : Disk} {targets : NameSet} (ht : Tree d.nodes)
    (hc : Current p d.nodes) : Replayed p d [] targets p d :=
  ⟨ht, hc, rfl, fun _ h => h, fun _ _ h => .inr ⟨List.not_mem_nil, h⟩, fun _ _ h => h,
    fun _ h => .inl h, fun _ _ h => h, fun _ _ _ => .refl⟩

theorem Replayed.trans {p p' p'' : Pending} {d d' d'' : Disk} {js js' : List Journal}
    {targets : NameSet} (h : Replayed p d js targets p' d')
    (h' : Replayed p' d' js' targets p'' d'') (hleft : ∀ j ∈ js', p'.journal ≠ some j) :
    Replayed p d (js ++ js') targets p'' d'' where
  tree := h'.tree
  current := h'.current
  folder := h'.folder.trans h.folder
  journal j hj := h'.journal j (h.journal j hj)
  files path content hmem := by
    rcases h'.files path content hmem with hcur | ⟨hnot', hmem'⟩
    · exact .inl hcur
    · rcases h.files path content hmem' with hcur | ⟨hnot, hmem₀⟩
      · exact .inl (h'.journal _ hcur)
      · refine .inr ⟨fun hmem => ?_, hmem₀⟩
        exact (List.mem_append.1 hmem).elim hnot hnot'
  leftover j hj hl := by
    rw [List.mem_append, not_or] at hj
    exact h'.leftover j hj.2 (h.leftover j hj.1 hl)
  staged x hx := by
    rcases h'.staged x hx with hx' | ⟨htarget, j, hj, content, hmem, hlists⟩
    · rcases h.staged x hx' with hx₀ | ⟨htarget, j, hj, hfile⟩
      · exact .inl hx₀
      · exact .inr ⟨htarget, j, List.mem_append_left _ hj, hfile⟩
    · rcases h.files j.path content hmem with hcur | ⟨_, hmem₀⟩
      · exact absurd hcur (hleft j hj)
      · exact .inr ⟨htarget, j, List.mem_append_right _ hj, content, hmem₀, hlists⟩
  safe held hheld hs := by
    have := h'.safe held hheld
    rw [h.folder] at this
    exact this (h.safe held hheld hs)
  guarded held hheld hs := by
    have := h'.guarded held hheld
    rw [h.folder] at this
    exact (h.guarded held hheld hs).trans (this (h.safe held hheld hs))

/-- Successful stagings leave the other generations where they are. -/
theorem Kept.leftover {p p' : Pending} {d d' : Disk} (h : Kept p d p' d') {j : Journal}
    (hl : p.Leftover d j) : p'.Leftover d' j := by
  obtain ⟨hne, name, content, hpath, hname, hmem⟩ := hl
  have hne' : p'.journal ≠ some j := by
    intro heq
    rcases h.fresh j heq with hold | hfree
    · exact hne hold
    · exact hfree content hmem
  exact ⟨hne', name, content, hpath.trans (by rw [h.folder]), hname,
    (h.spares j.path hne' content).2 hmem⟩

/-- Deleting another generation leaves the current one alone. -/
theorem Current.without {p : Pending} {nodes : Listing} {j : Journal} (hc : Current p nodes)
    (hne : p.journal ≠ some j) : Current p (without nodes j.path) := by
  refine hc.of_spared fun j' hj' content hmem => mem_without.2 ⟨hmem, fun heq => hne ?_⟩
  have hsame : j' = j := Journal.eq_of_path heq
  rw [hj', hsame]

/-- Once its packages are staged, deleting a generation takes no package from the journals. -/
theorem safe_without {p : Pending} {nodes : Listing} {j : Journal} {content : Bytes}
    {held : String → Prop} (hc : Current p nodes) (hne : p.journal ≠ some j)
    (hmem : (j.path, Node.file content) ∈ nodes)
    (hstaged : ∀ x, held x → x ∈ Record.textsOf content → x ∈ p.packages)
    (hs : Safe p.folder held nodes) : Safe p.folder held (without nodes j.path) := by
  refine ⟨hs.1.without hmem, fun x hx => ?_⟩
  obtain ⟨name, content', hname, hmem', hlists⟩ := hs.2 x hx
  by_cases heq : name :: p.folder = j.path
  · have hsame : Node.file content' = Node.file content := by
      refine Option.some.inj ((hs.1.node?_iff.2 hmem').symm.trans ?_)
      rw [heq]
      exact hs.1.node?_iff.2 hmem
    cases hsame
    exact (hc.without hne).jotted (hstaged x hx hlists)
  · exact ⟨name, content', hname, mem_without.2 ⟨hmem', heq⟩, hlists⟩

theorem replayOne_replayed {p : Pending} {d : Disk} {j : Journal} {targets : NameSet}
    (ht : Tree d.nodes) (hc : Current p d.nodes) (hl : p.Leftover d j)
    (hok : ∀ packages, j.packages d = .ok packages → p.RecordsAll packages targets d) :
    Replayed p d [j] targets (p.replayOne j targets d).2.1 (p.replayOne j targets d).2.2 := by
  obtain ⟨hne, name, content, hpath, hname, hmem⟩ := id hl
  have hread := Journal.packages_of_mem ht hmem
  have hkept := recordAll_kept ht hc (hok _ hread)
  simp only [replayOne, hread]
  rcases hrecord : p.recordAll (Record.textsOf content) targets d with ⟨p₁, d₁⟩
  rw [hrecord] at hkept
  have hne₁ := (hkept.leftover hl).1
  have hmem₁ := (hkept.spares j.path hne₁ content).2 hmem
  obtain ⟨d₂, hdelete, hnodes, ht₂, hguard⟩ := Journal.delete_of_mem hkept.tree hmem₁
  rw [hdelete]
  have hstaged : ∀ x ∈ targets, x ∈ Record.textsOf content → x ∈ p₁.packages := by
    intro x htarget hx
    have : x ∈ (p.recordAll (Record.textsOf content) targets d).1.packages :=
      mem_recordAll.2 (.inr ⟨hx, htarget⟩)
    rwa [hrecord] at this
  have hsafe : ∀ held : String → Prop, (∀ x, held x → x ∈ targets) →
      Safe p.folder held d.nodes → Safe p.folder held d₂.nodes := by
    intro held hheld hs
    have hs₁ := hkept.safe held hs
    rw [← hkept.folder] at hs₁ ⊢
    rw [hnodes]
    exact safe_without hkept.current hne₁ hmem₁ (fun x hx => hstaged x (hheld x hx)) hs₁
  refine ⟨ht₂, ?_, hkept.folder, hkept.journal, fun path content' hfile => ?_,
    fun j' hj' hl' => ?_, fun x hx => ?_, hsafe, fun held hheld hs => ?_⟩
  · rw [hnodes]
    exact hkept.current.without hne₁
  · rw [hnodes] at hfile
    obtain ⟨hfile, hother⟩ := mem_without.1 hfile
    by_cases hcur : p₁.journal = some ⟨path⟩
    · exact .inl hcur
    · refine .inr ⟨fun heq => hother ?_, (hkept.spares path hcur content').1 hfile⟩
      rw [← List.mem_singleton.1 heq]
  · obtain ⟨hne', name', content', hpath', hname', hmem'⟩ := hkept.leftover hl'
    refine ⟨hne', name', content', hpath', hname', ?_⟩
    rw [hnodes]
    refine mem_without.2 ⟨hmem', fun heq => hj' (List.mem_singleton.2 ?_)⟩
    exact Journal.eq_of_path heq
  · have hx' : x ∈ (p.recordAll (Record.textsOf content) targets d).1.packages := by
      rw [hrecord]
      exact hx
    rcases mem_recordAll.1 hx' with hx₀ | ⟨hlists, htarget⟩
    · exact .inl hx₀
    · exact .inr ⟨htarget, j, List.mem_singleton.2 rfl, content, hmem, hlists⟩
  · exact (hkept.guarded held hs).trans (hguard _ (hkept.safe held hs))

/-- **Replay deletes the leftovers one by one and misses no package that may be announced at any
point.** -/
theorem replayEach_replayed {p : Pending} {d : Disk} {journals : List Journal} {targets : NameSet}
    (ht : Tree d.nodes) (hc : Current p d.nodes) (hnodup : journals.Nodup)
    (hleft : ∀ j ∈ journals, p.Leftover d j) (hok : p.ReplaysEach journals targets d) :
    Replayed p d journals targets (p.replayEach journals targets d).2.1
      (p.replayEach journals targets d).2.2 := by
  induction journals generalizing p d with
  | nil => exact .refl ht hc
  | cons j rest ih =>
    have hl := hleft j List.mem_cons_self
    rw [ReplaysEach, if_neg hl.1] at hok
    rw [replayEach, if_neg hl.1]
    have hfirst := replayOne_replayed ht hc hl hok.1
    have hnot := (List.nodup_cons.1 hnodup).1
    have hleft' : ∀ j' ∈ rest, Leftover _ _ j' := fun j' hj' =>
      hfirst.leftover j' (fun heq => hnot (List.mem_singleton.1 heq ▸ hj'))
        (hleft j' (List.mem_cons_of_mem _ hj'))
    exact hfirst.trans (ih hfirst.tree hfirst.current (List.nodup_cons.1 hnodup).2 hleft' hok.2)
      fun j' hj' => (hleft' j' hj').1

end Holdfast.Pending
