import Holdfast.Proofs.Pending.Durability
import Holdfast.Proofs.Pending.Refused

/-!
# Handing a generation over

A generation is deleted after its packages were staged again: when a pass has failed, and when
leftovers are replayed. Its packages are safe if their writes succeed. A refused write can leave
a package with no generation that lists it, since the old one is deleted all the same.

- `Pending.Replays`: replaying when file operations may be refused; what the set does on a disk
  is of this kind (`replayEach_replays`);
- `Pending.Replays.jotted`: **a new set that replays misses only packages whose write was
  refused**;
- `Custody.Reached`: the states that a set can come to while writes are refused, with their
  invariant (`Proper`, `Reached.proper`); all its acts lead to such states (`Reached.act`);
- `Custody.handover_accounted`: **what is not listed after a handover**;
- `Custody.refused_write_unlists`: a failed pass and a replay that leave packages in memory only.
-/

namespace Holdfast

open Disk

namespace Journal

theorem delete_serial (j : Journal) (d : Disk) : (j.delete d).2.serial = d.serial := by
  rw [delete_snd]
  exact perform_serial d _

/-- Only a generation that is there reads as anything but an empty one. -/
theorem file_of_packages {d : Disk} {j : Journal} {names : List String}
    (h : j.packages d = .ok names) : (∃ content, d.look j.path = .file content) ∨ names = [] := by
  rw [packages, Store.texts, Store.read, readFile] at h
  cases hlook : d.look j.path with
  | file content => exact .inl ⟨content, rfl⟩
  | missing =>
    rw [hlook] at h
    cases h
    exact .inr rfl
  | folder =>
    rw [hlook] at h
    cases h
  | blocked =>
    rw [hlook] at h
    cases h

end Journal

namespace Pending

/-! ## Replaying -/

/-- Replaying generations when file operations may be refused, with the packages whose write
was. -/
inductive Replays (targets : NameSet) :
    Pending → Disk → List Journal → List String → Pending → Disk → Prop
  | nil {p : Pending} {d : Disk} : Replays targets p d [] [] p d
  | current {p p' : Pending} {d d' : Disk} {j : Journal} {journals : List Journal}
      {failed : List String} (hj : p.journal = some j)
      (h : Replays targets p d journals failed p' d') :
      Replays targets p d (j :: journals) failed p' d'
  | unreadable {p p' : Pending} {d d' : Disk} {j : Journal} {journals : List Journal}
      {failed : List String} {e : Fault} (hread : j.packages d = .error e)
      (h : Replays targets p d journals failed p' d') :
      Replays targets p d (j :: journals) failed p' d'
  | one {p p₁ p' : Pending} {d d₁ d' : Disk} {j : Journal} {journals : List Journal}
      {names failed failed' : List String} (hj : p.journal ≠ some j)
      (hread : j.packages d = .ok names)
      (hstages : StagesAll p d (names.filter (· ∈ targets)) failed p₁ d₁)
      (h : Replays targets p₁ (j.delete d₁).2 journals failed' p' d') :
      Replays targets p d (j :: journals) (failed ++ failed') p' d'

/-- The packages whose write is refused when generations are replayed. -/
def refusedEach (p : Pending) (journals : List Journal) (targets : NameSet) (d : Disk) :
    List String :=
  match journals with
  | [] => []
  | j :: rest =>
    if p.journal = some j then p.refusedEach rest targets d
    else
      let failed := match j.packages d with
        | .error _ => []
        | .ok names => p.refused (names.filter (· ∈ targets)) d
      failed ++ (p.replayOne j targets d).2.1.refusedEach rest targets (p.replayOne j targets d).2.2

theorem recordAll_eq_restage (p : Pending) (packages : List String) (targets : NameSet)
    (d : Disk) :
    p.recordAll packages targets d = p.restage (packages.filter (· ∈ targets)) d := by
  induction packages generalizing p d with
  | nil => rfl
  | cons package rest ih =>
    by_cases htarget : package ∈ targets
    · simp [recordAll, record, restage, htarget, ih]
    · simp [recordAll, record, htarget, ih]

theorem StagesAll.tree {p p' : Pending} {d d' : Disk} {packages failed : List String}
    (h : StagesAll p d packages failed p' d') (ht : Tree d.nodes) : Tree d'.nodes := by
  induction h with
  | nil => exact ht
  | old _ _ ih => exact ih ht
  | new _ hwrites _ ih => exact ih (hwrites.tree ht)

theorem replayEach_replays {p : Pending} {d : Disk} (ht : Tree d.nodes) (journals : List Journal)
    (targets : NameSet) :
    Replays targets p d journals (p.refusedEach journals targets d)
      (p.replayEach journals targets d).2.1 (p.replayEach journals targets d).2.2 := by
  induction journals generalizing p d with
  | nil => exact .nil
  | cons j rest ih =>
    rw [replayEach, refusedEach]
    by_cases hj : p.journal = some j
    · rw [if_pos hj, if_pos hj]
      exact .current hj (ih ht)
    · rw [if_neg hj, if_neg hj]
      cases hread : j.packages d with
      | error e =>
        have hone : p.replayOne j targets d = (false, p, d) := by simp only [replayOne, hread]
        simp only [hone, List.nil_append]
        exact .unreadable hread (ih ht)
      | ok names =>
        have hstages := restage_stagesAll (p := p) ht (names.filter (· ∈ targets))
        rw [← recordAll_eq_restage] at hstages
        have hone : p.replayOne j targets d = (true, (p.recordAll names targets d).1,
            (j.delete (p.recordAll names targets d).2).2) := by
          simp only [replayOne, hread]
        simp only [hone]
        exact .one hj hread hstages (ih (Journal.delete_spares (hstages.tree ht) j).1)

/-- Deleting another generation leaves the current one whole. -/
theorem Intact.delete {p : Pending} {d : Disk} {j : Journal} (h : Intact p d.nodes)
    (ht : Tree d.nodes) (hj : p.journal ≠ some j) : Intact p (j.delete d).2.nodes := by
  intro j' hj'
  refine ⟨(h j' hj').1, fun bytes hmem => (h j' hj').2 bytes ?_⟩
  refine ((Journal.delete_spares ht j).2 _ bytes fun heq => hj ?_).1 hmem
  rw [hj', Journal.eq_of_path heq]

/-- **One generation is handed over.** What no other generation lists then had its write refused,
or was pending already and listed by no other one. -/
theorem StagesAll.handedOver {p p' : Pending} {d d' : Disk} {packages failed : List String}
    {j : Journal} (h : StagesAll p d packages failed p' d') (ht : Tree d.nodes)
    (hi : Intact p d.nodes) (hapart : Apart [j] p d.nodes) {x : String} (hx : x ∈ packages) :
    JottedBeside [j] (j.delete d').2.nodes p.folder x ∨ x ∈ failed ∨
      (x ∈ p.packages ∧ ¬ JottedBeside [j] d.nodes p.folder x) := by
  have hpassed := h.passed ht hi
  have hdelete : JottedBeside [j] d'.nodes p.folder x →
      JottedBeside [j] (j.delete d').2.nodes p.folder x :=
    fun hlisted => hlisted.delete hpassed.tree (List.mem_singleton.2 rfl) (List.Subset.refl _)
  rcases h.jottedBeside ht hi hapart hx with hlisted | hfailed | hpending
  · exact .inl (hdelete hlisted)
  · exact .inr (.inl hfailed)
  · by_cases hbefore : JottedBeside [j] d.nodes p.folder x
    · exact .inl (hdelete (hbefore.grows hpassed.grows))
    · exact .inr (.inr ⟨hpending, hbefore⟩)

/-- **A replay misses only packages whose write was refused**, if none of its generations is
current and the packages were not pending before. -/
theorem Replays.jotted {targets : NameSet} {p p' : Pending} {d d' : Disk}
    {journals : List Journal} {failed : List String}
    (h : Replays targets p d journals failed p' d') (ht : Tree d.nodes) (hi : Intact p d.nodes)
    (hnodup : journals.Nodup) (hapart : Apart journals p d.nodes) {x : String} :
    (JottedBeside journals d.nodes p.folder x → Jotted d'.nodes p.folder x) ∧
    (x ∈ targets → x ∉ p.packages → Jotted d.nodes p.folder x →
      Jotted d'.nodes p.folder x ∨ x ∈ failed) := by
  induction h with
  | nil => exact ⟨jottedBeside_nil.1, fun _ _ hlisted => .inl hlisted⟩
  | current hj _ _ => exact absurd hj (hapart _ List.mem_cons_self).1
  | unreadable hread _ _ =>
    obtain ⟨_, content, hmem⟩ := hapart _ List.mem_cons_self
    rw [Journal.packages_of_mem ht hmem] at hread
    cases hread
  | @one p p₁ p' d d₁ d' j rest names failed failed' hj hread hstages _ ih =>
    have hpassed := hstages.passed ht hi
    have hapart₁ := hapart.passed hpassed
    have hnot := (List.nodup_cons.1 hnodup).1
    have htree := (Journal.delete_spares hpassed.tree j).1
    obtain ⟨hkept, hstaged⟩ := ih htree
      (hpassed.intact.delete hpassed.tree (hapart₁ j List.mem_cons_self).1)
      (List.nodup_cons.1 hnodup).2 (hapart₁.delete hpassed.tree hnot)
    rw [hpassed.folder] at hkept hstaged
    have hbeside : JottedBeside (j :: rest) d₁.nodes p.folder x → Jotted d'.nodes p.folder x :=
      fun hlisted => hkept
        (hlisted.delete hpassed.tree List.mem_cons_self (List.subset_cons_self j rest))
    refine ⟨fun hlisted => hbeside (hlisted.grows hpassed.grows), fun htarget hnew hlisted => ?_⟩
    by_cases hx : x ∈ names
    · -- it is staged here
      have hmem : x ∈ names.filter (· ∈ targets) := List.mem_filter.2 ⟨hx, by simpa using htarget⟩
      rcases hstages.jottedBeside ht hi hapart hmem with hlisted | hfailed | hpending
      · exact .inl (hbeside hlisted)
      · exact .inr (List.mem_append_left _ hfailed)
      · exact absurd hpending hnew
    · -- some other generation lists it, and that one is still there
      obtain ⟨name, content, hname, hmem, hlists⟩ := hlisted
      have hother : name :: p.folder ≠ j.path := by
        intro heq
        rw [heq] at hmem
        rw [Journal.packages_of_mem ht hmem] at hread
        cases hread
        exact hx hlists
      have hnew₁ : x ∉ p₁.packages := by
        rw [hstages.mem_packages]
        rintro (hold | hmem)
        · exact hnew hold
        · exact hx (List.mem_filter.1 hmem).1
      obtain ⟨more, hmore⟩ := hpassed.grows _ _ hmem
      have hlisted : Jotted (j.delete d₁).2.nodes p.folder x :=
        ⟨name, _, hname, ((Journal.delete_spares hpassed.tree j).2 _ _ hother).2 hmore,
          (Record.textsOf_prefix content more).subset hlists⟩
      exact (hstaged htarget hnew₁ hlisted).imp_right (List.mem_append_right _)

end Pending

namespace Custody

open Pending

/-! ## States -/

/-- The states that a set over a folder can come to when any creation and any append may be
refused and the disk may change under its hands. -/
inductive Reached (folder : Path) : Custody → Prop
  | start {d : Disk} (ht : Tree d.nodes) : Reached folder (fresh folder d)
  | staged {c : Custody} {packages failed : List String} {pending : Pending} {disk : Disk}
      (h : Reached folder c) (hstages : StagesAll c.pending c.disk packages failed pending disk) :
      Reached folder { c with pending, disk }
  | drained {c : Custody} (h : Reached folder c) : Reached folder (c.act .drain)
  | removed {c : Custody} (package : String) (h : Reached folder c) :
      Reached folder (c.act (.remove package))
  | closed {c : Custody} (number : Nat) (h : Reached folder c) :
      Reached folder { c with passes := c.passes.eraseIdx number }
  /-- Files come and go, but no number is used again, and a current generation that is still
  there is a whole number of records. -/
  | disturbed {c : Custody} {disk : Disk} (replayed : Bool) (h : Reached folder c)
      (ht : Tree disk.nodes) (hserial : c.disk.serial ≤ disk.serial)
      (hintact : Intact c.pending disk.nodes) : Reached folder { c with disk, replayed }

/-- The current generation is whole and no pass has it. -/
structure Proper (folder : Path) (c : Custody) : Prop where
  place : c.pending.folder = folder
  tree : Tree c.disk.nodes
  intact : Intact c.pending c.disk.nodes
  numbered : ∀ j ∈ c.journals, ∃ n, j.path = Journal.nameOf n :: folder ∧ n < c.disk.serial
  apart : ∀ pass ∈ c.passes, ∀ j, pass.journal = some j → c.pending.journal ≠ some j

variable {folder : Path} {c : Custody}

/-- Stagings give a new generation a number that no pass has. -/
theorem Proper.passed (h : Proper folder c) {pending : Pending} {disk : Disk}
    (hpassed : Passed c.pending c.disk pending disk) : Proper folder { c with pending, disk } where
  place := hpassed.folder.trans h.place
  tree := hpassed.tree
  intact := hpassed.intact
  numbered j hj := by
    have hold : j ∈ c.journals → ∃ n, j.path = Journal.nameOf n :: folder ∧ n < disk.serial := by
      intro hj
      obtain ⟨n, hpath, hlt⟩ := h.numbered j hj
      exact ⟨n, hpath, Nat.lt_of_lt_of_le hlt hpassed.serial⟩
    rcases mem_journals.1 hj with hcur | hpass
    · rcases hpassed.fresh j hcur with hcur | ⟨⟨n, hpath, _, hlt⟩, _⟩
      · exact hold (mem_journals.2 (.inl hcur))
      · exact ⟨n, h.place ▸ hpath, hlt⟩
    · exact hold (mem_journals.2 (.inr hpass))
  apart pass hpass j hj hcur := by
    rcases hpassed.fresh j hcur with hcur | ⟨⟨n, hpath, hle, _⟩, _⟩
    · exact h.apart pass hpass j hj hcur
    · -- the pass had its number before the new generation got one
      obtain ⟨m, hpath', hlt⟩ := h.numbered j (mem_journals.2 (.inr ⟨pass, hpass, hj⟩))
      have hname := (List.cons.inj (hpath.symm.trans hpath')).1
      have := Journal.nameOf_injective hname
      omega

theorem Proper.drain (h : Proper folder c) : Proper folder (c.act .drain) where
  place := h.place
  tree := h.tree
  intact j hj := by cases hj
  numbered j hj := by
    refine h.numbered j (mem_journals.2 ?_)
    rcases mem_journals.1 hj with hcur | ⟨pass, hpass, hj⟩
    · cases hcur
    · rcases List.mem_append.1 hpass with hpass | hpass
      · exact .inr ⟨pass, hpass, hj⟩
      · rw [List.mem_singleton.1 hpass] at hj
        exact .inl hj
  apart pass _ j _ hcur := by cases hcur

/-- **The invariant holds in every state**, whatever is refused. -/
theorem Reached.proper (h : Reached folder c) : Proper folder c := by
  induction h with
  | start ht =>
    refine ⟨rfl, ht, fun j hj => ?_, fun j hj => ?_, fun pass hpass => ?_⟩
    · cases hj
    · cases hj
    · cases hpass
  | staged _ hstages ih => exact ih.passed (hstages.passed ih.tree ih.intact)
  | drained _ ih => exact ih.drain
  | removed package _ ih => exact ⟨ih.place, ih.tree, ih.intact, ih.numbered, ih.apart⟩
  | closed number _ ih =>
    refine ⟨ih.place, ih.tree, ih.intact, fun j hj => ih.numbered j (mem_journals.2 ?_),
      fun pass hpass => ih.apart pass (List.mem_of_mem_eraseIdx hpass)⟩
    rcases mem_journals.1 hj with hcur | ⟨pass, hpass, hj⟩
    · exact .inl hcur
    · exact .inr ⟨pass, List.mem_of_mem_eraseIdx hpass, hj⟩
  | disturbed replayed _ ht hserial hintact ih =>
    refine ⟨ih.place, ht, hintact, fun j hj => ?_, ih.apart⟩
    obtain ⟨n, hpath, hlt⟩ := ih.numbered j hj
    exact ⟨n, hpath, Nat.lt_of_lt_of_le hlt hserial⟩

/-- A generation other than the current one is deleted. -/
theorem Reached.deleted (h : Reached folder c) {j : Journal} (hj : c.pending.journal ≠ some j) :
    Reached folder { c with disk := (j.delete c.disk).2 } := by
  have hproper := h.proper
  exact h.disturbed c.replayed (Journal.delete_spares hproper.tree j).1
    (Nat.le_of_eq (Journal.delete_serial j c.disk).symm) (hproper.intact.delete hproper.tree hj)

/-- A replay goes from state to state. -/
theorem Reached.replays {targets : NameSet} {p p' : Pending} {d d' : Disk}
    {journals : List Journal} {failed : List String} {passes : List Drained} {replayed : Bool}
    (h : Reached folder ⟨p, passes, d, replayed⟩)
    (hreplays : Replays targets p d journals failed p' d') :
    Reached folder ⟨p', passes, d', replayed⟩ := by
  induction hreplays with
  | nil => exact h
  | current _ _ ih => exact ih h
  | unreadable _ _ ih => exact ih h
  | @one p p₁ _ d d₁ _ j _ names _ _ hj hread hstages _ ih =>
    refine ih ((h.staged hstages).deleted ?_)
    show p₁.journal ≠ some j
    rcases Journal.file_of_packages hread with ⟨content, hlook⟩ | rfl
    · have hproper := h.proper
      have hapart : Apart [j] p d.nodes :=
        apart_singleton.2 ⟨hj, content, hproper.tree.sight_file_iff.1 hlook⟩
      have hpassed := hstages.passed hproper.tree hproper.intact
      exact (apart_singleton.1 (hapart.passed hpassed)).1
    · -- nothing is staged from a generation that is missing
      cases hstages
      exact hj

/-- The generation of a pass is deleted. -/
theorem Reached.retired (h : Reached folder c) {number : Nat} {pass : Drained}
    (hpass : c.passes[number]? = some pass) :
    Reached folder { c with
      disk := Pending.retire pass c.disk, passes := c.passes.eraseIdx number } := by
  unfold Pending.retire
  cases hj : pass.journal with
  | none => exact h.closed number
  | some j =>
    have hne := h.proper.apart pass (List.mem_of_getElem? hpass) j hj
    exact (h.deleted hne).closed number

/-- **All acts lead to such states**, whatever becomes of their file operations. -/
theorem Reached.act (h : Reached folder c) (a : Act) : Reached folder (c.act a) := by
  have ht := h.proper.tree
  cases a with
  | record package targets =>
    have hstaged := h.staged (restage_stagesAll ht ([package].filter (· ∈ targets)))
    rw [← recordAll_eq_restage] at hstaged
    exact hstaged
  | restage packages => exact h.staged (restage_stagesAll ht packages)
  | drain => exact h.drained
  | finish number success =>
    rw [Custody.act]
    cases hpass : c.passes[number]? with
    | none => exact h
    | some pass =>
      cases success with
      | true => exact h.retired hpass
      | false =>
        have hstaged := h.staged (restage_stagesAll ht pass.packages)
        exact hstaged.retired hpass
  | remove package => exact h.removed package
  | replay targets =>
    have hreplayed := h.replays
      (replayEach_replays ht (Journal.list c.disk c.pending.folder) targets)
    have hproper := hreplayed.proper
    exact hreplayed.disturbed true hproper.tree (Nat.le_refl _) hproper.intact

/-! ## Handovers -/

/-- Whether a generation lists the package. -/
def lists (d : Disk) (package : String) (j : Journal) : Bool :=
  match j.packages d with
  | .ok names => names.contains package
  | .error _ => false

/-- Some generation other than `j` lists the package. -/
def ListedBeside (j : Journal) (d : Disk) (folder : Path) (package : String) : Prop :=
  ∃ other ∈ Journal.list d folder, other ≠ j ∧
    ∃ names, other.packages d = .ok names ∧ package ∈ names

theorem lists_iff {d : Disk} {j : Journal} {x : String} :
    lists d x j = true ↔ ∃ names, j.packages d = .ok names ∧ x ∈ names := by
  unfold lists
  cases j.packages d <;> simp

instance (d : Disk) (folder : Path) (x : String) : Decidable (Listed d folder x) :=
  decidable_of_iff (∃ j ∈ Journal.list d folder, lists d x j = true)
    (by simp only [lists_iff, Listed])

/-- A generation lists a package exactly if its file does. -/
theorem mem_list_lists_iff {d : Disk} (ht : Tree d.nodes) {j : Journal} {x : String} :
    (j ∈ Journal.list d folder ∧ ∃ names, j.packages d = .ok names ∧ x ∈ names) ↔
      ∃ name content, j = ⟨name :: folder⟩ ∧ Journal.isJournalName name = true ∧
        (name :: folder, Node.file content) ∈ d.nodes ∧ x ∈ Record.textsOf content := by
  constructor
  · rintro ⟨hj, names, hread, hx⟩
    obtain ⟨name, content, rfl, hname, hmem⟩ := (Journal.mem_list_iff ht).1 hj
    rw [Journal.packages_of_mem ht hmem] at hread
    cases hread
    exact ⟨name, content, rfl, hname, hmem, hx⟩
  · rintro ⟨name, content, rfl, hname, hmem, hx⟩
    exact ⟨(Journal.mem_list_iff ht).2 ⟨name, content, rfl, hname, hmem⟩, _,
      Journal.packages_of_mem ht hmem, hx⟩

theorem listedBeside_iff {d : Disk} (ht : Tree d.nodes) {j : Journal} {x : String} :
    ListedBeside j d folder x ↔ JottedBeside [j] d.nodes folder x := by
  constructor
  · rintro ⟨other, hother, hne, hlists⟩
    obtain ⟨name, content, rfl, hname, hmem, hx⟩ := (mem_list_lists_iff ht).1 ⟨hother, hlists⟩
    exact ⟨name, content, hname, by simpa using hne, hmem, hx⟩
  · rintro ⟨name, content, hname, hne, hmem, hx⟩
    obtain ⟨hother, hlists⟩ := (mem_list_lists_iff ht).2 ⟨name, content, rfl, hname, hmem, hx⟩
    exact ⟨⟨name :: folder⟩, hother, by simpa using hne, hlists⟩

theorem jotted_of_listed {d : Disk} (ht : Tree d.nodes) {x : String} (h : Listed d folder x) :
    Jotted d.nodes folder x := by
  obtain ⟨j, hj, hlists⟩ := h
  obtain ⟨name, content, rfl, hname, hmem, hx⟩ := (mem_list_lists_iff ht).1 ⟨hj, hlists⟩
  exact ⟨name, content, hname, hmem, hx⟩

/-- What is left when packages of a generation were staged in a state and the generation was
deleted. -/
structure HandedOver (folder : Path) (c : Custody) (j : Journal) (packages failed : List String)
    (pending : Pending) (disk : Disk) : Prop where
  deleted : j ∉ Journal.list disk folder
  pending : ∀ x ∈ packages, x ∈ pending.packages
  /-- Another generation lists the package, unless its write was refused, or it was pending
  already, so that it was not written, and no other generation listed it. -/
  listed : ∀ x ∈ packages, ListedBeside j disk folder x ∨ x ∈ failed ∨
    (x ∈ c.pending.packages ∧ ¬ ListedBeside j c.disk folder x)

theorem Proper.handedOver (h : Proper folder c) {j : Journal} {packages failed : List String}
    {pending : Pending} {disk : Disk} (hlist : j ∈ Journal.list c.disk folder)
    (hj : c.pending.journal ≠ some j)
    (hstages : StagesAll c.pending c.disk packages failed pending disk) :
    HandedOver folder c j packages failed pending (j.delete disk).2 := by
  obtain ⟨name, content, rfl, hname, hmem⟩ := (Journal.mem_list_iff h.tree).1 hlist
  have hapart : Apart [⟨name :: folder⟩] c.pending c.disk.nodes :=
    apart_singleton.2 ⟨hj, content, hmem⟩
  have hpassed := hstages.passed h.tree h.intact
  obtain ⟨more, hmore⟩ := hpassed.grows _ _ hmem
  obtain ⟨d', hdelete, hnodes, ht', _⟩ :=
    @Journal.delete_of_mem _ hpassed.tree ⟨name :: folder⟩ _ hmore
  refine ⟨fun hlisted => ?_, fun x hx => hstages.mem_packages.2 (.inr hx), fun x hx => ?_⟩
  · rw [hdelete] at hlisted
    obtain ⟨_, _, heq, _, hfile⟩ := (Journal.mem_list_iff ht').1 hlisted
    rw [hnodes, mem_without] at hfile
    exact hfile.2 (congrArg Journal.path heq).symm
  · have htree := (Journal.delete_spares hpassed.tree ⟨name :: folder⟩).1
    have hover := hstages.handedOver h.tree h.intact hapart hx
    rw [h.place] at hover
    rwa [listedBeside_iff htree, listedBeside_iff h.tree]

/-- **What is not listed after a handover.** In every state that a set can come to, whichever
creations and appends are refused: when a failed pass is closed, and when a leftover generation
has its turn in a replay, the generation is deleted, its packages are pending, and each is listed
by another generation, unless its write was refused, or it was pending already and listed by no
other generation. A replay by a new set misses only packages whose write was refused. What the
set does on a disk is of this kind, and a replay goes from state to state. -/
theorem handover_accounted (h : Reached folder c) :
    (∀ pass ∈ c.passes, ∀ j ∈ Journal.list c.disk folder, pass.journal = some j →
      ∀ failed pending disk, StagesAll c.pending c.disk pass.packages failed pending disk →
        HandedOver folder c j pass.packages failed pending (Pending.retire pass disk)) ∧
    (∀ j ∈ Journal.list c.disk folder, c.pending.journal ≠ some j →
      ∀ names (targets : NameSet) failed pending disk, j.packages c.disk = .ok names →
        StagesAll c.pending c.disk (names.filter (· ∈ targets)) failed pending disk →
        HandedOver folder c j (names.filter (· ∈ targets)) failed pending (j.delete disk).2) ∧
    (∀ targets failed pending disk, (∀ x, x ∉ c.pending.packages) → c.pending.journal = none →
      Replays targets c.pending c.disk (Journal.list c.disk folder) failed pending disk →
      ∀ x ∈ targets, Listed c.disk folder x → Listed disk folder x ∨ x ∈ failed) ∧
    (∀ pass, ∃ disk,
      StagesAll c.pending c.disk pass.packages (c.pending.refused pass.packages c.disk)
        (c.pending.finish pass false c.disk).1 disk ∧
      (c.pending.finish pass false c.disk).2 = Pending.retire pass disk) ∧
    (∀ targets, Replays targets c.pending c.disk (Journal.list c.disk folder)
      (c.pending.refusedEach (Journal.list c.disk folder) targets c.disk)
      (c.pending.replay targets c.disk).2.1 (c.pending.replay targets c.disk).2.2) ∧
    (∀ targets journals failed pending disk,
      Replays targets c.pending c.disk journals failed pending disk →
      Reached folder { c with pending, disk }) := by
  have hproper := h.proper
  refine ⟨fun pass hpass j hlist hj failed pending disk hstages => ?_,
    fun j hlist hj names targets failed pending disk _ hstages => ?_,
    fun targets failed pending disk hempty hnone hreplays x htarget hlisted => ?_,
    fun pass => ⟨_, restage_stagesAll hproper.tree pass.packages, rfl⟩, fun targets => ?_,
    fun targets journals failed pending disk hreplays => h.replays hreplays⟩
  · have hover := hproper.handedOver hlist (hproper.apart pass hpass j hj) hstages
    rwa [Pending.retire, hj]
  · exact hproper.handedOver hlist hj hstages
  · have hapart : Apart (Journal.list c.disk folder) c.pending c.disk.nodes := by
      intro j hj
      obtain ⟨name, content, rfl, _, hmem⟩ := (Journal.mem_list_iff hproper.tree).1 hj
      exact ⟨by simp [hnone], content, hmem⟩
    have hjotted := hreplays.jotted hproper.tree hproper.intact
      (Journal.list_nodup hproper.tree folder) hapart (x := x)
    rw [hproper.place] at hjotted
    have htree := (h.replays hreplays).proper.tree
    exact (hjotted.2 htarget (hempty x) (jotted_of_listed hproper.tree hlisted)).imp_left
      (listed_of_jotted htree)
  · rw [Pending.replay, hproper.place]
    exact replayEach_replays hproper.tree _ targets

theorem act_finish_disk {number : Nat} {pass : Drained} (hpass : c.passes[number]? = some pass)
    (success : Bool) :
    (c.act (.finish number success)).disk = (c.pending.finish pass success c.disk).2 := by
  simp only [act, hpass]

/-- A set with a pending package and an unfinished pass of two. -/
def busy : Custody :=
  let targets := NameSet.ofList ["com.a", "com.b", "com.c"]
  ((((fresh ["pending"] {}).act (.record "com.a" targets)).act (.record "com.b" targets)).act
    .drain).act (.record "com.c" targets)

/-- A folder takes the place of the current generation, so the next append is refused. -/
def obstructed : Custody :=
  let current : Journal := ⟨[Journal.nameOf 1, "pending"]⟩
  { busy with disk := ((current.delete busy.disk).2.makeFolders current.path).2 }

theorem reached_obstructed : Reached ["pending"] obstructed := by
  have hbusy : Reached ["pending"] busy := by
    unfold busy
    exact ((((Reached.start tree_nil).act _).act _).act _).act _
  have ht : Tree obstructed.disk.nodes :=
    (makeFolders_spec (Journal.delete_spares hbusy.proper.tree _).1 _).tree
  refine hbusy.disturbed busy.replayed ht (by decide +kernel) fun j hj => ?_
  have hcurrent : busy.pending.journal = some ⟨[Journal.nameOf 1, "pending"]⟩ := by
    decide +kernel
  obtain rfl := Option.some.inj (hcurrent.symm.trans hj)
  refine ⟨⟨_, rfl, Journal.isJournalName_nameOf 1⟩, fun bytes hmem => ?_⟩
  have hfolder : sight obstructed.disk.nodes [Journal.nameOf 1, "pending"] = .folder := by
    decide +kernel
  rw [ht.sight_file_iff.2 hmem] at hfolder
  cases hfolder

/-- Of the two packages of the pass, the first is refused; the second is written to a new
generation. -/
theorem handover_accounted_obstructed :
    Reached ["pending"] obstructed ∧
      ListedBeside ⟨[Journal.nameOf 0, "pending"]⟩ (obstructed.act (.finish 0 false)).disk
        ["pending"] "com.b" := by
  obtain ⟨hclosed, _, _, hfinish, _⟩ := handover_accounted reached_obstructed
  let pass : Drained := ⟨["com.a", "com.b"], some ⟨[Journal.nameOf 0, "pending"]⟩⟩
  have hpass : obstructed.passes[0]? = some pass := by decide +kernel
  obtain ⟨disk, hstages, hdisk⟩ := hfinish pass
  have hover := hclosed pass (List.mem_of_getElem? hpass)
    ⟨[Journal.nameOf 0, "pending"]⟩ (by decide +kernel) rfl _ _ _ hstages
  rw [← hdisk] at hover
  refine ⟨reached_obstructed, ?_⟩
  rcases hover.listed "com.b" (by decide) with hlisted | hrefused | ⟨hpending, _⟩
  · rwa [act_finish_disk hpass]
  · exact absurd hrefused (by decide +kernel)
  · exact absurd hpending (by decide +kernel)

/-- A set with one pending package. -/
def started : Custody := (fresh ["pending"] {}).act (.record "com.a" (.ofList ["com.a"]))

/-- Its next write is refused, so the generation that lists the package is no longer current. -/
def abandoned : Custody :=
  { started with pending :=
    { started.pending with
      packages := started.pending.packages.insert "com.b", journal := none } }

theorem reached_abandoned : Reached ["pending"] abandoned := by
  have hstarted : Reached ["pending"] started := (Reached.start tree_nil).act _
  have hjournal : started.pending.journal = some ⟨[Journal.nameOf 0, "pending"]⟩ := by
    decide +kernel
  have hstages : StagesAll started.pending started.disk ["com.b"] ["com.b"]
      { started.pending with
        packages := started.pending.packages.insert "com.b", journal := none } started.disk :=
    .new (by decide +kernel)
      (.notAdded hjournal ⟨hstarted.proper.tree, .refl _, Nat.le_refl _⟩) .nil
  exact hstarted.staged hstages

/-- **Two ways to leave a package in memory only.** A pass fails, its package is refused, and its
generation is deleted all the same. And a replay deletes the generation of a package that is
pending already, without a write that could be refused. -/
theorem refused_write_unlists :
    (Reached ["pending"] obstructed ∧
      obstructed.passes = [⟨["com.a", "com.b"], some ⟨[Journal.nameOf 0, "pending"]⟩⟩] ∧
      Listed obstructed.disk ["pending"] "com.a" ∧
      "com.a" ∈ (obstructed.act (.finish 0 false)).pending.packages ∧
      ¬ Listed (obstructed.act (.finish 0 false)).disk ["pending"] "com.a") ∧
    (Reached ["pending"] abandoned ∧ Listed abandoned.disk ["pending"] "com.a" ∧
      abandoned.pending.refusedEach (Journal.list abandoned.disk ["pending"])
        (.ofList ["com.a"]) abandoned.disk = [] ∧
      "com.a" ∈ (abandoned.act (.replay (.ofList ["com.a"]))).pending.packages ∧
      ¬ Listed (abandoned.act (.replay (.ofList ["com.a"]))).disk ["pending"] "com.a") := by
  refine ⟨⟨reached_obstructed, ?_⟩, ⟨reached_abandoned, ?_⟩⟩
  · decide +kernel
  · decide +kernel

end Custody

end Holdfast
