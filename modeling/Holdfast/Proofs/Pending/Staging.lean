import Holdfast.Pending
import Holdfast.Proofs.Journal

/-!
# What staging does to the journals

A staged package goes to the end of the current generation, which is made where nothing stood
if there is none. So no other generation is touched, and at no point on the way does a
package disappear from the journals.

- `Pending.Jotted`: some journal file of the folder lists a package;
- `Pending.Current`: the current generation lists every pending package;
- `Pending.Kept`: what a run of successful stagings keeps, closed under composition; `stage`,
  `restage` and `recordAll` keep it (`stage_kept`, `restage_kept`, `recordAll_kept`);
- `Pending.Aside`: a generation that is not the current one is left alone even by stagings
  that fail (`stage_aside`).
-/

namespace Holdfast.Pending

open Disk

/-! ## What the journals list -/

/-- Some journal file of the folder lists the package. -/
def Jotted (nodes : Listing) (folder : Path) (package : String) : Prop :=
  ∃ name content, Journal.isJournalName name = true ∧
    (name :: folder, Node.file content) ∈ nodes ∧ package ∈ Record.textsOf content

/-- The listing is a tree, and every package of `held` is listed by some journal file. -/
def Safe (folder : Path) (held : String → Prop) (nodes : Listing) : Prop :=
  Tree nodes ∧ ∀ package, held package → Jotted nodes folder package

theorem Safe.mono {folder : Path} {held held' : String → Prop} {nodes : Listing}
    (h : Safe folder held nodes) (hsub : ∀ package, held' package → held package) :
    Safe folder held' nodes :=
  ⟨h.1, fun package hp => h.2 package (hsub package hp)⟩

/-- Files that are still there go on listing what they list. -/
theorem Safe.of_sparesAll {folder : Path} {held : String → Prop} {nodes nodes' : Listing}
    (h : Safe folder held nodes) (ht : Tree nodes') (hspares : SparesAll nodes nodes') :
    Safe folder held nodes' := by
  refine ⟨ht, fun package hp => ?_⟩
  obtain ⟨name, content, hname, hmem, hlists⟩ := h.2 package hp
  exact ⟨name, content, hname, (hspares _ _).2 hmem, hlists⟩

/-- A generation that grows goes on listing what it lists. -/
theorem Safe.grow {folder : Path} {held : String → Prop} {nodes : Listing}
    (h : Safe folder held nodes) {path : Path} {old more : Bytes} {names : List String}
    (hold : (path, Node.file old) ∈ nodes) (hnames : Record.putTexts names = .ok old) :
    Safe folder held (withNode nodes path (.file (old ++ more))) := by
  refine ⟨h.1.withFile hold, fun package hp => ?_⟩
  obtain ⟨name, content, hname, hmem, hlists⟩ := h.2 package hp
  by_cases heq : name :: folder = path
  · subst heq
    have hcontent : Node.file content = Node.file old :=
      Option.some.inj ((h.1.node?_iff.2 hmem).symm.trans (h.1.node?_iff.2 hold))
    cases hcontent
    refine ⟨name, _, hname, mem_withNode.2 (.inl rfl), ?_⟩
    have hread := Record.textsOf_putTexts hnames []
    rw [List.append_nil] at hread
    rw [Record.textsOf_putTexts hnames, List.mem_append]
    rw [hread] at hlists
    simpa [Record.textsOf, Record.Reader.texts, Record.Reader.textsOnto] using Or.inl hlists
  · exact ⟨name, content, hname, mem_withNode.2 (.inr ⟨hmem, heq⟩), hlists⟩

/-- A generation of the folder is a whole number of records that list every package of `held`;
where there is no generation, no package is held. -/
def Covers (folder : Path) (journal : Option Journal) (held : String → Prop)
    (nodes : Listing) : Prop :=
  match journal with
  | none => ∀ package, ¬ held package
  | some j => ∃ name names bytes, j.path = name :: folder ∧
      Journal.isJournalName name = true ∧ Record.putTexts names = .ok bytes ∧
      (j.path, Node.file bytes) ∈ nodes ∧ ∀ package, held package → package ∈ names

/-- The current generation lists every pending package. -/
def Current (p : Pending) (nodes : Listing) : Prop :=
  Covers p.folder p.journal (· ∈ p.packages) nodes

/-- The file of a generation. -/
theorem Covers.mem {folder : Path} {j : Journal} {held : String → Prop} {nodes : Listing}
    (h : Covers folder (some j) held nodes) : ∃ name content, j.path = name :: folder ∧
      Journal.isJournalName name = true ∧ (j.path, Node.file content) ∈ nodes := by
  obtain ⟨name, _, bytes, hpath, hname, _, hmem, _⟩ := h
  exact ⟨name, bytes, hpath, hname, hmem⟩

theorem Covers.mono {folder : Path} {journal : Option Journal} {held held' : String → Prop}
    {nodes : Listing} (h : Covers folder journal held nodes)
    (hsub : ∀ package, held' package → held package) : Covers folder journal held' nodes := by
  cases journal with
  | none => exact fun package hp => h package (hsub package hp)
  | some j =>
    obtain ⟨name, names, bytes, hpath, hname, hnames, hmem, hlists⟩ := h
    exact ⟨name, names, bytes, hpath, hname, hnames, hmem,
      fun package hp => hlists package (hsub package hp)⟩

/-- A generation that is left alone goes on listing what it lists. -/
theorem Covers.of_spared {folder : Path} {journal : Option Journal} {held : String → Prop}
    {nodes nodes' : Listing} (h : Covers folder journal held nodes)
    (hspares : ∀ j, journal = some j → ∀ content,
      (j.path, Node.file content) ∈ nodes → (j.path, Node.file content) ∈ nodes') :
    Covers folder journal held nodes' := by
  cases journal with
  | none => exact h
  | some j =>
    obtain ⟨name, names, bytes, hpath, hname, hnames, hmem, hlists⟩ := h
    exact ⟨name, names, bytes, hpath, hname, hnames, hspares j rfl bytes hmem, hlists⟩

/-- What a generation covers is listed. -/
theorem Covers.jotted {folder : Path} {journal : Option Journal} {held : String → Prop}
    {nodes : Listing} (h : Covers folder journal held nodes) {package : String}
    (hp : held package) : Jotted nodes folder package := by
  cases journal with
  | none => exact absurd hp (h package)
  | some j =>
    obtain ⟨name, names, bytes, hpath, hname, hnames, hmem, hlists⟩ := h
    refine ⟨name, bytes, hname, hpath ▸ hmem, ?_⟩
    have hread := Record.textsOf_putTexts hnames []
    rw [List.append_nil] at hread
    rw [hread]
    exact List.mem_append_left _ (hlists package hp)

/-! ## Success -/

/-- Every file operation of a write succeeds. A name that is too long for a record counts as
refused. -/
def writes (p : Pending) (package : String) (d : Disk) : Bool :=
  match p.journal with
  | some j => (j.add package d).1.isOk
  | none =>
    match Journal.create d p.folder with
    | (.error _, _) => false
    | (.ok j, d) => (j.add package d).1.isOk

/-- Every file operation of a staging succeeds. -/
def Stages (p : Pending) (package : String) (d : Disk) : Prop :=
  package ∈ p.packages ∨ p.writes package d = true

/-- Every file operation succeeds when several packages are staged. -/
def Restages (p : Pending) (packages : List String) (d : Disk) : Prop :=
  match packages with
  | [] => True
  | package :: rest =>
    p.Stages package d ∧
      (p.stage package d).2.1.Restages rest (p.stage package d).2.2

/-- Every file operation succeeds when those of several packages that may be announced are
staged. -/
def RecordsAll (p : Pending) (packages : List String) (targets : NameSet) (d : Disk) : Prop :=
  match packages with
  | [] => True
  | package :: rest =>
    (package ∈ targets → p.Stages package d) ∧
      (p.record package targets d).2.1.RecordsAll rest targets (p.record package targets d).2.2

/-! ## What successful stagings keep -/

/-- What a run of successful stagings keeps. -/
structure Kept (p : Pending) (d : Disk) (p' : Pending) (d' : Disk) : Prop where
  tree : Tree d'.nodes
  current : Current p' d'.nodes
  folder : p'.folder = p.folder
  journal : ∀ j, p.journal = some j → p'.journal = some j
  fresh : ∀ j, p'.journal = some j →
    p.journal = some j ∨ ∀ content, (j.path, Node.file content) ∉ d.nodes
  spares : ∀ path, p'.journal ≠ some ⟨path⟩ → ∀ content,
    (path, Node.file content) ∈ d'.nodes ↔ (path, Node.file content) ∈ d.nodes
  safe : ∀ held, Safe p.folder held d.nodes → Safe p.folder held d'.nodes
  guarded : ∀ held, Safe p.folder held d.nodes → Guarded (Safe p.folder held) d d'

theorem Kept.refl {p : Pending} {d : Disk} (ht : Tree d.nodes) (hc : Current p d.nodes) :
    Kept p d p d :=
  ⟨ht, hc, rfl, fun _ h => h, fun _ h => .inl h, fun _ _ _ => Iff.rfl, fun _ h => h,
    fun _ _ => .refl⟩

theorem Kept.trans {p p' p'' : Pending} {d d' d'' : Disk} (h : Kept p d p' d')
    (h' : Kept p' d' p'' d'') : Kept p d p'' d'' where
  tree := h'.tree
  current := h'.current
  folder := h'.folder.trans h.folder
  journal j hj := h'.journal j (h.journal j hj)
  fresh j hj := by
    rcases h'.fresh j hj with hj' | hfree
    · exact h.fresh j hj'
    · right
      intro content hmem
      by_cases hj' : p'.journal = some j
      · have hcurrent := h.current
        rw [Current, hj'] at hcurrent
        obtain ⟨_, content', _, _, hmem'⟩ := hcurrent.mem
        exact hfree content' hmem'
      · exact hfree content ((h.spares j.path hj' content).2 hmem)
  spares path hne content := by
    have hne' : p'.journal ≠ some ⟨path⟩ := fun heq => hne (h'.journal _ heq)
    exact (h'.spares path hne content).trans (h.spares path hne' content)
  safe held hs := by
    have := h'.safe held
    rw [h.folder] at this
    exact this (h.safe held hs)
  guarded held hs := by
    have := h'.guarded held
    rw [h.folder] at this
    exact (h.guarded held hs).trans (this (h.safe held hs))

/-! ## Stagings -/

/-- Writing leaves the pending packages as they are. -/
@[simp] theorem write_packages (p : Pending) (package : String) (d : Disk) :
    (p.write package d).1.packages = p.packages := by
  unfold write
  split
  · split <;> rfl
  · split
    · rfl
    · split <;> rfl

@[simp] theorem mem_stage {p : Pending} {package x : String} {d : Disk} :
    x ∈ (p.stage package d).2.1.packages ↔ x = package ∨ x ∈ p.packages := by
  unfold stage
  split
  · rename_i h
    exact ⟨.inr, fun hx => hx.elim (fun heq => heq ▸ h) id⟩
  · simp

theorem mem_restage {p : Pending} {packages : List String} {x : String} {d : Disk} :
    x ∈ (p.restage packages d).1.packages ↔ x ∈ p.packages ∨ x ∈ packages := by
  induction packages generalizing p d with
  | nil => simp [restage]
  | cons package rest ih =>
    rw [restage]
    simp only [ih, mem_stage, List.mem_cons, or_assoc]
    exact or_left_comm

theorem mem_record {p : Pending} {package x : String} {targets : NameSet} {d : Disk} :
    x ∈ (p.record package targets d).2.1.packages ↔
      (x = package ∧ package ∈ targets) ∨ x ∈ p.packages := by
  unfold record
  split
  · rename_i h
    simp [h]
  · rename_i h
    simp [h]

theorem mem_recordAll {p : Pending} {packages : List String} {targets : NameSet} {x : String}
    {d : Disk} : x ∈ (p.recordAll packages targets d).1.packages ↔
      x ∈ p.packages ∨ (x ∈ packages ∧ x ∈ targets) := by
  induction packages generalizing p d with
  | nil => simp [recordAll]
  | cons package rest ih =>
    rw [recordAll]
    simp only [ih, mem_record, List.mem_cons]
    constructor
    · rintro ((⟨rfl, h⟩ | h) | h)
      · exact .inr ⟨.inl rfl, h⟩
      · exact .inl h
      · exact .inr ⟨.inr h.1, h.2⟩
    · rintro (h | ⟨rfl | h, h'⟩)
      · exact .inl (.inr h)
      · exact .inl (.inl ⟨rfl, h'⟩)
      · exact .inr ⟨h, h'⟩

/-- A new generation is made for a set without pending packages. -/
theorem create_kept {p : Pending} {d d' : Disk} {j : Journal} (ht : Tree d.nodes)
    (hnone : p.journal = none) (hc : Current p d.nodes)
    (h : Journal.create d p.folder = (.ok j, d')) :
    Kept p d { p with journal := some j } d' := by
  simp only [Current, Covers, hnone] at hc
  rcases Journal.create_cases ht p.folder with
    ⟨n, d₁, heq, hfree, ht₁, hmem, hspares, hguard⟩ | ⟨_, _, heq, _⟩
  · rw [h] at heq
    cases heq
    have hsafe : ∀ held, Safe p.folder held d.nodes → Safe p.folder held d'.nodes := by
      intro held hs
      refine ⟨ht₁, fun package hp => ?_⟩
      obtain ⟨name, content, hname, hmem', hlists⟩ := hs.2 package hp
      refine ⟨name, content, hname, (hspares _ _ fun heq => ?_).2 hmem', hlists⟩
      exact hfree content (heq ▸ hmem')
    refine ⟨ht₁, ?_, rfl, fun j hj => ?_, fun j hj => ?_, fun path hne content => ?_, hsafe,
      fun held hs => ?_⟩
    · exact ⟨_, [], [], rfl, Journal.isJournalName_nameOf n, rfl, hmem,
        fun package hp => absurd hp (hc package)⟩
    · rw [hnone] at hj
      cases hj
    · cases hj
      exact .inr hfree
    · refine hspares path content fun heq => hne ?_
      rw [heq]
    · exact hguard _ fun nodes ht' hspares' => hs.of_sparesAll ht' hspares'
  · rw [h] at heq
    cases heq

/-- A package is written to the current generation. -/
theorem add_kept {p : Pending} {d d' : Disk} {j : Journal} {package : String}
    (ht : Tree d.nodes) (hj : p.journal = some j) (hc : Current p d.nodes)
    (h : j.add package d = (.ok (), d')) :
    Kept p d { p with packages := p.packages.insert package } d' := by
  simp only [Current, Covers, hj] at hc
  obtain ⟨name, names, old, hpath, hname, hnames, hmem, hlists⟩ := hc
  rcases Journal.add_cases ht j package hmem with
    ⟨bytes, d₁, heq, hbytes, hnodes, hguard⟩ | ⟨_, heq⟩
  · rw [h] at heq
    cases heq
    refine ⟨?_, ?_, rfl, fun _ hj' => hj', fun _ hj' => .inl hj', fun path hne content => ?_,
      fun held hs => ?_, fun held hs => ?_⟩
    · rw [hnodes]
      exact ht.withFile hmem
    · simp only [Current, Covers, hj]
      refine ⟨name, names ++ [package], old ++ bytes, hpath, hname,
        Record.putTexts_concat hnames hbytes, ?_, fun x hx => ?_⟩
      · rw [hnodes]
        exact mem_withNode.2 (.inl rfl)
      · rw [List.mem_append, List.mem_singleton]
        rcases NameSet.mem_insert.1 hx with rfl | hx
        · exact .inr rfl
        · exact .inl (hlists x hx)
    · rw [hnodes]
      refine spares_withNode _ _ _ path content fun heq => hne ?_
      rw [heq]
      exact hj
    · rw [hnodes]
      exact hs.grow hmem hnames
    · exact hguard _ hs fun arrived => hs.grow hmem hnames
  · rw [h] at heq
    cases heq

/-- Staging one package keeps everything else. -/
theorem stage_kept {p : Pending} {d : Disk} {package : String} (ht : Tree d.nodes)
    (hc : Current p d.nodes) (hok : p.Stages package d) :
    Kept p d (p.stage package d).2.1 (p.stage package d).2.2 := by
  unfold stage
  split
  · exact .refl ht hc
  · rename_i hnew
    replace hok := hok.resolve_left hnew
    simp only
    cases hj : p.journal with
    | some j =>
      simp only [writes, hj] at hok
      rcases hadd : j.add package d with ⟨_ | _, d'⟩
      · rw [hadd] at hok
        cases hok
      · simp only [write, hadd]
        exact hj ▸ add_kept ht hj hc hadd
    | none =>
      simp only [writes, hj] at hok
      rcases hcreate : Journal.create d p.folder with ⟨_ | j, d₁⟩
      · rw [hcreate] at hok
        cases hok
      · rw [hcreate] at hok
        rcases hadd : j.add package d₁ with ⟨_ | _, d'⟩
        · simp only [hadd] at hok
          cases hok
        · simp only [write, hcreate, hadd]
          have hmade := create_kept ht hj hc hcreate
          exact hmade.trans (add_kept hmade.tree rfl hmade.current hadd)

theorem restage_kept {p : Pending} {d : Disk} {packages : List String} (ht : Tree d.nodes)
    (hc : Current p d.nodes) (hok : p.Restages packages d) :
    Kept p d (p.restage packages d).1 (p.restage packages d).2 := by
  induction packages generalizing p d with
  | nil => exact .refl ht hc
  | cons package rest ih =>
    have hfirst := stage_kept ht hc hok.1
    exact hfirst.trans (ih hfirst.tree hfirst.current hok.2)

theorem record_kept {p : Pending} {d : Disk} {package : String} {targets : NameSet}
    (ht : Tree d.nodes) (hc : Current p d.nodes) (hok : package ∈ targets → p.Stages package d) :
    Kept p d (p.record package targets d).2.1 (p.record package targets d).2.2 := by
  unfold record
  split
  · rename_i htarget
    exact stage_kept ht hc (hok htarget)
  · exact .refl ht hc

theorem recordAll_kept {p : Pending} {d : Disk} {packages : List String} {targets : NameSet}
    (ht : Tree d.nodes) (hc : Current p d.nodes) (hok : p.RecordsAll packages targets d) :
    Kept p d (p.recordAll packages targets d).1 (p.recordAll packages targets d).2 := by
  induction packages generalizing p d with
  | nil => exact .refl ht hc
  | cons package rest ih =>
    have hfirst := record_kept ht hc hok.1
    exact hfirst.trans (ih hfirst.tree hfirst.current hok.2)

/-! ## Stagings that may fail -/

/-- A file that is not the current generation. -/
def Aside (p : Pending) (d : Disk) (path : Path) (content : Bytes) : Prop :=
  p.journal ≠ some ⟨path⟩ ∧ (path, Node.file content) ∈ d.nodes

/-- Writing leaves a file aside, whether it succeeds or not. -/
theorem write_aside {p : Pending} {d : Disk} {path : Path} {content : Bytes} (package : String)
    (ht : Tree d.nodes) (h : p.Aside d path content) :
    Tree (p.write package d).2.nodes ∧
      (p.write package d).1.Aside (p.write package d).2 path content := by
  obtain ⟨hne, hmem⟩ := h
  unfold write
  cases hj : p.journal with
  | some j =>
    obtain ⟨ht', hspares⟩ := Journal.add_spares ht j package
    have hpath : path ≠ j.path := by
      rintro rfl
      exact hne hj
    simp only
    split
    · rename_i hadd
      rw [hadd] at ht' hspares
      exact ⟨ht', hne, (hspares path content hpath).2 hmem⟩
    · rename_i hadd
      rw [hadd] at ht' hspares
      exact ⟨ht', by simp, (hspares path content hpath).2 hmem⟩
  | none =>
    simp only
    rcases Journal.create_cases ht p.folder with
      ⟨n, d₁, hcreate, hfree, ht₁, _, hspares₁, _⟩ | ⟨e, d₁, hcreate, ht₁, hspares₁⟩
    · rw [hcreate]
      have hpath : path ≠ Journal.nameOf n :: p.folder := by
        rintro rfl
        exact hfree content hmem
      have hmem₁ := (hspares₁ path content hpath).2 hmem
      obtain ⟨ht', hspares⟩ := Journal.add_spares ht₁ ⟨Journal.nameOf n :: p.folder⟩ package
      simp only
      split
      · rename_i hadd
        rw [hadd] at ht' hspares
        refine ⟨ht', ?_, (hspares path content hpath).2 hmem₁⟩
        simpa using Ne.symm hpath
      · rename_i hadd
        rw [hadd] at ht' hspares
        exact ⟨ht', hne, (hspares path content hpath).2 hmem₁⟩
    · rw [hcreate]
      exact ⟨ht₁, hne, (hspares₁ path content).2 hmem⟩

theorem stage_aside {p : Pending} {d : Disk} {path : Path} {content : Bytes} (package : String)
    (ht : Tree d.nodes) (h : p.Aside d path content) :
    Tree (p.stage package d).2.2.nodes ∧
      (p.stage package d).2.1.Aside (p.stage package d).2.2 path content := by
  unfold stage
  split
  · exact ⟨ht, h⟩
  · exact write_aside (p := { p with packages := p.packages.insert package }) package ht h

theorem recordAll_aside {p : Pending} {d : Disk} {path : Path} {content : Bytes}
    (packages : List String) (targets : NameSet) (ht : Tree d.nodes)
    (h : p.Aside d path content) :
    Tree (p.recordAll packages targets d).2.nodes ∧
      (p.recordAll packages targets d).1.Aside (p.recordAll packages targets d).2 path
        content := by
  induction packages generalizing p d with
  | nil => exact ⟨ht, h⟩
  | cons package rest ih =>
    have hfirst : Tree (p.record package targets d).2.2.nodes ∧
        (p.record package targets d).2.1.Aside (p.record package targets d).2.2 path content := by
      unfold record
      split
      · exact stage_aside package ht h
      · exact ⟨ht, h⟩
    exact ih hfirst.1 hfirst.2

end Holdfast.Pending
