import Holdfast.Proofs.Disk.Files
import Holdfast.Proofs.Pending.Staging

/-!
# When journals refuse a write

A package whose write is refused is pending all the same, and the next one gets a new
generation. This module says what becomes of the journals when any creation and any append may
be refused.

- `Pending.Writes`, `Pending.StagesAll`: writing and staging when file operations may be refused,
  with the packages whose write was; what the set does on a disk is of this kind
  (`write_writes`, `restage_stagesAll`);
- `Pending.Passed`: what stagings keep whether or not their writes are refused;
- `Pending.JottedBeside`: some generation lists a package, other than those that are to go;
- `Pending.StagesAll.jottedBeside`: **a package that is staged is listed by another generation,
  or its write was refused, or it was pending already.**
-/

namespace Holdfast

/-! ## Files and the numbers of generations -/

namespace Disk

/-- A file of a tree has one content. -/
theorem Tree.file_unique {nodes : Listing} (ht : Tree nodes) {path : Path} {a b : Bytes}
    (ha : (path, Node.file a) ∈ nodes) (hb : (path, Node.file b) ∈ nodes) : a = b :=
  Sight.file.inj ((ht.sight_file_iff.2 ha).symm.trans (ht.sight_file_iff.2 hb))

theorem perform_serial (d : Disk) (effect : Effect) : (d.perform effect).2.serial = d.serial := by
  rcases perform_cases d effect with ⟨_, _, heq⟩ | ⟨_, _, heq⟩ <;> rw [heq]

theorem makeFolders_serial (d : Disk) (path : Path) : (d.makeFolders path).2.serial = d.serial := by
  induction path with
  | nil => rfl
  | cons name up ih =>
    rw [makeFolders]
    split
    · rfl
    · rfl
    · rfl
    · rcases hup : d.makeFolders up with ⟨outcome, d₁⟩
      rw [hup] at ih
      cases outcome with
      | error refusal => exact ih
      | ok _ => exact (perform_serial d₁ _).trans ih

theorem appendFile_serial (d : Disk) (path : Path) (content : Bytes) :
    (d.appendFile path content).2.serial = d.serial := by
  rw [appendFile]
  split
  · rcases hcreate : d.perform (.createFile path) with ⟨outcome, d₁⟩
    have hserial := perform_serial d (.createFile path)
    rw [hcreate] at hserial
    cases outcome with
    | error refusal => exact hserial
    | ok _ => exact (perform_serial d₁ _).trans hserial
  · exact perform_serial d _

end Disk

namespace Journal

theorem le_firstFree (taken : List String) (n fuel : Nat) : n ≤ firstFree taken n fuel := by
  induction fuel generalizing n with
  | zero => exact Nat.le_refl n
  | succ fuel ih =>
    rw [firstFree]
    split
    · exact Nat.le_of_succ_le (ih (n + 1))
    · exact Nat.le_refl n

/-- A generation is numbered from the numbers that are not used up, and uses its number up. -/
theorem create_serial (d : Disk) (folder : Path) :
    d.serial ≤ (create d folder).2.serial ∧ ∀ j, (create d folder).1 = .ok j →
      ∃ n, j.path = nameOf n :: folder ∧ d.serial ≤ n ∧ n < (create d folder).2.serial := by
  have hfolders := Disk.makeFolders_serial d folder
  rw [create, Store.makeFolders]
  rcases hmade : d.makeFolders folder with ⟨outcome, d₁⟩
  rw [hmade] at hfolders
  cases outcome with
  | error refusal =>
    refine ⟨Nat.le_of_eq hfolders.symm, fun j hj => ?_⟩
    cases hj
  | ok _ =>
    simp only [Store.toFault]
    generalize hn : firstFree ((d₁.children folder).map (·.1)) d₁.serial
      (((d₁.children folder).map (·.1)).length + 1) = n
    have hle : d.serial ≤ n := by
      have := le_firstFree ((d₁.children folder).map (·.1)) d₁.serial
        (((d₁.children folder).map (·.1)).length + 1)
      rw [hn] at this
      exact hfolders ▸ this
    have hserial := Disk.perform_serial { d₁ with serial := n + 1 }
      (.createFile (folder.child (nameOf n)))
    rcases hperform : Disk.perform { d₁ with serial := n + 1 }
      (.createFile (folder.child (nameOf n))) with ⟨outcome, d₂⟩
    rw [hperform] at hserial
    have hserial : d₂.serial = n + 1 := hserial
    have hused : d.serial ≤ d₂.serial := by omega
    cases outcome with
    | error refusal =>
      refine ⟨hused, fun j hj => ?_⟩
      cases hj
    | ok _ =>
      refine ⟨hused, fun j hj => ?_⟩
      cases hj
      have hlt : n < d₂.serial := by omega
      exact ⟨n, rfl, hle, hlt⟩

theorem add_serial (j : Journal) (package : String) (d : Disk) :
    (j.add package d).2.serial = d.serial := by
  unfold add Store.append
  cases Record.putText package with
  | error e => rfl
  | ok bytes => exact Disk.appendFile_serial d j.path bytes

end Journal

namespace Pending

open Disk

/-! ## Refused writes -/

/-- No file is lost or shortened. -/
def Grows (nodes nodes' : Listing) : Prop :=
  ∀ path content, (path, Node.file content) ∈ nodes →
    ∃ more, (path, Node.file (content ++ more)) ∈ nodes'

/-- What a refused file operation leaves: files may have grown, by a part of a record say, but
none is lost. -/
structure Refused (d d' : Disk) : Prop where
  tree : Tree d'.nodes
  grows : Grows d.nodes d'.nodes
  serial : d.serial ≤ d'.serial

/-- Writing a package when file operations may be refused; whether it was written. -/
inductive Writes (p : Pending) (package : String) (d : Disk) : Bool → Pending → Disk → Prop
  | added {j : Journal} {d' : Disk} (hj : p.journal = some j)
      (hadd : j.add package d = (.ok (), d')) : Writes p package d true p d'
  | notAdded {j : Journal} {d' : Disk} (hj : p.journal = some j) (hrefused : Refused d d') :
      Writes p package d false { p with journal := none } d'
  | made {j : Journal} {d₁ d' : Disk} (hj : p.journal = none)
      (hcreate : Journal.create d p.folder = (.ok j, d₁)) (hadd : j.add package d₁ = (.ok (), d')) :
      Writes p package d true { p with journal := some j } d'
  /-- The generation could not be made, or it was made and refused the package. -/
  | notMade {d' : Disk} (hj : p.journal = none) (hrefused : Refused d d') :
      Writes p package d false p d'

/-- Staging packages when file operations may be refused, with those whose write was. -/
inductive StagesAll : Pending → Disk → List String → List String → Pending → Disk → Prop
  | nil {p : Pending} {d : Disk} : StagesAll p d [] [] p d
  | old {p p' : Pending} {d d' : Disk} {package : String} {packages failed : List String}
      (hold : package ∈ p.packages) (h : StagesAll p d packages failed p' d') :
      StagesAll p d (package :: packages) failed p' d'
  | new {p p₁ p' : Pending} {d d₁ d' : Disk} {package : String} {packages failed : List String}
      {written : Bool} (hnew : package ∉ p.packages)
      (hwrites : Writes { p with packages := p.packages.insert package } package d written p₁ d₁)
      (h : StagesAll p₁ d₁ packages failed p' d') :
      StagesAll p d (package :: packages) ((if written then [] else [package]) ++ failed) p' d'

/-! ## What stagings keep -/

/-- The current generation has a journal's name and is a whole number of records, if it is
there. -/
def Intact (p : Pending) (nodes : Listing) : Prop :=
  ∀ j, p.journal = some j →
    (∃ name, j.path = name :: p.folder ∧ Journal.isJournalName name = true) ∧
    ∀ bytes, (j.path, Node.file bytes) ∈ nodes → ∃ names, Record.putTexts names = .ok bytes

/-- What stagings keep, whether or not their writes are refused. -/
structure Passed (p : Pending) (d : Disk) (p' : Pending) (d' : Disk) : Prop where
  tree : Tree d'.nodes
  intact : Intact p' d'.nodes
  folder : p'.folder = p.folder
  grows : Grows d.nodes d'.nodes
  serial : d.serial ≤ d'.serial
  /-- A new current generation has a new number and stands where nothing stood. -/
  fresh : ∀ j, p'.journal = some j → p.journal = some j ∨
    ((∃ n, j.path = Journal.nameOf n :: p.folder ∧ d.serial ≤ n ∧ n < d'.serial) ∧
      ∀ content, (j.path, Node.file content) ∉ d.nodes)

theorem Grows.refl (nodes : Listing) : Grows nodes nodes :=
  fun _ content h => ⟨[], by rwa [List.append_nil]⟩

theorem Grows.trans {a b c : Listing} (h : Grows a b) (h' : Grows b c) : Grows a c := by
  intro path content hmem
  obtain ⟨more, hmore⟩ := h path content hmem
  obtain ⟨more', hmore'⟩ := h' path _ hmore
  exact ⟨more ++ more', by rwa [← List.append_assoc]⟩

theorem Passed.refl {p : Pending} {d : Disk} (ht : Tree d.nodes) (hi : Intact p d.nodes) :
    Passed p d p d :=
  ⟨ht, hi, rfl, .refl _, Nat.le_refl _, fun _ hj => .inl hj⟩

theorem Passed.trans {p p' p'' : Pending} {d d' d'' : Disk} (h : Passed p d p' d')
    (h' : Passed p' d' p'' d'') : Passed p d p'' d'' where
  tree := h'.tree
  intact := h'.intact
  folder := h'.folder.trans h.folder
  grows := h.grows.trans h'.grows
  serial := Nat.le_trans h.serial h'.serial
  fresh j hj := by
    rcases h'.fresh j hj with hj' | ⟨⟨n, hpath, hle, hlt⟩, hfree⟩
    · rcases h.fresh j hj' with hj₀ | ⟨⟨n, hpath, hle, hlt⟩, hfree⟩
      · exact .inl hj₀
      · exact .inr ⟨⟨n, hpath, hle, Nat.lt_of_lt_of_le hlt h'.serial⟩, hfree⟩
    · refine .inr ⟨⟨n, h.folder ▸ hpath, Nat.le_trans h.serial hle, hlt⟩, fun content hmem => ?_⟩
      obtain ⟨more, hmore⟩ := h.grows _ _ hmem
      exact hfree _ hmore

/-- A refused write leaves no current generation, so nothing can be wrong with it. -/
theorem Passed.of_refused {p p' : Pending} {d d' : Disk} (h : Refused d d')
    (hfolder : p'.folder = p.folder) (hnone : p'.journal = none) : Passed p d p' d' := by
  refine ⟨h.tree, fun j hj => ?_, hfolder, h.grows, h.serial, fun j hj => ?_⟩
  · rw [hnone] at hj
    cases hj
  · rw [hnone] at hj
    cases hj

/-- The pending packages are of no account here. -/
theorem Passed.of_packages {p p' : Pending} {packages : NameSet} {d d' : Disk}
    (h : Passed { p with packages } d p' d') : Passed p d p' d' :=
  ⟨h.tree, h.intact, h.folder, h.grows, h.serial, h.fresh⟩

/-! ## Writing -/

theorem grows_of_spares {path : Path} {nodes nodes' : Listing} (hspares : Spares path nodes nodes')
    (hgrows : ∀ content, (path, Node.file content) ∈ nodes →
      ∃ more, (path, Node.file (content ++ more)) ∈ nodes') : Grows nodes nodes' := by
  intro other content hmem
  by_cases heq : other = path
  · subst heq
    exact hgrows content hmem
  · exact ⟨[], by rw [List.append_nil]; exact (hspares other content heq).2 hmem⟩

theorem perform_extendFile_grows {d : Disk} (ht : Tree d.nodes) (path : Path) (content : Bytes) :
    Grows d.nodes (d.perform (.extendFile path content)).2.nodes := by
  rcases perform_cases d (.extendFile path content) with ⟨nodes, hafter, heq⟩ | ⟨_, _, heq⟩
  · rw [heq]
    obtain ⟨old, hold, rfl⟩ := after_extendFile hafter
    refine grows_of_spares (spares_withNode _ _ _) fun found hfound => ⟨content, ?_⟩
    rw [ht.file_unique hfound (ht.sight_file_iff.1 hold)]
    exact mem_withNode.2 (.inl rfl)
  · rw [heq]
    exact .refl _

/-- An append that is refused may have made an empty file, where there was none. -/
theorem appendFile_grows {d : Disk} (ht : Tree d.nodes) (path : Path) (content : Bytes) :
    Grows d.nodes (d.appendFile path content).2.nodes := by
  rw [appendFile]
  split
  · rename_i hmissing
    rcases perform_cases d (.createFile path) with ⟨nodes, hafter, heq⟩ | ⟨_, _, heq⟩
    · have ht₁ := ht.after hafter
      obtain ⟨rfl, _⟩ := after_createFile hafter
      have hmade : Grows d.nodes (withNode d.nodes path (.file [])) :=
        grows_of_spares (spares_withNode _ _ _) fun found hfound =>
          absurd hfound (ht.not_mem_of_missing hmissing _)
      rw [heq]
      exact hmade.trans (perform_extendFile_grows (d := ⟨_, _, d.serial⟩) ht₁ path content)
    · rw [heq]
      exact .refl _
  · exact perform_extendFile_grows ht path content

/-- A write to a generation, refused or not. -/
theorem add_grows {d : Disk} (ht : Tree d.nodes) (j : Journal) (package : String) :
    Grows d.nodes (j.add package d).2.nodes := by
  unfold Journal.add Store.append
  cases Record.putText package with
  | error e => exact .refl _
  | ok bytes => exact appendFile_grows ht j.path bytes

/-- What an append leaves is also what a refused one may leave. -/
theorem refused_of_add {d d' : Disk} {j : Journal} {package : String} {outcome : Except Fault Unit}
    (ht : Tree d.nodes) (h : j.add package d = (outcome, d')) : Refused d d' := by
  have htree := (Journal.add_spares ht j package).1
  have hgrows := add_grows ht j package
  have hserial := Journal.add_serial j package d
  rw [h] at htree hgrows hserial
  exact ⟨htree, hgrows, Nat.le_of_eq hserial.symm⟩

theorem refused_of_create {d d' : Disk} {folder : Path} {outcome : Except Fault Journal}
    (ht : Tree d.nodes) (h : Journal.create d folder = (outcome, d')) : Refused d d' := by
  have hserial := (Journal.create_serial d folder).1
  rw [h] at hserial
  rcases Journal.create_cases ht folder with
    ⟨n, d₁, heq, hfree, ht₁, _, hspares, _⟩ | ⟨e, d₁, heq, ht₁, hspares⟩
  · rw [h] at heq
    cases heq
    exact ⟨ht₁, grows_of_spares hspares fun content hmem => absurd hmem (hfree content), hserial⟩
  · rw [h] at heq
    cases heq
    refine ⟨ht₁, fun path content hmem => ⟨[], ?_⟩, hserial⟩
    rw [List.append_nil]
    exact (hspares path content).2 hmem

/-- A package that was written stands behind what its generation held, which is made again if it
was missing. -/
theorem add_ok {d d' : Disk} {j : Journal} {package : String} (ht : Tree d.nodes)
    (h : j.add package d = (.ok (), d')) :
    ∃ old bytes, Record.putText package = .ok bytes ∧
      (j.path, Node.file (old ++ bytes)) ∈ d'.nodes ∧
      ((j.path, Node.file old) ∈ d.nodes ∨ old = []) := by
  have ht' := (refused_of_add ht h).tree
  unfold Journal.add Store.append at h
  cases hbytes : Record.putText package with
  | error e =>
    rw [hbytes] at h
    cases h
  | ok bytes =>
    simp only [hbytes] at h
    have happend : d.appendFile j.path bytes = (.ok (), d') := by
      rcases hwrite : d.appendFile j.path bytes with ⟨outcome, d₁⟩
      rw [hwrite] at h
      cases outcome with
      | error refusal => cases h
      | ok _ =>
        cases h
        rfl
    rcases appendFile_ok happend with ⟨old, hold, hnew⟩ | ⟨_, hnew⟩
    · exact ⟨old, bytes, rfl, ht'.sight_file_iff.1 hnew, .inl (ht.sight_file_iff.1 hold)⟩
    · exact ⟨[], bytes, rfl, ht'.sight_file_iff.1 hnew, .inr rfl⟩

/-- Writing to the current generation, and what it lists then. -/
theorem add_passed {p : Pending} {d d' : Disk} {j : Journal} {package : String}
    (ht : Tree d.nodes) (hi : Intact p d.nodes) (hj : p.journal = some j)
    (h : j.add package d = (.ok (), d')) :
    Passed p d p d' ∧
      ∃ content, (j.path, Node.file content) ∈ d'.nodes ∧ package ∈ Record.textsOf content := by
  have hleft := refused_of_add ht h
  obtain ⟨old, bytes, hbytes, hnew, hold⟩ := add_ok ht h
  have hwhole : ∃ names, Record.putTexts names = .ok old := by
    rcases hold with hold | rfl
    · exact (hi j hj).2 old hold
    · exact ⟨[], rfl⟩
  obtain ⟨names, hnames⟩ := hwhole
  have hconcat := Record.putTexts_concat hnames hbytes
  constructor
  · refine ⟨hleft.tree, fun j' hj' => ?_, rfl, hleft.grows, hleft.serial, fun _ hj' => .inl hj'⟩
    obtain rfl : j = j' := Option.some.inj (hj.symm.trans hj')
    refine ⟨(hi j hj).1, fun content hmem => ⟨names ++ [package], ?_⟩⟩
    rw [hconcat, hleft.tree.file_unique hmem hnew]
  · refine ⟨_, hnew, ?_⟩
    have hread := Record.textsOf_putTexts hconcat []
    rw [List.append_nil] at hread
    rw [hread]
    exact List.mem_append_left _ (List.mem_append_right _ (List.mem_singleton.2 rfl))

/-- Making a generation. -/
theorem create_passed {p : Pending} {d d' : Disk} {j : Journal} (ht : Tree d.nodes)
    (h : Journal.create d p.folder = (.ok j, d')) : Passed p d { p with journal := some j } d' := by
  have hleft := refused_of_create ht h
  obtain ⟨m, hpath, hlow, hhigh⟩ := (Journal.create_serial d p.folder).2 j (by rw [h])
  rw [h] at hhigh
  rcases Journal.create_cases ht p.folder with
    ⟨n, d₁, heq, hfree, ht₁, hmem, _, _⟩ | ⟨_, _, heq, _⟩
  · rw [h] at heq
    cases heq
    refine ⟨ht₁, fun j hj => ?_, rfl, hleft.grows, hleft.serial, fun j hj => ?_⟩
    · cases hj
      refine ⟨⟨_, rfl, Journal.isJournalName_nameOf n⟩, fun bytes hbytes => ⟨[], ?_⟩⟩
      rw [ht₁.file_unique hbytes hmem]
      rfl
    · cases hj
      exact .inr ⟨⟨m, hpath, hlow, hhigh⟩, hfree⟩
  · rw [h] at heq
    cases heq

/-- **One write**, refused or not. -/
theorem Writes.passed {p p' : Pending} {package : String} {d d' : Disk} {written : Bool}
    (h : Writes p package d written p' d') (ht : Tree d.nodes) (hi : Intact p d.nodes) :
    Passed p d p' d' := by
  cases h with
  | added hj hadd => exact (add_passed ht hi hj hadd).1
  | notAdded hj hrefused => exact .of_refused hrefused rfl rfl
  | made hj hcreate hadd =>
    have hmade := create_passed ht hcreate
    exact hmade.trans (add_passed hmade.tree hmade.intact rfl hadd).1
  | notMade hj hrefused => exact .of_refused hrefused rfl hj

theorem Writes.tree {p p' : Pending} {package : String} {d d' : Disk} {written : Bool}
    (h : Writes p package d written p' d') (ht : Tree d.nodes) : Tree d'.nodes := by
  cases h with
  | added _ hadd => exact (refused_of_add ht hadd).tree
  | notAdded _ hrefused => exact hrefused.tree
  | made _ hcreate hadd =>
    exact (refused_of_add (refused_of_create ht hcreate).tree hadd).tree
  | notMade _ hrefused => exact hrefused.tree

theorem Writes.packages {p p' : Pending} {package : String} {d d' : Disk} {written : Bool}
    (h : Writes p package d written p' d') : p'.packages = p.packages := by
  cases h <;> rfl

/-- The current generation lists a package that was written. -/
theorem Writes.lists {p p' : Pending} {package : String} {d d' : Disk}
    (h : Writes p package d true p' d') (ht : Tree d.nodes) (hi : Intact p d.nodes) :
    ∃ j content, p'.journal = some j ∧ (j.path, Node.file content) ∈ d'.nodes ∧
      package ∈ Record.textsOf content := by
  cases h with
  | @added j _ hj hadd =>
    obtain ⟨content, hmem, hlists⟩ := (add_passed ht hi hj hadd).2
    exact ⟨j, content, hj, hmem, hlists⟩
  | @made j _ _ hj hcreate hadd =>
    have hmade := create_passed ht hcreate
    obtain ⟨content, hmem, hlists⟩ := (add_passed hmade.tree hmade.intact rfl hadd).2
    exact ⟨j, content, rfl, hmem, hlists⟩

/-! ## Staging -/

theorem StagesAll.passed {p p' : Pending} {d d' : Disk} {packages failed : List String}
    (h : StagesAll p d packages failed p' d') (ht : Tree d.nodes) (hi : Intact p d.nodes) :
    Passed p d p' d' := by
  induction h with
  | nil => exact .refl ht hi
  | old _ _ ih => exact ih ht hi
  | new _ hwrites _ ih =>
    have hfirst := (hwrites.passed ht hi).of_packages
    exact hfirst.trans (ih hfirst.tree hfirst.intact)

/-- What is staged is pending, whether or not it was written. -/
theorem StagesAll.mem_packages {p p' : Pending} {d d' : Disk} {packages failed : List String}
    (h : StagesAll p d packages failed p' d') {x : String} :
    x ∈ p'.packages ↔ x ∈ p.packages ∨ x ∈ packages := by
  induction h with
  | nil => simp
  | old hold _ ih =>
    rw [ih, List.mem_cons]
    constructor
    · rintro (hx | hx)
      · exact .inl hx
      · exact .inr (.inr hx)
    · rintro (hx | rfl | hx)
      · exact .inl hx
      · exact .inl hold
      · exact .inr hx
  | new _ hwrites _ ih =>
    rw [ih, hwrites.packages, NameSet.mem_insert, List.mem_cons, or_assoc]
    exact or_left_comm

/-! ## Listed by another generation -/

/-- Some generation of the folder that is not among `gone` lists the package. -/
def JottedBeside (gone : List Journal) (nodes : Listing) (folder : Path) (package : String) :
    Prop :=
  ∃ name content, Journal.isJournalName name = true ∧ (⟨name :: folder⟩ : Journal) ∉ gone ∧
    (name :: folder, Node.file content) ∈ nodes ∧ package ∈ Record.textsOf content

/-- Generations that are there and of which none is current. -/
def Apart (gone : List Journal) (p : Pending) (nodes : Listing) : Prop :=
  ∀ j ∈ gone, p.journal ≠ some j ∧ ∃ content, (j.path, Node.file content) ∈ nodes

theorem apart_singleton {j : Journal} {p : Pending} {nodes : Listing} :
    Apart [j] p nodes ↔ p.journal ≠ some j ∧ ∃ content, (j.path, Node.file content) ∈ nodes := by
  simp [Apart]

theorem jottedBeside_nil {nodes : Listing} {folder : Path} {x : String} :
    JottedBeside [] nodes folder x ↔ Jotted nodes folder x := by
  simp [JottedBeside, Jotted]

/-- Files that grow go on listing what they list. -/
theorem JottedBeside.grows {gone : List Journal} {nodes nodes' : Listing} {folder : Path}
    {x : String} (h : JottedBeside gone nodes folder x) (hgrows : Grows nodes nodes') :
    JottedBeside gone nodes' folder x := by
  obtain ⟨name, content, hname, hgone, hmem, hlists⟩ := h
  obtain ⟨more, hmore⟩ := hgrows _ _ hmem
  exact ⟨name, _, hname, hgone, hmore, (Record.textsOf_prefix content more).subset hlists⟩

/-- Deleting a generation does nothing to the others. -/
theorem JottedBeside.delete {gone rest : List Journal} {d : Disk} {folder : Path} {j : Journal}
    {x : String} (h : JottedBeside gone d.nodes folder x) (ht : Tree d.nodes) (hj : j ∈ gone)
    (hsub : rest ⊆ gone) : JottedBeside rest (j.delete d).2.nodes folder x := by
  obtain ⟨name, content, hname, hgone, hmem, hlists⟩ := h
  refine ⟨name, content, hname, fun hrest => hgone (hsub hrest), ?_, hlists⟩
  refine ((Journal.delete_spares ht j).2 _ content fun heq => hgone ?_).2 hmem
  rwa [@Journal.eq_of_path ⟨name :: folder⟩ j heq]

/-- Stagings make none of the generations that are there their current one. -/
theorem Apart.passed {gone : List Journal} {p p' : Pending} {d d' : Disk}
    (h : Apart gone p d.nodes) (hpassed : Passed p d p' d') : Apart gone p' d'.nodes := by
  intro j hj
  obtain ⟨hne, content, hmem⟩ := h j hj
  obtain ⟨more, hmore⟩ := hpassed.grows _ _ hmem
  refine ⟨fun hcur => ?_, _, hmore⟩
  rcases hpassed.fresh j hcur with hcur | ⟨_, hfree⟩
  · exact hne hcur
  · exact hfree content hmem

theorem Apart.delete {p : Pending} {d : Disk} {j : Journal} {rest : List Journal}
    (h : Apart (j :: rest) p d.nodes) (ht : Tree d.nodes) (hnot : j ∉ rest) :
    Apart rest p (j.delete d).2.nodes := by
  intro j' hj'
  obtain ⟨hne, content, hmem⟩ := h j' (List.mem_cons_of_mem _ hj')
  refine ⟨hne, content, ((Journal.delete_spares ht j).2 _ content fun heq => hnot ?_).2 hmem⟩
  rwa [← Journal.eq_of_path heq]

/-- The current generation is none of those apart. -/
theorem jottedBeside_of_current {gone : List Journal} {p : Pending} {nodes : Listing}
    {j : Journal} {content : Bytes} {x : String} (hapart : Apart gone p nodes)
    (hi : Intact p nodes) (hj : p.journal = some j) (hmem : (j.path, Node.file content) ∈ nodes)
    (hlists : x ∈ Record.textsOf content) : JottedBeside gone nodes p.folder x := by
  obtain ⟨name, hpath, hname⟩ := (hi j hj).1
  rw [hpath] at hmem
  refine ⟨name, content, hname, fun hgone => ?_, hmem, hlists⟩
  refine (hapart _ hgone).1 ?_
  rw [hj, @Journal.eq_of_path j ⟨name :: p.folder⟩ hpath]

/-- **A package that is staged is listed by a generation that is not apart, or its write was
refused, or it was pending already.** -/
theorem StagesAll.jottedBeside {p p' : Pending} {d d' : Disk} {packages failed : List String}
    (h : StagesAll p d packages failed p' d') (ht : Tree d.nodes) (hi : Intact p d.nodes)
    {gone : List Journal} (hapart : Apart gone p d.nodes) {x : String} (hx : x ∈ packages) :
    JottedBeside gone d'.nodes p.folder x ∨ x ∈ failed ∨ x ∈ p.packages := by
  induction h with
  | nil => cases hx
  | @old p p' d d' package packages failed hold _ ih =>
    rcases List.mem_cons.1 hx with rfl | hx
    · exact .inr (.inr hold)
    · exact ih ht hi hapart hx
  | @new p p₁ p' d d₁ d' package packages failed written hnew hwrites hrest ih =>
    have hfirst := (hwrites.passed ht hi).of_packages
    have hapart₁ := hapart.passed hfirst
    have hlater := hrest.passed hfirst.tree hfirst.intact
    -- the package that comes first, whether or not it stands further down again
    have hhead : JottedBeside gone d'.nodes p.folder package ∨
        package ∈ (if written then [] else [package]) ++ failed := by
      cases written with
      | false => exact .inr (List.mem_append_left _ (List.mem_singleton.2 rfl))
      | true =>
        obtain ⟨j, content, hj, hmem, hlists⟩ := hwrites.lists ht hi
        have hbeside := jottedBeside_of_current hapart₁ hfirst.intact hj hmem hlists
        exact .inl (hfirst.folder ▸ hbeside.grows hlater.grows)
    by_cases heq : x = package
    · subst heq
      exact hhead.imp_right .inl
    · have hx := (List.mem_cons.1 hx).resolve_left heq
      rcases ih hfirst.tree hfirst.intact hapart₁ hx with hlisted | hfailed | hpending
      · exact .inl (hfirst.folder ▸ hlisted)
      · exact .inr (.inl (List.mem_append_right _ hfailed))
      · rw [hwrites.packages] at hpending
        exact .inr (.inr ((NameSet.mem_insert.1 hpending).resolve_left heq))

/-! ## What the set does -/

theorem write_writes {d : Disk} (ht : Tree d.nodes) (p : Pending) (package : String) :
    Writes p package d (p.writes package d) (p.write package d).1 (p.write package d).2 := by
  unfold write writes
  cases hj : p.journal with
  | some j =>
    simp only
    rcases hadd : j.add package d with ⟨e | _, d'⟩
    · exact .notAdded hj (refused_of_add ht hadd)
    · exact .added hj hadd
  | none =>
    simp only
    rcases hcreate : Journal.create d p.folder with ⟨e | j, d₁⟩
    · exact .notMade hj (refused_of_create ht hcreate)
    · have hmade := refused_of_create ht hcreate
      simp only
      rcases hadd : j.add package d₁ with ⟨e | _, d'⟩
      · have hadded := refused_of_add hmade.tree hadd
        exact .notMade hj ⟨hadded.tree, hmade.grows.trans hadded.grows,
          Nat.le_trans hmade.serial hadded.serial⟩
      · exact .made hj hcreate hadd

/-- The packages whose write is refused when several are staged. -/
def refused (p : Pending) (packages : List String) (d : Disk) : List String :=
  match packages with
  | [] => []
  | package :: rest =>
    (if package ∈ p.packages ∨ p.writes package d then [] else [package]) ++
      (p.stage package d).2.1.refused rest (p.stage package d).2.2

theorem restage_stagesAll {p : Pending} {d : Disk} (ht : Tree d.nodes) (packages : List String) :
    StagesAll p d packages (p.refused packages d) (p.restage packages d).1
      (p.restage packages d).2 := by
  induction packages generalizing p d with
  | nil => exact .nil
  | cons package rest ih =>
    by_cases hold : package ∈ p.packages
    · have hstage : p.stage package d = (false, p, d) := if_pos hold
      simp only [restage, refused, hstage, hold, true_or, if_true, List.nil_append]
      exact .old hold (ih ht)
    · let inserted : Pending := { p with packages := p.packages.insert package }
      have hstage : p.stage package d =
          (true, (inserted.write package d).1, (inserted.write package d).2) := if_neg hold
      have hwrites := write_writes ht inserted package
      simp only [restage, refused, hstage, hold, false_or]
      exact .new hold hwrites (ih (hwrites.tree ht))

end Pending

end Holdfast
