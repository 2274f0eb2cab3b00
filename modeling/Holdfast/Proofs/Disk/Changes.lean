import Holdfast.Proofs.Disk.Preserved

/-!
# What a change can do

A change of the disk is a run of effects, and what it leaves alone can be told from the effects
that it may use. Each change is gone through once, for any sort of effects; what holds of single
effects then holds of the whole change.

- `Disk.Changes P`: one disk after another by effects of the sort `P`, with one lemma for each
  change of the disk (`Disk.replaceFile_changes`, `Disk.makeWay_changes`, …);
- `Disk.Changes.folders`: **no change takes a folder away**;
- `Disk.Changes.tree`: a change leads from a tree to a tree;
- `Disk.Changes.beside`: a place that no effect names holds what it held;
- `Disk.Changes.noFile`: where no effect puts a file there is no new one.
-/

namespace Holdfast

namespace Disk

variable {d d' d'' : Disk} {path other : Path} {P Q : Effect → Prop}

/-- The second disk comes from the first by effects of one sort, of which some may be refused.
Made-up names may be handed out in between. -/
inductive Changes (P : Effect → Prop) (d : Disk) : Disk → Prop where
  | refl : Changes P d d
  | still {d' d'' : Disk} : Changes P d d' → d''.nodes = d'.nodes → Changes P d d''
  | go {d' : Disk} {effect : Effect} :
    Changes P d d' → P effect → Changes P d (d'.perform effect).2

namespace Changes

theorem trans (h : d.Changes P d') (h' : d'.Changes P d'') : d.Changes P d'' := by
  induction h' with
  | refl => exact h
  | still _ hnodes ih => exact ih.still hnodes
  | go _ heffect ih => exact ih.go heffect

theorem perform (d : Disk) {effect : Effect} (h : P effect) : d.Changes P (d.perform effect).2 :=
  refl.go h

theorem mono (hsort : ∀ effect, P effect → Q effect) (h : d.Changes P d') : d.Changes Q d' := by
  induction h with
  | refl => exact refl
  | still _ hnodes ih => exact ih.still hnodes
  | go _ heffect ih => exact ih.go (hsort _ heffect)

/-- The disk that an answer came with. -/
theorem of_answer {α : Type} {answer : α × Disk} {outcome : α} (h : d.Changes P answer.2)
    (heq : answer = (outcome, d')) : d.Changes P d' := by
  rw [heq] at h
  exact h

/-- What every effect of a sort keeps is kept by a change. -/
theorem keeps {motive : Listing → Prop}
    (hperform : ∀ (d : Disk) (effect : Effect), P effect → motive d.nodes →
      motive (d.perform effect).2.nodes)
    (h : d.Changes P d') (hd : motive d.nodes) : motive d'.nodes := by
  induction h with
  | refl => exact hd
  | still _ hnodes ih => rw [hnodes]; exact ih
  | go _ heffect ih => exact hperform _ _ heffect ih

end Changes

/-! ## Changes at a path -/

theorem makeFolders_changes (d : Disk) (h : ∀ way : Path, way <:+ other → P (.makeFolder way)) :
    d.Changes P (d.makeFolders other).2 := by
  induction other with
  | nil => exact .refl
  | cons name up ih =>
    have ih := ih fun way hway => h way (hway.trans (List.suffix_cons name up))
    unfold makeFolders
    split
    · exact .refl
    · exact .refl
    · exact .refl
    · split
      · exact ih.of_answer ‹_›
      · exact (ih.of_answer ‹_›).go (h _ List.suffix_rfl)

/-- A file is replaced at its own place and beside it; its folder is made if it is missing. -/
theorem replaceFile_changes (d : Disk) (content : Bytes)
    (hways : d.look other.tail = .folder ∨ ∀ way : Path, way <:+ other.tail → P (.makeFolder way))
    (hcreate : P (.createFile (preparing other)))
    (hextend : P (.extendFile (preparing other) content))
    (hrename : P (.rename (preparing other) other)) (hunlink : P (.unlink (preparing other))) :
    d.Changes P (d.replaceFile other content).2 := by
  have hfolders : d.Changes P (d.makeFolders other.tail).2 := by
    rcases hways with hfolder | hways
    · rw [makeFolders_of_folder hfolder]
      exact .refl
    · exact d.makeFolders_changes hways
  unfold replaceFile
  split
  · exact hfolders.of_answer ‹_›
  · rename_i d₁ heq
    refine (hfolders.of_answer heq).trans ?_
    split
    · exact (Changes.perform d₁ hcreate).of_answer ‹_›
    · rename_i d₂ heq
      refine ((Changes.perform d₁ hcreate).of_answer heq).trans ?_
      split
      · exact (Changes.perform d₂ hextend).of_answer ‹_›
      · rename_i d₃ heq
        refine ((Changes.perform d₂ hextend).of_answer heq).trans ?_
        split
        · exact (Changes.perform d₃ hrename).of_answer ‹_›
        · exact ((Changes.perform d₃ hrename).of_answer ‹_›).go hunlink

theorem appendFile_changes (d : Disk) (content : Bytes) (hcreate : P (.createFile other))
    (hextend : P (.extendFile other content)) : d.Changes P (d.appendFile other content).2 := by
  unfold appendFile
  split
  · split
    · exact (Changes.perform d hcreate).of_answer ‹_›
    · exact ((Changes.perform d hcreate).of_answer ‹_›).go hextend
  · exact .perform d hextend

theorem removeFile_changes (d : Disk) (hunlink : P (.unlink other)) :
    d.Changes P (d.removeFile other).2 := by
  unfold removeFile
  split
  · exact (Changes.perform d hunlink).of_answer ‹_›
  · exact (Changes.perform d hunlink).of_answer ‹_›

/-! ## Changes along a route -/

theorem makeFoldersAlong_changes (d : Disk) {names : Path}
    (h : ∀ way : Path, way <:+ names → P (.makeFolder (Route.placeOf way))) :
    d.Changes P (d.makeFoldersAlong names).2 := by
  induction names with
  | nil => exact .refl
  | cons name up ih =>
    have ih := ih fun way hway => h way (hway.trans (List.suffix_cons name up))
    unfold makeFoldersAlong
    split
    · exact .refl
    · exact .refl
    · exact .refl
    · split
      · exact ih.of_answer ‹_›
      · rename_i d₁ heq
        split
        · exact ih.of_answer heq
        · exact (ih.of_answer heq).go (h _ List.suffix_rfl)

theorem makeWay_changes (d : Disk) {r : Route}
    (h : ∀ way : Path, way <:+ r.names → P (.makeFolder (Route.placeOf way))) :
    d.Changes P (d.makeWay r).2 := by
  unfold makeWay
  split
  · exact d.makeFoldersAlong_changes h
  · exact d.makeFoldersAlong_changes h
  · split
    · have htail : d.Changes P (d.makeFoldersAlong r.names.tail).2 :=
        d.makeFoldersAlong_changes fun way hway => h way (hway.trans (List.tail_suffix _))
      split
      · exact htail.of_answer ‹_›
      · split <;> exact htail.of_answer ‹_›
    · exact d.makeFoldersAlong_changes h

theorem removeAlong_changes (d : Disk) {r : Route} (hunlink : P (.unlink r.place)) :
    d.Changes P (d.removeAlong r).2 := by
  unfold removeAlong
  split
  · exact .refl
  · split
    · exact d.removeFile_changes hunlink
    · exact .refl
  · exact .refl
  · exact .refl

/-! ## Folders and trees -/

/-- No folder is in sight where a file can be put. -/
theorem not_folder_of_free {nodes : Listing}
    (h : (∃ old, sight nodes other = .file old) ∨
      (sight nodes other = .missing ∧ sight nodes other.tail = .folder)) :
    sight nodes other ≠ .folder := by
  rcases h with ⟨old, hold⟩ | ⟨hmissing, -⟩
  · rw [hold]; nofun
  · rw [hmissing]; nofun

/-- No effect takes a folder away. -/
theorem perform_folders (d : Disk) (effect : Effect) {place : Path}
    (h : d.look place = .folder) : (d.perform effect).2.look place = .folder := by
  rcases d.perform_cases effect with ⟨nodes, hafter, heq⟩ | ⟨refusal, -, heq⟩
  · rw [heq]
    -- what is changed is no folder, so it does not lie on the way to one
    have hway : ∀ {other : Path}, sight d.nodes other ≠ .folder → ¬ other <:+ place :=
      fun hno hsuffix => hno (sight_of_suffix_folder h hsuffix)
    cases effect with
    | makeFolder other =>
      obtain ⟨rfl, hmissing, -⟩ := after_makeFolder hafter
      exact (sight_withNode_other _ _ (hway (by rw [hmissing]; nofun))).trans h
    | createFile other =>
      obtain ⟨rfl, hfree⟩ := after_createFile hafter
      exact (sight_withNode_other _ _ (hway (not_folder_of_free hfree))).trans h
    | extendFile other more =>
      obtain ⟨old, hold, rfl⟩ := after_extendFile hafter
      exact (sight_withNode_other _ _ (hway (by rw [hold]; nofun))).trans h
    | rename source target =>
      obtain ⟨content, hsource, rfl, hfree⟩ := after_rename hafter
      show sight (withNode (without d.nodes source) target (.file content)) place = .folder
      rw [sight_withNode_other _ _ (hway (not_folder_of_free hfree)),
        sight_without_other _ (hway (by rw [hsource]; nofun))]
      exact h
    | unlink other =>
      obtain ⟨⟨content, hfile⟩, rfl⟩ := after_unlink hafter
      exact (sight_without_other _ (hway (by rw [hfile]; nofun))).trans h
  · rw [heq]
    exact h

/-- **No change takes a folder away.** -/
theorem Changes.folders (h : d.Changes P d') {place : Path} (hplace : d.look place = .folder) :
    d'.look place = .folder :=
  h.keeps (motive := fun nodes => sight nodes place = .folder)
    (fun d effect _ => d.perform_folders effect) hplace

/-- A change leads from a tree to a tree. -/
theorem Changes.tree (h : d.Changes P d') (ht : Tree d.nodes) : Tree d'.nodes := by
  refine h.keeps (motive := Tree) (fun d effect _ ht => ?_) ht
  rcases d.perform_cases effect with ⟨nodes, hafter, heq⟩ | ⟨refusal, -, heq⟩
  · rw [heq]
    exact ht.after hafter
  · rw [heq]
    exact ht

/-! ## Places beside a change -/

/-- An effect that does not name a path. -/
def Effect.Misses (path : Path) : Effect → Prop
  | .makeFolder other | .createFile other | .extendFile other _ | .unlink other => other ≠ path
  | .rename source target => source ≠ path ∧ target ≠ path

/-- What is listed at a path is changed only by an effect that names it. -/
theorem node?_perform (d : Disk) {effect : Effect} (h : effect.Misses path) :
    node? (d.perform effect).2.nodes path = node? d.nodes path := by
  rcases d.perform_cases effect with ⟨nodes, hafter, heq⟩ | ⟨refusal, -, heq⟩
  · rw [heq]
    cases effect with
    | makeFolder other =>
      obtain ⟨rfl, -⟩ := after_makeFolder hafter
      exact node?_withNode_other _ _ h.symm
    | createFile other =>
      obtain ⟨rfl, -⟩ := after_createFile hafter
      exact node?_withNode_other _ _ h.symm
    | extendFile other more =>
      obtain ⟨old, -, rfl⟩ := after_extendFile hafter
      exact node?_withNode_other _ _ h.symm
    | rename source target =>
      obtain ⟨content, -, rfl, -⟩ := after_rename hafter
      exact (node?_withNode_other _ _ h.2.symm).trans (node?_without_other _ h.1.symm)
    | unlink other =>
      obtain ⟨-, rfl⟩ := after_unlink hafter
      exact node?_without_other _ h.symm
  · rw [heq]

/-- Inside a folder one sees what is listed. -/
theorem look_congr (h : d.look path.tail = .folder) (h' : d'.look path.tail = .folder)
    (hlisted : node? d'.nodes path = node? d.nodes path) : d'.look path = d.look path := by
  cases path with
  | nil => rfl
  | cons name up =>
    rw [look, List.tail_cons] at h h'
    rw [look, look, sight, sight, h, h', hlisted]

/-- **A place that no effect names holds what it held.** -/
theorem Changes.beside (h : d.Changes (Effect.Misses path) d')
    (htail : d.look path.tail = .folder) : d'.look path = d.look path :=
  look_congr htail (h.folders htail)
    (h.keeps (motive := fun nodes => node? nodes path = node? d.nodes path)
      (fun d _ hmiss hlisted => (d.node?_perform hmiss).trans hlisted) rfl)

/-! ## Places without a file -/

/-- An effect that puts no file at a path where there is none. -/
def Effect.Settles (path : Path) : Effect → Prop
  | .createFile other | .rename _ other => other ≠ path
  | .makeFolder _ | .extendFile _ _ | .unlink _ => True

/-- No file is listed at a path. -/
def NoFile (path : Path) (nodes : Listing) : Prop := ∀ content, (path, .file content) ∉ nodes

theorem perform_noFile (d : Disk) (effect : Effect) (h : effect.Settles path)
    (hno : NoFile path d.nodes) : NoFile path (d.perform effect).2.nodes := by
  rcases d.perform_cases effect with ⟨nodes, hafter, heq⟩ | ⟨refusal, -, heq⟩
  · rw [heq]
    intro content hlisted
    cases effect with
    | makeFolder other =>
      obtain ⟨rfl, -⟩ := after_makeFolder hafter
      rcases mem_withNode.1 hlisted with hnew | ⟨hold, -⟩
      · cases hnew
      · exact hno content hold
    | createFile other =>
      obtain ⟨rfl, -⟩ := after_createFile hafter
      rcases mem_withNode.1 hlisted with hnew | ⟨hold, -⟩
      · cases hnew
        exact h rfl
      · exact hno content hold
    | extendFile other more =>
      obtain ⟨old, hfile, rfl⟩ := after_extendFile hafter
      rcases mem_withNode.1 hlisted with hnew | ⟨hold, -⟩
      · cases hnew
        exact hno old (mem_of_node? (node?_of_sight_file hfile))
      · exact hno content hold
    | rename source target =>
      obtain ⟨moved, -, rfl, -⟩ := after_rename hafter
      rcases mem_withNode.1 hlisted with hnew | ⟨hold, -⟩
      · cases hnew
        exact h rfl
      · exact hno content (mem_without.1 hold).1
    | unlink other =>
      obtain ⟨-, rfl⟩ := after_unlink hafter
      exact hno content (mem_without.1 hlisted).1
  · rw [heq]
    exact hno

/-- **Where no effect puts a file there is no new one.** -/
theorem Changes.noFile (h : d.Changes (Effect.Settles path) d') (hno : NoFile path d.nodes) :
    NoFile path d'.nodes :=
  h.keeps perform_noFile hno

end Disk

end Holdfast
