import Holdfast.Disk

/-!
# Disks as trees

A listing of places is a tree if no place is listed twice and every listed place has a
possible name inside a listed folder. Effects keep trees, and on a tree what one sees at a
path is what is listed there, so the effects can be told by what they do to the listing.

- `Disk.Tree`: the listing is a tree;
- `Disk.Tree.after`: **every effect leads from a tree to a tree**;
- `Disk.after_createFile`, `Disk.after_extendFile`, `Disk.after_unlink` and so on: the listing
  after an effect;
- `Disk.Tree.sight_file_iff`: on a tree the files in sight are those listed.
-/

namespace Holdfast.Disk

/-- The places of a disk with what stands there. -/
abbrev Listing := List (Path × Node)

/-- The listing of a tree: every place is listed once, under a possible name, in a folder. -/
structure Tree (nodes : Listing) : Prop where
  once : (nodes.map (·.1)).Nodup
  placed : ∀ entry ∈ nodes, ∃ name up,
    entry.1 = name :: up ∧ isName name = true ∧ sight nodes up = .folder

instance (nodes : Listing) : Decidable (Tree nodes) :=
  decidable_of_iff ((nodes.map (·.1)).Nodup ∧ ∀ entry ∈ nodes,
      entry.1 ≠ [] ∧ isName (entry.1.headD "") = true ∧ sight nodes entry.1.tail = .folder) <| by
    refine ⟨fun h => ⟨h.1, fun entry hentry => ?_⟩, fun h => ⟨h.once, fun entry hentry => ?_⟩⟩
    · obtain ⟨hne, hname, hup⟩ := h.2 entry hentry
      obtain ⟨name, up, heq⟩ := List.exists_cons_of_ne_nil hne
      rw [heq] at hname hup
      exact ⟨name, up, heq, hname, hup⟩
    · obtain ⟨name, up, heq, hname, hup⟩ := h.placed entry hentry
      rw [heq]
      exact ⟨List.cons_ne_nil _ _, hname, hup⟩

theorem tree_nil : Tree [] :=
  ⟨List.nodup_nil, fun _ h => absurd h List.not_mem_nil⟩

/-! ## Lookup -/

theorem mem_of_node? {nodes : Listing} {path : Path} {node : Node}
    (h : node? nodes path = some node) : (path, node) ∈ nodes := by
  induction nodes with
  | nil => cases h
  | cons entry nodes ih =>
    obtain ⟨other, what⟩ := entry
    rw [node?, List.lookup_cons] at h
    by_cases heq : path = other
    · subst heq
      simp only [beq_self_eq_true, Option.some.injEq] at h
      simp [h]
    · simp only [beq_eq_false_iff_ne.2 heq] at h
      exact List.mem_cons_of_mem _ (ih h)

theorem node?_of_mem {nodes : Listing} {path : Path} {node : Node}
    (honce : (nodes.map (·.1)).Nodup) (h : (path, node) ∈ nodes) :
    node? nodes path = some node := by
  induction nodes with
  | nil => cases h
  | cons entry nodes ih =>
    obtain ⟨other, what⟩ := entry
    rw [node?, List.lookup_cons]
    rw [List.map_cons, List.nodup_cons] at honce
    rcases List.mem_cons.1 h with heq | hmem
    · cases heq
      simp
    · have hne : path ≠ other := by
        rintro rfl
        exact honce.1 (List.mem_map.2 ⟨_, hmem, rfl⟩)
      simp only [beq_eq_false_iff_ne.2 hne]
      exact ih honce.2 hmem

theorem Tree.node?_iff {nodes : Listing} (ht : Tree nodes) {path : Path} {node : Node} :
    node? nodes path = some node ↔ (path, node) ∈ nodes :=
  ⟨mem_of_node?, node?_of_mem ht.once⟩

@[simp] theorem mem_without {nodes : Listing} {path : Path} {entry : Path × Node} :
    entry ∈ without nodes path ↔ entry ∈ nodes ∧ entry.1 ≠ path := by
  simp [without]

@[simp] theorem mem_withNode {nodes : Listing} {path : Path} {node : Node}
    {entry : Path × Node} :
    entry ∈ withNode nodes path node ↔
      entry = (path, node) ∨ (entry ∈ nodes ∧ entry.1 ≠ path) := by
  simp [withNode]

theorem nodup_without {nodes : Listing} (h : (nodes.map (·.1)).Nodup) (path : Path) :
    ((without nodes path).map (·.1)).Nodup :=
  h.sublist (List.filter_sublist.map _)

theorem nodup_withNode {nodes : Listing} (h : (nodes.map (·.1)).Nodup) (path : Path)
    (node : Node) : ((withNode nodes path node).map (·.1)).Nodup := by
  rw [withNode, List.map_cons, List.nodup_cons]
  refine ⟨fun hmem => ?_, nodup_without h path⟩
  obtain ⟨entry, hentry, heq⟩ := List.mem_map.1 hmem
  exact (mem_without.1 hentry).2 heq

/-! ## Sight -/

/-- A file in sight is listed. -/
theorem node?_of_sight_file {nodes : Listing} {path : Path} {content : Bytes}
    (h : sight nodes path = .file content) : node? nodes path = some (.file content) := by
  cases path with
  | nil => cases h
  | cons name up =>
    rw [sight] at h
    split at h
    · split at h
      · split at h
        · rename_i hnode
          cases h
          exact hnode
        · cases h
        · cases h
      · cases h
    · cases h
    · cases h
    · cases h

/-- A folder in sight is the root, or listed inside a folder in sight. -/
theorem sight_folder_iff {nodes : Listing} {name : String} {up : Path} :
    sight nodes (name :: up) = .folder ↔
      sight nodes up = .folder ∧ isName name = true ∧
        node? nodes (name :: up) = some .folder := by
  constructor
  · intro h
    rw [sight] at h
    split at h
    · rename_i hup
      split at h
      · rename_i hname
        split at h
        · cases h
        · rename_i hnode
          exact ⟨hup, hname, hnode⟩
        · cases h
      · cases h
    · cases h
    · cases h
    · cases h
  · rintro ⟨hup, hname, hnode⟩
    simp [sight, hup, hname, hnode]

/-- Folders stay in sight as long as no listed folder disappears. -/
theorem sight_folder_mono {nodes nodes' : Listing}
    (hkeep : ∀ path, node? nodes path = some .folder → node? nodes' path = some .folder) :
    ∀ {path : Path}, sight nodes path = .folder → sight nodes' path = .folder
  | [], _ => rfl
  | name :: up, h => by
    obtain ⟨hup, hname, hnode⟩ := sight_folder_iff.1 h
    exact sight_folder_iff.2 ⟨sight_folder_mono hkeep hup, hname, hkeep _ hnode⟩

/-- What is listed on a tree is in sight. -/
theorem Tree.sight_of_mem {nodes : Listing} (ht : Tree nodes) {path : Path} {node : Node}
    (h : (path, node) ∈ nodes) :
    sight nodes path = match node with
      | .file content => .file content
      | .folder => .folder := by
  obtain ⟨name, up, heq, hname, hup⟩ := ht.placed _ h
  simp only at heq
  subst heq
  have hnode := ht.node?_iff.2 h
  cases node <;> simp [sight, hup, hname, hnode]

/-- On a tree the files in sight are those listed. -/
theorem Tree.sight_file_iff {nodes : Listing} (ht : Tree nodes) {path : Path}
    {content : Bytes} : sight nodes path = .file content ↔ (path, .file content) ∈ nodes :=
  ⟨fun h => mem_of_node? (node?_of_sight_file h), fun h => ht.sight_of_mem h⟩

/-- On a tree nothing is listed where nothing is in sight. -/
theorem Tree.not_mem_of_missing {nodes : Listing} (ht : Tree nodes) {path : Path}
    (h : sight nodes path = .missing) (node : Node) : (path, node) ∉ nodes := by
  intro hmem
  rw [ht.sight_of_mem hmem] at h
  cases node <;> cases h

/-- Where nothing is in sight inside a folder, something can be put. -/
theorem missing_in_folder {nodes : Listing} {path : Path} (h : sight nodes path = .missing)
    (hup : sight nodes path.tail = .folder) :
    ∃ name up, path = name :: up ∧ isName name = true ∧ sight nodes up = .folder := by
  cases path with
  | nil => cases h
  | cons name up =>
    rw [List.tail_cons] at hup
    cases hname : isName name with
    | true => exact ⟨name, up, rfl, hname, hup⟩
    | false => simp [sight, hup, hname] at h

/-! ## Effects -/

/-- A tree stays one when something is put at a place that is in a folder and is no folder
itself. -/
theorem Tree.withNode {nodes : Listing} (ht : Tree nodes) {name : String} {up : Path}
    {node : Node} (hname : isName name = true) (hup : sight nodes up = .folder)
    (hfree : (name :: up, Node.folder) ∉ nodes) : Tree (withNode nodes (name :: up) node) := by
  have hkeep : ∀ path, node? nodes path = some .folder →
      node? (Disk.withNode nodes (name :: up) node) path = some .folder := by
    intro path hpath
    have hmem := mem_of_node? hpath
    refine node?_of_mem (nodup_withNode ht.once _ _) (mem_withNode.2 (.inr ⟨hmem, ?_⟩))
    rintro rfl
    exact hfree hmem
  refine ⟨nodup_withNode ht.once _ _, fun entry hentry => ?_⟩
  rcases mem_withNode.1 hentry with rfl | ⟨hmem, _⟩
  · exact ⟨name, up, rfl, hname, sight_folder_mono hkeep hup⟩
  · obtain ⟨name', up', heq, hname', hup'⟩ := ht.placed _ hmem
    exact ⟨name', up', heq, hname', sight_folder_mono hkeep hup'⟩

/-- A tree stays one without a file. -/
theorem Tree.without {nodes : Listing} (ht : Tree nodes) {path : Path} {content : Bytes}
    (h : (path, Node.file content) ∈ nodes) : Tree (without nodes path) := by
  have hkeep : ∀ other, node? nodes other = some .folder →
      node? (Disk.without nodes path) other = some .folder := by
    intro other hother
    have hmem := mem_of_node? hother
    refine node?_of_mem (nodup_without ht.once _) (mem_without.2 ⟨hmem, ?_⟩)
    rintro rfl
    have := (ht.node?_iff.2 h).symm.trans hother
    cases this
  refine ⟨nodup_without ht.once _, fun entry hentry => ?_⟩
  obtain ⟨name, up, heq, hname, hup⟩ := ht.placed _ (mem_without.1 hentry).1
  exact ⟨name, up, heq, hname, sight_folder_mono hkeep hup⟩

/-- A tree stays one when the content of a file is replaced. -/
theorem Tree.withFile {nodes : Listing} (ht : Tree nodes) {path : Path} {old new : Bytes}
    (h : (path, Node.file old) ∈ nodes) : Tree (Disk.withNode nodes path (.file new)) := by
  obtain ⟨name, up, heq, hname, hup⟩ := ht.placed _ h
  simp only at heq
  subst heq
  refine ht.withNode hname hup fun hfolder => ?_
  have := (ht.node?_iff.2 h).symm.trans (ht.node?_iff.2 hfolder)
  cases this

/-! What is listed after each effect, and what was in sight before it. -/

theorem after_makeFolder {nodes nodes' : Listing} {path : Path}
    (h : after nodes (.makeFolder path) = .ok nodes') :
    nodes' = withNode nodes path .folder ∧
      sight nodes path = .missing ∧ sight nodes path.tail = .folder := by
  rw [after] at h
  split at h
  · rename_i hmissing hfolder
    cases h
    exact ⟨rfl, hmissing, hfolder⟩
  · cases h
  · cases h

theorem after_createFile {nodes nodes' : Listing} {path : Path}
    (h : after nodes (.createFile path) = .ok nodes') :
    nodes' = withNode nodes path (.file []) ∧
      ((∃ content, sight nodes path = .file content) ∨
        (sight nodes path = .missing ∧ sight nodes path.tail = .folder)) := by
  rw [after] at h
  split at h
  · rename_i content hfile
    cases h
    exact ⟨rfl, .inl ⟨content, hfile⟩⟩
  · rename_i hmissing hfolder
    cases h
    exact ⟨rfl, .inr ⟨hmissing, hfolder⟩⟩
  · cases h
  · cases h

theorem after_extendFile {nodes nodes' : Listing} {path : Path} {content : Bytes}
    (h : after nodes (.extendFile path content) = .ok nodes') :
    ∃ old, sight nodes path = .file old ∧
      nodes' = withNode nodes path (.file (old ++ content)) := by
  rw [after] at h
  split at h
  · rename_i old hfile
    cases h
    exact ⟨old, hfile, rfl⟩
  · cases h

theorem after_rename {nodes nodes' : Listing} {source target : Path}
    (h : after nodes (.rename source target) = .ok nodes') :
    ∃ content, sight nodes source = .file content ∧
      nodes' = withNode (without nodes source) target (.file content) ∧
      ((∃ old, sight nodes target = .file old) ∨
        (sight nodes target = .missing ∧ sight nodes target.tail = .folder)) := by
  rw [after] at h
  split at h
  · rename_i content hsource
    split at h
    · rename_i old hfile
      cases h
      exact ⟨content, hsource, rfl, .inl ⟨old, hfile⟩⟩
    · rename_i hmissing hfolder
      cases h
      exact ⟨content, hsource, rfl, .inr ⟨hmissing, hfolder⟩⟩
    · cases h
    · cases h
  · cases h

theorem after_unlink {nodes nodes' : Listing} {path : Path}
    (h : after nodes (.unlink path) = .ok nodes') :
    (∃ content, sight nodes path = .file content) ∧ nodes' = without nodes path := by
  rw [after] at h
  split at h
  · rename_i content hfile
    cases h
    exact ⟨⟨content, hfile⟩, rfl⟩
  · cases h

/-- A tree stays one when a file is put where a file is, or nothing inside a folder. -/
theorem Tree.withFileAt {nodes : Listing} (ht : Tree nodes) {path : Path} {content : Bytes}
    (h : (∃ old, (path, Node.file old) ∈ nodes) ∨
      (sight nodes path = .missing ∧ sight nodes path.tail = .folder)) :
    Tree (Disk.withNode nodes path (.file content)) := by
  rcases h with ⟨old, hfile⟩ | ⟨hmissing, hfolder⟩
  · exact ht.withFile hfile
  · obtain ⟨name, up, rfl, hname, hup⟩ := missing_in_folder hmissing hfolder
    exact ht.withNode hname hup (ht.not_mem_of_missing hmissing _)

/-- **Every effect leads from a tree to a tree.** -/
theorem Tree.after {nodes nodes' : Listing} (ht : Tree nodes) {effect : Effect}
    (h : after nodes effect = .ok nodes') : Tree nodes' := by
  cases effect with
  | makeFolder path =>
    obtain ⟨rfl, hmissing, hfolder⟩ := after_makeFolder h
    obtain ⟨name, up, rfl, hname, hup⟩ := missing_in_folder hmissing hfolder
    exact ht.withNode hname hup (ht.not_mem_of_missing hmissing _)
  | createFile path =>
    obtain ⟨rfl, hplace⟩ := after_createFile h
    exact ht.withFileAt (hplace.imp_left fun ⟨old, hold⟩ => ⟨old, ht.sight_file_iff.1 hold⟩)
  | extendFile path content =>
    obtain ⟨old, hold, rfl⟩ := after_extendFile h
    exact ht.withFile (ht.sight_file_iff.1 hold)
  | rename source target =>
    obtain ⟨content, hsource, rfl, hplace⟩ := after_rename h
    have hmem := ht.sight_file_iff.1 hsource
    have hrest := ht.without hmem
    have hkeep : ∀ {path}, sight nodes path = .folder →
        sight (Disk.without nodes source) path = .folder := by
      refine sight_folder_mono fun path hpath => ?_
      refine hrest.node?_iff.2 (mem_without.2 ⟨mem_of_node? hpath, ?_⟩)
      rintro rfl
      exact absurd ((ht.node?_iff.2 hmem).symm.trans hpath) (by simp)
    -- the place of the target is in a folder that the source's leaving does not touch
    obtain ⟨name, up, rfl, hname, hup, hfree⟩ : ∃ name up, target = name :: up ∧
        isName name = true ∧ sight nodes up = .folder ∧ (target, Node.folder) ∉ nodes := by
      rcases hplace with ⟨old, hold⟩ | ⟨hmissing, hfolder⟩
      · have hmem' := ht.sight_file_iff.1 hold
        obtain ⟨name, up, heq, hname, hup⟩ := ht.placed _ hmem'
        refine ⟨name, up, heq, hname, hup, fun hfolder => ?_⟩
        rw [ht.sight_of_mem hfolder] at hold
        cases hold
      · obtain ⟨name, up, heq, hname, hup⟩ := missing_in_folder hmissing hfolder
        exact ⟨name, up, heq, hname, hup, ht.not_mem_of_missing hmissing _⟩
    exact hrest.withNode hname (hkeep hup) fun hmem' => hfree (mem_without.1 hmem').1
  | unlink path =>
    obtain ⟨⟨content, hfile⟩, rfl⟩ := after_unlink h
    exact ht.without (ht.sight_file_iff.1 hfile)

/-- An effect that is carried out is logged and changes the listing; one that is refused
changes nothing. -/
theorem perform_cases (d : Disk) (effect : Effect) :
    (∃ nodes, after d.nodes effect = .ok nodes ∧
      d.perform effect = (.ok (), { d with nodes, log := effect :: d.log })) ∨
    ∃ refusal, after d.nodes effect = .error refusal ∧ d.perform effect = (.error refusal, d) := by
  cases h : Disk.after d.nodes effect with
  | ok nodes => exact .inl ⟨nodes, rfl, by simp [perform, h]⟩
  | error refusal => exact .inr ⟨refusal, rfl, by simp [perform, h]⟩

/-! ## Folders -/

/-- What a folder holds is what is listed under it. -/
theorem mem_children {d : Disk} {folder : Path} {name : String} {node : Node} :
    (name, node) ∈ d.children folder ↔ (name :: folder, node) ∈ d.nodes := by
  simp only [children, mem_sortBy, List.mem_filterMap]
  constructor
  · rintro ⟨⟨path, what⟩, hmem, h⟩
    cases path with
    | nil => simp at h
    | cons first up =>
      simp only [Option.ite_none_right_eq_some, Option.some.injEq, Prod.mk.injEq] at h
      obtain ⟨rfl, rfl, rfl⟩ := h
      exact hmem
  · intro hmem
    exact ⟨_, hmem, by simp⟩

/-- On a tree a folder holds no name twice. -/
theorem children_pairwise {d : Disk} (ht : Tree d.nodes) (folder : Path) :
    (d.children folder).Pairwise (fun a b => a.1 ≠ b.1) := by
  have honce : d.nodes.Pairwise (fun a b => a.1 ≠ b.1) := List.pairwise_map.1 ht.once
  refine (sortBy_perm _ _).symm.pairwise ?_ fun h => h.symm
  refine List.pairwise_filterMap.2 (honce.imp fun {a b} hne => ?_)
  rintro ⟨name, node⟩ ha ⟨name', node'⟩ hb rfl
  rcases a with ⟨_ | ⟨first, up⟩, what⟩
  · cases ha
  rcases b with ⟨_ | ⟨first', up'⟩, what'⟩
  · cases hb
  simp only [Option.ite_none_right_eq_some, Option.some.injEq, Prod.mk.injEq] at ha hb
  obtain ⟨rfl, rfl, _⟩ := ha
  obtain ⟨rfl, rfl, _⟩ := hb
  exact hne rfl

end Holdfast.Disk
