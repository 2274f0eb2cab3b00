import Holdfast.Journal
import Holdfast.Proofs.Disk.Crash
import Holdfast.Proofs.Record
import Mathlib.Data.List.Nodup
import Mathlib.Data.List.Perm.Subperm

/-!
# Journals on a tree

What the operations on journals do to the files of a disk whose listing is a tree.

- `Journal.nameOf_injective` and `Journal.create_cases`: **a new generation is empty and stands
  where nothing stood**, so it never touches another one;
- `Journal.add_cases`: a package goes to the end of its generation and nowhere else;
- `Journal.mem_list_iff`, `Journal.packages_of_mem`: the generations are the files listed, and
  they read as what their octets hold.

`Disk.Spares path d d'` says that nothing happened to the files elsewhere than at `path`.
-/

namespace Holdfast

/-! ## Made-up names -/

theorem hexValue?_digitChar {d : Nat} (h : d < 16) : hexValue? d.digitChar = some d := by
  have : ∀ d : Fin 16, hexValue? d.val.digitChar = some d.val := by decide
  exact this ⟨d, h⟩

/-- Reading the digits of `n` on top of nothing gives `n`. -/
theorem hexNat?_toDigits (n : Nat) : hexNat? (Nat.toDigits 16 n) = some n := by
  induction n using Nat.strongRecOn with
  | ind n ih =>
    rw [Nat.toDigits_eq_if (by decide)]
    split
    · rename_i hlt
      simp [hexNat?, hexValue?_digitChar hlt]
    · rename_i hle
      have hdiv := ih (n / 16) (by omega)
      rw [hexNat?] at hdiv ⊢
      rw [List.foldl_append, hdiv]
      simp only [List.foldl_cons, List.foldl_nil, hexValue?_digitChar (Nat.mod_lt n (by decide)),
        Option.bind_eq_bind, Option.bind_some, Option.pure_def, Option.some.injEq]
      omega

theorem hexNat?_hexDigits (width n : Nat) : hexNat? (hexDigits width n) = some n := by
  have hzeros : ∀ k, (List.replicate k '0').foldl
      (fun acc c => do return 16 * (← acc) + (← hexValue? c)) (some 0) = some 0 := by
    intro k
    induction k with
    | zero => rfl
    | succ k ih =>
      rw [List.replicate_succ, List.foldl_cons]
      exact ih
  have hdigits := hexNat?_toDigits n
  rw [hexNat?] at hdigits ⊢
  rw [hexDigits, List.foldl_append, hzeros]
  exact hdigits

namespace Journal

theorem eq_of_path {j j' : Journal} (h : j.path = j'.path) : j = j' := by
  cases j
  cases j'
  cases h
  rfl

theorem toList_nameOf (n : Nat) : (nameOf n).toList = lead.toList ++ hexDigits 32 n := by
  simp [nameOf]

/-- Different numbers have different names. -/
theorem nameOf_injective {n m : Nat} (h : nameOf n = nameOf m) : n = m := by
  have hlist : hexDigits 32 n = hexDigits 32 m := by
    have := congrArg String.toList h
    rw [toList_nameOf, toList_nameOf] at this
    exact List.append_cancel_left this
  have := congrArg hexNat? hlist
  rw [hexNat?_hexDigits, hexNat?_hexDigits] at this
  exact Option.some.inj this

theorem isJournalName_nameOf (n : Nat) : isJournalName (nameOf n) = true := by
  rw [isJournalName, toList_nameOf, List.isPrefixOf_iff_prefix]
  exact List.prefix_append _ _

/-- The names of as many numbers as there is fuel are taken if the search finds none free. -/
theorem firstFree_taken {taken : List String} {n fuel : Nat}
    (h : nameOf (firstFree taken n fuel) ∈ taken) :
    ∀ k ≤ fuel, nameOf (n + k) ∈ taken := by
  induction fuel generalizing n with
  | zero =>
    intro k hk
    obtain rfl : k = 0 := by omega
    exact h
  | succ fuel ih =>
    rw [firstFree] at h
    split at h
    · rename_i hfirst
      intro k hk
      cases k with
      | zero => simpa using hfirst
      | succ k =>
        have := ih h k (by omega)
        rwa [Nat.add_right_comm, Nat.add_assoc] at this
    · rename_i hfirst
      exact absurd (List.contains_iff_mem.2 h) hfirst

/-- The search finds a free name: there are more numbers than names taken. -/
theorem firstFree_free (taken : List String) (n : Nat) :
    nameOf (firstFree taken n (taken.length + 1)) ∉ taken := by
  intro h
  have hall := firstFree_taken h
  let names := (List.range (taken.length + 1)).map fun k => nameOf (n + k)
  have hnodup : names.Nodup := by
    refine List.Nodup.map_on ?_ List.nodup_range
    intro a _ b _ hab
    have := nameOf_injective hab
    omega
  have hsub : names ⊆ taken := by
    intro name hname
    obtain ⟨k, hk, rfl⟩ := List.mem_map.1 hname
    exact hall k (by have := List.mem_range.1 hk; omega)
  have hlen := (List.subperm_of_subset hnodup hsub).length_le
  simp only [names, List.length_map, List.length_range] at hlen
  omega

end Journal

/-! ## Files elsewhere -/

namespace Disk

/-- Nothing happened to the files elsewhere than at `path`. -/
def Spares (path : Path) (nodes nodes' : Listing) : Prop :=
  ∀ other content, other ≠ path →
    ((other, Node.file content) ∈ nodes' ↔ (other, Node.file content) ∈ nodes)

/-- Nothing happened to any file. -/
def SparesAll (nodes nodes' : Listing) : Prop :=
  ∀ path content, (path, Node.file content) ∈ nodes' ↔ (path, Node.file content) ∈ nodes

theorem Spares.refl {path : Path} {nodes : Listing} : Spares path nodes nodes :=
  fun _ _ _ => Iff.rfl

theorem Spares.trans {path : Path} {a b c : Listing} (h : Spares path a b)
    (h' : Spares path b c) : Spares path a c :=
  fun other content hne => (h' other content hne).trans (h other content hne)

theorem SparesAll.spares {nodes nodes' : Listing} (h : SparesAll nodes nodes') (path : Path) :
    Spares path nodes nodes' := fun other content _ => h other content

theorem spares_withNode (nodes : Listing) (path : Path) (node : Node) :
    Spares path nodes (withNode nodes path node) := by
  intro other content hne
  rw [mem_withNode]
  constructor
  · rintro (heq | ⟨hmem, _⟩)
    · exact absurd (congrArg Prod.fst heq) hne
    · exact hmem
  · exact fun hmem => .inr ⟨hmem, hne⟩

theorem spares_without (nodes : Listing) (path : Path) :
    Spares path nodes (without nodes path) := by
  intro other content hne
  rw [mem_without]
  exact ⟨fun h => h.1, fun h => ⟨h, hne⟩⟩

/-- What making folders does to a tree: it touches no file, and whatever the files alone
decide holds on the way. -/
structure FoldersMade (d : Disk) (path : Path) (outcome : Except Refusal Unit) (d' : Disk) :
    Prop where
  tree : Tree d'.nodes
  spares : SparesAll d.nodes d'.nodes
  folder : outcome = .ok () → sight d'.nodes path = .folder
  guarded : ∀ P : Listing → Prop,
    (∀ nodes : Listing, Tree nodes → SparesAll d.nodes nodes → P nodes) →
    Guarded P d d'

theorem makeFolders_spec {d : Disk} (ht : Tree d.nodes) (path : Path) :
    FoldersMade d path (d.makeFolders path).1 (d.makeFolders path).2 := by
  induction path with
  | nil => exact ⟨ht, fun _ _ => Iff.rfl, fun _ => rfl, fun _ _ => .refl⟩
  | cons name up ih =>
    have hstay : ∀ refusal, FoldersMade d (name :: up) (.error refusal) d :=
      fun refusal => ⟨ht, fun _ _ => Iff.rfl, fun hok => (by cases hok), fun _ _ => .refl⟩
    rw [makeFolders]
    split
    · rename_i hlook
      exact ⟨ht, fun _ _ => Iff.rfl, fun _ => hlook, fun _ _ => .refl⟩
    · exact hstay _
    · exact hstay _
    · rcases hup : d.makeFolders up with ⟨outcome, d₁⟩
      rw [hup] at ih
      cases outcome with
      | error refusal => exact ⟨ih.tree, ih.spares, fun hok => (by cases hok), ih.guarded⟩
      | ok _ =>
        show FoldersMade d (name :: up) (d₁.perform (.makeFolder (name :: up))).1
          (d₁.perform (.makeFolder (name :: up))).2
        rcases perform_cases d₁ (.makeFolder (name :: up)) with
          ⟨nodes, hafter, hperform⟩ | ⟨refusal, _, hperform⟩
        · have ht₂ := ih.tree.after hafter
          obtain ⟨rfl, hmissing, _⟩ := after_makeFolder hafter
          have hspares : SparesAll d.nodes (withNode d₁.nodes (name :: up) .folder) := by
            intro path content
            rw [mem_withNode, ← ih.spares path content]
            constructor
            · rintro (heq | ⟨hmem, _⟩)
              · cases heq
              · exact hmem
            · refine fun hmem => .inr ⟨hmem, ?_⟩
              rintro rfl
              exact ih.tree.not_mem_of_missing hmissing _ hmem
          rw [hperform]
          refine ⟨ht₂, hspares, fun _ => ?_, fun P hP => ?_⟩
          · exact ht₂.sight_of_mem (mem_withNode.2 (.inl rfl))
          · exact (ih.guarded P hP).trans
              (.performWhole hperform (hP _ ih.tree ih.spares) fun _ _ heq => by cases heq)
        · rw [hperform]
          exact ⟨ih.tree, ih.spares, fun hok => (by cases hok), ih.guarded⟩

end Disk

namespace Journal

open Disk

/-! ## Operations on journals -/

/-- A new generation is an empty file where nothing stood; all other files are as before. An
attempt that fails leaves all files as before. -/
theorem create_cases {d : Disk} (ht : Tree d.nodes) (folder : Path) :
    (∃ n d', create d folder = (.ok ⟨nameOf n :: folder⟩, d') ∧
      (∀ content, (nameOf n :: folder, Node.file content) ∉ d.nodes) ∧ Tree d'.nodes ∧
      (nameOf n :: folder, Node.file []) ∈ d'.nodes ∧
      Spares (nameOf n :: folder) d.nodes d'.nodes ∧
      ∀ P : Listing → Prop, (∀ nodes : Listing, Tree nodes → SparesAll d.nodes nodes → P nodes) →
        Guarded P d d') ∨
    ∃ e d', create d folder = (.error e, d') ∧ Tree d'.nodes ∧ SparesAll d.nodes d'.nodes := by
  have hmade := makeFolders_spec ht folder
  rw [create, Store.makeFolders]
  rcases hfolders : d.makeFolders folder with ⟨outcome, d₁⟩
  rw [hfolders] at hmade
  cases outcome with
  | error refusal => exact .inr ⟨_, d₁, rfl, hmade.tree, hmade.spares⟩
  | ok _ =>
    simp only [Store.toFault]
    generalize hn : firstFree ((d₁.children folder).map (·.1)) d₁.serial
      (((d₁.children folder).map (·.1)).length + 1) = n
    have hfree : ∀ node, (nameOf n :: folder, node) ∉ d₁.nodes := by
      intro node hmem
      refine firstFree_free ((d₁.children folder).map (·.1)) d₁.serial ?_
      rw [hn]
      exact List.mem_map.2 ⟨_, mem_children.2 hmem, rfl⟩
    generalize hd₂ : ({ d₁ with serial := n + 1 } : Disk) = d₂
    have hnodes : d₂.nodes = d₁.nodes := by rw [← hd₂]
    have hlog : d₂.log = d₁.log := by rw [← hd₂]
    rcases perform_cases d₂ (.createFile (folder.child (nameOf n))) with
      ⟨nodes, hafter, hperform⟩ | ⟨refusal, _, hperform⟩
    · left
      rw [hperform]
      have ht₂ := (hnodes ▸ hmade.tree).after hafter
      obtain ⟨rfl, _⟩ := after_createFile hafter
      refine ⟨n, _, rfl, fun content hmem => ?_, ht₂, mem_withNode.2 (.inl rfl), ?_, fun P hP => ?_⟩
      · exact hfree _ ((hmade.spares _ _).2 hmem)
      · exact (hmade.spares.spares _).trans (hnodes ▸ spares_withNode _ _ _)
      · have hbefore : P d₂.nodes := hnodes ▸ hP _ hmade.tree hmade.spares
        exact ((hmade.guarded P hP).trans (.still hlog hnodes)).trans
          (.performWhole hperform hbefore fun _ _ heq => by cases heq)
    · right
      rw [hperform]
      exact ⟨_, _, rfl, hnodes ▸ hmade.tree, hnodes ▸ hmade.spares⟩

/-- A package is written to the end of its generation, or to no file at all. A torn write leaves
only the beginning of its record. -/
theorem add_cases {d : Disk} (ht : Tree d.nodes) (j : Journal) (package : String) {old : Bytes}
    (hold : (j.path, Node.file old) ∈ d.nodes) :
    (∃ bytes d', j.add package d = (.ok (), d') ∧ Record.putText package = .ok bytes ∧
      d'.nodes = withNode d.nodes j.path (.file (old ++ bytes)) ∧
      ∀ P : Listing → Prop, P d.nodes →
        (∀ arrived, P (withNode d.nodes j.path (.file (old ++ bytes.take arrived)))) →
        Guarded P d d') ∨
    ∃ e, j.add package d = (.error e, d) := by
  have hlook : d.look j.path = .file old := ht.sight_of_mem hold
  unfold add Store.append
  cases hbytes : Record.putText package with
  | error e => exact .inr ⟨e, rfl⟩
  | ok bytes =>
    left
    have hafter : ∀ content, Disk.after d.nodes (.extendFile j.path content) =
        .ok (withNode d.nodes j.path (.file (old ++ content))) := by
      intro content
      rw [look] at hlook
      rw [Disk.after, hlook]
    rcases perform_cases d (.extendFile j.path bytes) with
      ⟨nodes, hnodes, hperform⟩ | ⟨refusal, hrefused, _⟩
    · rw [hafter] at hnodes
      cases hnodes
      refine ⟨bytes, (d.perform (.extendFile j.path bytes)).2, ?_, rfl, by rw [hperform],
        fun P hP htorn => ?_⟩
      · simp only [appendFile, hlook, hperform, Store.toFault]
      · rw [hperform]
        refine .perform hperform hP fun path content heq arrived torn hpart => ?_
        cases heq
        rw [hafter] at hpart
        cases hpart
        exact htorn arrived
    · rw [hafter] at hrefused
      cases hrefused

/-- Writing a package touches no other generation, whether it succeeds or not. -/
theorem add_spares {d : Disk} (ht : Tree d.nodes) (j : Journal) (package : String) :
    Tree (j.add package d).2.nodes ∧ Spares j.path d.nodes (j.add package d).2.nodes := by
  have hperform : ∀ (d : Disk) (effect : Effect), Tree d.nodes →
      (effect = .createFile j.path ∨ ∃ content, effect = .extendFile j.path content) →
      Tree (d.perform effect).2.nodes ∧ Spares j.path d.nodes (d.perform effect).2.nodes := by
    intro d effect ht heffect
    rcases perform_cases d effect with ⟨nodes, hafter, heq⟩ | ⟨_, _, heq⟩
    · rw [heq]
      refine ⟨ht.after hafter, ?_⟩
      rcases heffect with rfl | ⟨content, rfl⟩
      · obtain ⟨rfl, _⟩ := after_createFile hafter
        exact spares_withNode _ _ _
      · obtain ⟨_, _, rfl⟩ := after_extendFile hafter
        exact spares_withNode _ _ _
    · rw [heq]
      exact ⟨ht, .refl⟩
  unfold add Store.append
  cases Record.putText package with
  | error e => exact ⟨ht, .refl⟩
  | ok bytes =>
    show Tree (d.appendFile j.path bytes).2.nodes ∧
      Spares j.path d.nodes (d.appendFile j.path bytes).2.nodes
    rw [appendFile]
    split
    · obtain ⟨ht₁, hspares₁⟩ := hperform d (.createFile j.path) ht (.inl rfl)
      split
      · rename_i hfirst
        rw [hfirst] at ht₁ hspares₁
        exact ⟨ht₁, hspares₁⟩
      · rename_i hfirst
        rw [hfirst] at ht₁ hspares₁
        obtain ⟨ht₂, hspares₂⟩ := hperform _ (.extendFile j.path bytes) ht₁ (.inr ⟨_, rfl⟩)
        exact ⟨ht₂, hspares₁.trans hspares₂⟩
    · exact hperform d _ ht (.inr ⟨_, rfl⟩)

/-- A generation that is there is deleted by a single effect. -/
theorem delete_of_mem {d : Disk} (ht : Tree d.nodes) {j : Journal} {content : Bytes}
    (h : (j.path, Node.file content) ∈ d.nodes) :
    ∃ d', j.delete d = (.ok (), d') ∧ d'.nodes = without d.nodes j.path ∧ Tree d'.nodes ∧
      ∀ P : Listing → Prop, P d.nodes → Guarded P d d' := by
  have hlook : sight d.nodes j.path = .file content := ht.sight_of_mem h
  have hafter : Disk.after d.nodes (.unlink j.path) = .ok (without d.nodes j.path) := by
    rw [Disk.after, hlook]
  rcases perform_cases d (.unlink j.path) with ⟨nodes, hnodes, hperform⟩ | ⟨_, hrefused, _⟩
  · rw [hafter] at hnodes
    cases hnodes
    refine ⟨{ d with nodes := without d.nodes j.path, log := .unlink j.path :: d.log }, ?_, rfl,
      ht.without h, fun P hP => ?_⟩
    · simp only [delete, Store.remove, removeFile, hperform, Store.toFault]
    · exact .performWhole hperform hP fun _ _ heq => by cases heq
  · rw [hafter] at hrefused
    cases hrefused

/-- Deleting a generation is a single effect, whether or not it is there. -/
theorem delete_snd (j : Journal) (d : Disk) :
    (j.delete d).2 = (d.perform (.unlink j.path)).2 := by
  simp only [delete, Store.remove, removeFile]
  split <;> rename_i heq <;> simp [heq]

/-- Deleting a generation touches no other one. -/
theorem delete_spares {d : Disk} (ht : Tree d.nodes) (j : Journal) :
    Tree (j.delete d).2.nodes ∧ Spares j.path d.nodes (j.delete d).2.nodes := by
  rw [delete_snd]
  rcases perform_cases d (.unlink j.path) with ⟨nodes, hafter, heq⟩ | ⟨_, _, heq⟩
  · rw [heq]
    refine ⟨ht.after hafter, ?_⟩
    obtain ⟨_, rfl⟩ := after_unlink hafter
    exact spares_without _ _
  · rw [heq]
    exact ⟨ht, .refl⟩

/-! ## Reading -/

/-- The generations in a folder are the files there whose names are those of journals. -/
theorem mem_list_iff {d : Disk} (ht : Tree d.nodes) {folder : Path} {j : Journal} :
    j ∈ list d folder ↔ ∃ name content, j = ⟨name :: folder⟩ ∧ isJournalName name = true ∧
      (name :: folder, Node.file content) ∈ d.nodes := by
  constructor
  · intro h
    rw [list] at h
    split at h
    · obtain ⟨⟨name, node⟩, hmem, hentry⟩ := List.mem_filterMap.1 h
      rw [mem_children] at hmem
      cases node with
      | folder => cases hentry
      | file content =>
        simp only [Option.ite_none_right_eq_some, Option.some.injEq] at hentry
        exact ⟨name, content, hentry.2.symm, hentry.1, hmem⟩
    · cases h
    · cases h
    · cases h
  · rintro ⟨name, content, rfl, hname, hmem⟩
    obtain ⟨_, _, heq, _, hup⟩ := ht.placed _ hmem
    cases heq
    have hlook : d.look folder = .folder := hup
    rw [list, hlook]
    exact List.mem_filterMap.2 ⟨(name, .file content), mem_children.2 hmem, by simp [hname]; rfl⟩

/-- No generation is listed twice. -/
theorem list_nodup {d : Disk} (ht : Tree d.nodes) (folder : Path) : (list d folder).Nodup := by
  rw [list]
  split
  · refine List.pairwise_filterMap.2 ((children_pairwise ht folder).imp fun {a b} hne => ?_)
    rintro j ha j' hb rfl
    rcases a with ⟨name, _ | _⟩ <;> rcases b with ⟨name', _ | _⟩ <;>
      simp only [Option.ite_none_right_eq_some, Option.some.injEq, reduceCtorEq] at ha hb
    have hpath := congrArg Journal.path (ha.2.trans hb.2.symm)
    exact hne (List.cons.inj hpath).1
  all_goals exact List.nodup_nil

/-- A generation that is there reads as what its octets hold. -/
theorem packages_of_mem {d : Disk} (ht : Tree d.nodes) {j : Journal} {content : Bytes}
    (h : (j.path, Node.file content) ∈ d.nodes) :
    j.packages d = .ok (Record.textsOf content) := by
  have hlook : d.look j.path = .file content := ht.sight_of_mem h
  simp only [packages, Store.texts, Store.read, readFile, hlook, Store.toFault, Store.textsIn]

end Journal

end Holdfast
