import Holdfast.Proofs.Disk
import Holdfast.Store

/-!
# What files read as after a change

Looking for a path goes from folder to folder, so a change at one place is not seen at places
that are no deeper. With this a change of a file can be told by what is in sight afterwards,
whether or not the listing is a tree.

- `Disk.appendFile_ok`: an appended file reads as before with the new octets behind;
- `Disk.replaceFile_ok`: **a replaced file reads as its new content**;
- `Disk.Replaceable`: the places at which a file can be replaced, with
  `Disk.Replaceable.replaceFile`: there a replacement succeeds;
- `Disk.removeFile_of_file`: a removed file is missing;
- `Store.replace_ok`, `Store.replace_of_replaceable`: the same of files that hold records.
-/

namespace Holdfast

namespace Disk

/-! ## Lookup after a change -/

theorem node?_without_self (nodes : Listing) (path : Path) :
    node? (without nodes path) path = none := by
  rw [node?, List.lookup_eq_none_iff]
  intro entry hentry
  rw [bne_iff_ne]
  exact (mem_without.1 hentry).2.symm

theorem node?_without_other (nodes : Listing) {path other : Path} (hne : other ≠ path) :
    node? (without nodes path) other = node? nodes other := by
  induction nodes with
  | nil => rfl
  | cons entry nodes ih =>
    obtain ⟨at', node'⟩ := entry
    rw [node?] at ih ⊢
    by_cases heq : at' = path
    · subst heq
      rw [without, List.filter_cons_of_neg (by simp), node?, List.lookup_cons,
        beq_eq_false_iff_ne.2 hne]
      exact ih
    · rw [without, List.filter_cons_of_pos (by simpa using heq), node?, List.lookup_cons,
        List.lookup_cons]
      cases other == at' with
      | true => rfl
      | false => exact ih

theorem node?_withNode_self (nodes : Listing) (path : Path) (node : Node) :
    node? (withNode nodes path node) path = some node := by
  simp [node?, withNode]

theorem node?_withNode_other (nodes : Listing) {path other : Path} (node : Node)
    (hne : other ≠ path) : node? (withNode nodes path node) other = node? nodes other := by
  rw [node?, withNode, List.lookup_cons, beq_eq_false_iff_ne.2 hne]
  exact node?_without_other nodes hne

/-! ## Sight after a change -/

/-- What is in sight depends on what is listed on the way. -/
theorem sight_congr {nodes nodes' : Listing} {path : Path}
    (h : ∀ other : Path, other <:+ path → node? nodes' other = node? nodes other) :
    sight nodes' path = sight nodes path := by
  induction path with
  | nil => rfl
  | cons name up ih =>
    have hup : sight nodes' up = sight nodes up :=
      ih fun other hother => h other (hother.trans (List.suffix_cons name up))
    simp only [sight, hup, h (name :: up) List.suffix_rfl]

/-- What is put at one place is not seen at another, unless it is on the way. -/
theorem sight_withNode_other (nodes : Listing) {path other : Path} (node : Node)
    (h : ¬ path <:+ other) : sight (withNode nodes path node) other = sight nodes other := by
  refine sight_congr fun place hplace => node?_withNode_other nodes node ?_
  rintro rfl
  exact h hplace

/-- What is taken away at one place is not missed at another, unless it is on the way. -/
theorem sight_without_other (nodes : Listing) {path other : Path} (h : ¬ path <:+ other) :
    sight (without nodes path) other = sight nodes other := by
  refine sight_congr fun place hplace => node?_without_other nodes ?_
  rintro rfl
  exact h hplace

theorem not_suffix_of_shorter {path other : Path} (h : other.length < path.length) :
    ¬ path <:+ other :=
  fun hsuffix => Nat.not_le_of_lt h hsuffix.length_le

/-- A file can be put where a file is, or nothing inside a folder. -/
theorem placed_of_sight {nodes : Listing} {path : Path}
    (h : (∃ old, sight nodes path = .file old) ∨
      (sight nodes path = .missing ∧ sight nodes path.tail = .folder)) :
    ∃ name up, path = name :: up ∧ isName name = true ∧ sight nodes up = .folder := by
  rcases h with ⟨old, hold⟩ | ⟨hmissing, hfolder⟩
  · cases path with
    | nil => cases hold
    | cons name up =>
      rw [sight] at hold
      split at hold
      · rename_i hup
        split at hold
        · rename_i hname
          exact ⟨name, up, rfl, hname, hup⟩
        · cases hold
      all_goals cases hold
  · exact missing_in_folder hmissing hfolder

/-- What is put into a folder under a possible name is in sight. -/
theorem sight_withNode_self {nodes : Listing} {name : String} {up : Path} (content : Bytes)
    (hname : isName name = true) (hup : sight nodes up = .folder) :
    sight (withNode nodes (name :: up) (.file content)) (name :: up) = .file content := by
  have hup' := sight_withNode_other nodes (.file content)
    (not_suffix_of_shorter (Nat.lt_succ_self up.length) : ¬ (name :: up) <:+ up)
  simp [sight, hup', hup, hname, node?_withNode_self]

theorem sight_withFile {nodes : Listing} {path : Path} (content : Bytes)
    (h : (∃ old, sight nodes path = .file old) ∨
      (sight nodes path = .missing ∧ sight nodes path.tail = .folder)) :
    sight (withNode nodes path (.file content)) path = .file content := by
  obtain ⟨name, up, rfl, hname, hup⟩ := placed_of_sight h
  exact sight_withNode_self content hname hup

/-- A file that is taken away is missing. -/
theorem sight_without_self {nodes : Listing} {path : Path} {content : Bytes}
    (h : sight nodes path = .file content) : sight (without nodes path) path = .missing := by
  obtain ⟨name, up, rfl, hname, hup⟩ := placed_of_sight (.inl ⟨content, h⟩)
  have hup' := sight_without_other nodes
    (not_suffix_of_shorter (Nat.lt_succ_self up.length) : ¬ (name :: up) <:+ up)
  simp [sight, hup', hup, hname, node?_without_self]

/-! ## Changes that succeed -/

theorem perform_ok {d d' : Disk} {effect : Effect} (h : d.perform effect = (.ok (), d')) :
    after d.nodes effect = .ok d'.nodes := by
  rcases perform_cases d effect with ⟨nodes, hafter, heq⟩ | ⟨_, _, heq⟩
  · rw [heq] at h
    cases h
    exact hafter
  · rw [heq] at h
    cases h

/-- A file that is made is empty. -/
theorem perform_createFile_ok {d d' : Disk} {path : Path}
    (h : d.perform (.createFile path) = (.ok (), d')) : d'.look path = .file [] := by
  obtain ⟨hnodes, hplace⟩ := after_createFile (perform_ok h)
  rw [look, hnodes]
  exact sight_withFile [] hplace

/-- Octets that are added to a file stand behind what it held. -/
theorem perform_extendFile_ok {d d' : Disk} {path : Path} {content : Bytes}
    (h : d.perform (.extendFile path content) = (.ok (), d')) :
    ∃ old, d.look path = .file old ∧ d'.look path = .file (old ++ content) := by
  obtain ⟨old, hold, hnodes⟩ := after_extendFile (perform_ok h)
  refine ⟨old, hold, ?_⟩
  rw [look, hnodes]
  exact sight_withFile _ (.inl ⟨old, hold⟩)

/-- A file that is moved to a place no deeper holds there what it held. -/
theorem perform_rename_ok {d d' : Disk} {source target : Path} {content : Bytes}
    (h : d.perform (.rename source target) = (.ok (), d'))
    (hcontent : d.look source = .file content) (hdepth : target.length ≤ source.length) :
    d'.look target = .file content := by
  obtain ⟨content', hsource, hnodes, hplace⟩ := after_rename (perform_ok h)
  obtain rfl : content = content' := Sight.file.inj (hcontent.symm.trans hsource)
  obtain ⟨name, up, rfl, hname, hup⟩ := placed_of_sight hplace
  rw [look, hnodes]
  refine sight_withNode_self content hname ?_
  rw [sight_without_other d.nodes (not_suffix_of_shorter hdepth)]
  exact hup

/-- A file that was appended to reads as before with the new octets behind; one that was missing
holds the new octets alone. -/
theorem appendFile_ok {d d' : Disk} {path : Path} {content : Bytes}
    (h : d.appendFile path content = (.ok (), d')) :
    (∃ old, d.look path = .file old ∧ d'.look path = .file (old ++ content)) ∨
      (d.look path = .missing ∧ d'.look path = .file content) := by
  rw [appendFile] at h
  split at h
  · rename_i hmissing
    right
    refine ⟨hmissing, ?_⟩
    split at h
    · cases h
    · rename_i d₁ hcreate
      obtain ⟨old, hold, hnew⟩ := perform_extendFile_ok h
      have hempty : old = [] :=
        Sight.file.inj (hold.symm.trans (perform_createFile_ok hcreate))
      rw [hnew, hempty, List.nil_append]
  · exact .inl (perform_extendFile_ok h)

theorem length_preparing (path : Path) : (preparing path).length = path.length := by
  cases path <;> rfl

/-- **A file that was replaced reads as its new content.** -/
theorem replaceFile_ok {d d' : Disk} {path : Path} {content : Bytes}
    (h : d.replaceFile path content = (.ok (), d')) : d'.look path = .file content := by
  rw [replaceFile] at h
  split at h
  · cases h
  · rename_i d₁ _
    split at h
    · cases h
    · rename_i d₂ hcreate
      split at h
      · cases h
      · rename_i d₃ hextend
        split at h
        · rename_i d₄ hrename
          cases h
          obtain ⟨old, hold, hnew⟩ := perform_extendFile_ok hextend
          have hempty : old = [] :=
            Sight.file.inj (hold.symm.trans (perform_createFile_ok hcreate))
          rw [hempty, List.nil_append] at hnew
          exact perform_rename_ok hrename hnew (Nat.le_of_eq (length_preparing path).symm)
        · cases h

/-- A file that is removed is missing afterwards. -/
theorem removeFile_of_file {d : Disk} {path : Path} {content : Bytes}
    (h : d.look path = .file content) : (d.removeFile path).2.look path = .missing := by
  have hafter : after d.nodes (.unlink path) = .ok (without d.nodes path) := by
    rw [after, show sight d.nodes path = .file content from h]
  have hperform : d.perform (.unlink path) =
      (.ok (), { d with nodes := without d.nodes path, log := .unlink path :: d.log }) := by
    rw [perform, hafter]
  rw [removeFile, hperform]
  exact sight_without_self h

/-! ## Changes that cannot be refused -/

/-- Nothing but a file stands at a place. -/
def Vacant (d : Disk) (path : Path) : Prop :=
  (∃ old, d.look path = .file old) ∨ d.look path = .missing

/-- A file can be replaced: its folder is there, and nothing but files at the two places that a
replacement uses. -/
structure Replaceable (d : Disk) (path : Path) : Prop where
  folder : d.look path.tail = .folder
  place : d.Vacant path
  beside : d.Vacant (preparing path)

theorem makeFolders_of_folder {d : Disk} {path : Path} (h : d.look path = .folder) :
    d.makeFolders path = (.ok (), d) := by
  cases path with
  | nil => rfl
  | cons name up => rw [makeFolders, h]

theorem perform_of_after {d : Disk} {effect : Effect} {nodes : Listing}
    (h : after d.nodes effect = .ok nodes) :
    ∃ d', d.perform effect = (.ok (), d') ∧ d'.nodes = nodes := by
  rw [perform, h]
  exact ⟨_, rfl, rfl⟩

theorem perform_createFile {d : Disk} {path : Path} (hplace : d.Vacant path)
    (hfolder : d.look path.tail = .folder) :
    ∃ d', d.perform (.createFile path) = (.ok (), d') ∧
      d'.nodes = withNode d.nodes path (.file []) := by
  refine perform_of_after ?_
  rw [look] at hfolder
  rcases hplace with ⟨old, hold⟩ | hmissing
  · rw [look] at hold
    rw [after, hold]
  · rw [look] at hmissing
    rw [after, hmissing, hfolder]

theorem perform_extendFile {d : Disk} {path : Path} {old : Bytes} (h : d.look path = .file old)
    (content : Bytes) :
    ∃ d', d.perform (.extendFile path content) = (.ok (), d') ∧
      d'.nodes = withNode d.nodes path (.file (old ++ content)) := by
  refine perform_of_after ?_
  rw [look] at h
  rw [after, h]

theorem perform_rename {d : Disk} {source target : Path} {content : Bytes}
    (h : d.look source = .file content) (hplace : d.Vacant target)
    (hfolder : d.look target.tail = .folder) :
    ∃ d', d.perform (.rename source target) = (.ok (), d') := by
  suffices hafter : ∃ nodes, after d.nodes (.rename source target) = .ok nodes by
    obtain ⟨nodes, hnodes⟩ := hafter
    obtain ⟨d', hd', -⟩ := perform_of_after hnodes
    exact ⟨d', hd'⟩
  rw [look] at h hfolder
  rcases hplace with ⟨old, hold⟩ | hmissing
  · rw [look] at hold
    simp only [after, h, hold]
    exact ⟨_, rfl⟩
  · rw [look] at hmissing
    simp only [after, h, hmissing, hfolder]
    exact ⟨_, rfl⟩

/-- **At a replaceable place a replacement succeeds.** -/
theorem Replaceable.replaceFile {d : Disk} {path : Path} (h : d.Replaceable path)
    (content : Bytes) : ∃ d', d.replaceFile path content = (.ok (), d') := by
  obtain ⟨hfolder, hplace, hbeside⟩ := h
  cases path with
  | nil => rcases hplace with ⟨_, hold⟩ | hmissing <;> contradiction
  | cons name up =>
    have hup : (name ++ ".tmp") :: up ≠ name :: up := by simp
    -- neither the place nor its folder sees what is prepared beside
    have hother : ¬ preparing (name :: up) <:+ name :: up := by
      intro hsuffix
      exact hup (hsuffix.eq_of_length (by simp [preparing]))
    have hshorter : ¬ preparing (name :: up) <:+ up :=
      not_suffix_of_shorter (Nat.lt_succ_self up.length)
    obtain ⟨d₁, hcreate, hnodes₁⟩ := perform_createFile hbeside hfolder
    obtain ⟨d₂, hextend, hnodes₂⟩ := perform_extendFile (perform_createFile_ok hcreate) content
    obtain ⟨old, hold, hnew⟩ := perform_extendFile_ok hextend
    have hsame : ∀ other, ¬ preparing (name :: up) <:+ other → d₂.look other = d.look other := by
      intro other hne
      rw [look, hnodes₂, sight_withNode_other _ _ hne, hnodes₁, sight_withNode_other _ _ hne]
      rfl
    have hplace₂ : d₂.Vacant (name :: up) := by
      rw [Vacant, hsame _ hother]
      exact hplace
    have hfolder₂ : d₂.look up = .folder := by
      rw [hsame up hshorter]
      exact hfolder
    obtain ⟨d₃, hrename⟩ := perform_rename hnew hplace₂ hfolder₂
    refine ⟨d₃, ?_⟩
    rw [Disk.replaceFile, makeFolders_of_folder hfolder]
    simp only [hcreate, hextend, hrename]

end Disk

/-! ## Files that hold records -/

namespace Store

/-- A record that was stored is what its file holds. -/
theorem replace_ok {d d' : Disk} {path : Path} {content : Except Fault Bytes}
    (h : replace d path content = (.ok (), d')) :
    ∃ record, content = .ok record ∧ d'.look path = .file record := by
  cases content with
  | error e => cases h
  | ok record =>
    rw [replace] at h
    rcases hreplace : d.replaceFile path record with ⟨outcome, d₁⟩
    rw [hreplace] at h
    cases outcome with
    | error refusal => cases h
    | ok _ =>
      cases h
      exact ⟨record, rfl, Disk.replaceFile_ok hreplace⟩

theorem replace_of_replaceable {d : Disk} {path : Path} (h : d.Replaceable path)
    (record : Bytes) : ∃ d', replace d path (.ok record) = (.ok (), d') := by
  obtain ⟨d', hd'⟩ := h.replaceFile record
  refine ⟨d', ?_⟩
  rw [replace, hd']
  rfl

theorem read_file {d : Disk} {path : Path} {content : Bytes} (h : d.look path = .file content) :
    read d path = .ok (some content) := by
  rw [read, Disk.readFile, h]
  rfl

end Store

end Holdfast
