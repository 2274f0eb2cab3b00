import Holdfast.Proofs.Disk.Changes

/-!
# Ways to files

A written path is walked folder by folder. Once the way to a folder could be made it can be
walked for good, because no change takes a folder away; what is in the folder is then seen at
its place.

- `Disk.makeWay_ok`: **a way that could be made leads to a folder**;
- `Disk.Changes.lookAlong_folder`: it still does after any change;
- `Disk.lookAlong_child`: what stands in such a folder is seen at its place;
- `Disk.replaceAlong_child_ok`, `Disk.removeAlong_child_ok`: a file in a folder is there once it
  could be replaced, and gone once it could be removed.
-/

namespace Holdfast

/-! ## Names that can be passed to the disk -/

namespace Route

theorem foldl_octets_mono (names : Path) {m n : Nat} (h : m ≤ n) :
    names.foldl (fun octets name => octets + Utf8.size name + 1) m ≤
      names.foldl (fun octets name => octets + Utf8.size name + 1) n := by
  induction names generalizing m n with
  | nil => exact h
  | cons name up ih =>
    rw [List.foldl_cons, List.foldl_cons]
    exact ih (by omega)

/-- Where a replacement can be prepared, the file itself can be reached. -/
theorem isWalkable_of_preparing {name : String} {up : Path} (hup : name ≠ "..")
    (h : isWalkable (preparing (name :: up)) = true) : isWalkable (name :: up) = true := by
  have hsize : Utf8.size name ≤ Utf8.size (name ++ ".tmp") := by
    simp [Utf8.size, Utf8.encode, String.toList_append]
  rw [preparing, if_neg hup, isWalkable, Bool.and_eq_true, List.all_cons, Bool.and_eq_true] at h
  obtain ⟨hoctets, hname, hrest⟩ := h
  rw [isWalkable, Bool.and_eq_true, List.all_cons, Bool.and_eq_true]
  refine ⟨?_, ?_, hrest⟩
  · rw [decide_eq_true_eq] at hoctets ⊢
    refine Nat.le_trans ?_ hoctets
    rw [List.foldl_cons, List.foldl_cons]
    exact foldl_octets_mono up (by omega)
  · rw [String.toList_append] at hname
    simp only [List.contains_eq_mem, Bool.not_eq_true', decide_eq_false_iff_not,
      List.mem_append, not_or] at hname ⊢
    exact hname.1

end Route

namespace Disk

variable {d d' : Disk} {path other : Path} {P : Effect → Prop}

/-! ## Ways -/

/-- Names that can be walked can still be walked where all folders are kept. -/
theorem walk_folder_mono (hkeep : ∀ place, d.look place = .folder → d'.look place = .folder)
    {names : Path} (h : d.walk names = .folder) : d'.walk names = .folder := by
  induction names with
  | nil => rfl
  | cons name up ih =>
    unfold walk at h
    split at h
    · rename_i hup
      unfold walk
      rw [ih hup]
      exact hkeep _ h
    · cases h
    · cases h
    · cases h

theorem lookAlong_folder_iff {names : Path} :
    d.lookAlong names = .folder ↔ Route.isWalkable names = true ∧ d.walk names = .folder := by
  unfold lookAlong
  by_cases h : Route.isWalkable names = true
  · rw [if_pos h]
    simp only [h, true_and]
  · rw [if_neg h]
    simp only [h, false_and, reduceCtorEq]

/-- A folder at the end of a route stays there. -/
theorem Changes.lookAlong_folder (h : d.Changes P d') {names : Path}
    (hnames : d.lookAlong names = .folder) : d'.lookAlong names = .folder := by
  obtain ⟨hwalkable, hwalk⟩ := lookAlong_folder_iff.1 hnames
  exact lookAlong_folder_iff.2 ⟨hwalkable, walk_folder_mono (fun _ => h.folders) hwalk⟩

/-- The place to which names lead that can be walked to a folder. -/
theorem look_placeOf_of_walk {names : Path} (h : d.walk names = .folder) :
    d.look (Route.placeOf names) = .folder := by
  cases names with
  | nil => rfl
  | cons name up =>
    unfold walk at h
    split at h
    · exact h
    · cases h
    · cases h
    · cases h

theorem perform_makeFolder_ok (h : d.perform (.makeFolder other) = (.ok (), d')) :
    d'.look other = .folder := by
  obtain ⟨hnodes, hmissing, hfolder⟩ := after_makeFolder (perform_ok h)
  obtain ⟨name, up, rfl, hname, hup⟩ := missing_in_folder hmissing hfolder
  have hup' := sight_withNode_other d.nodes .folder
    (not_suffix_of_shorter (Nat.lt_succ_self up.length) : ¬ (name :: up) <:+ up)
  rw [look, hnodes]
  exact sight_folder_iff.2 ⟨hup'.trans hup, hname, node?_withNode_self _ _ _⟩

/-- Folders that could be made along names can be walked. -/
theorem makeFoldersAlong_ok {names : Path} (h : d.makeFoldersAlong names = (.ok (), d')) :
    d'.lookAlong names = .folder := by
  induction names generalizing d' with
  | nil => exact lookAlong_folder_iff.2 ⟨by decide, rfl⟩
  | cons name up ih =>
    unfold makeFoldersAlong at h
    split at h
    · cases h
      assumption
    · cases h
    · cases h
    · rename_i hmissing
      have hwalkable : Route.isWalkable (name :: up) = true := by
        cases hwalkable : Route.isWalkable (name :: up) with
        | true => rfl
        | false => simp [lookAlong, hwalkable] at hmissing
      split at h
      · cases h
      · rename_i d₁ heq
        split at h
        · cases h
          assumption
        · obtain ⟨-, hup⟩ := lookAlong_folder_iff.1 (ih heq)
          have hup' : d'.walk up = .folder := by
            refine walk_folder_mono (fun place hplace => ?_) hup
            have hkept := d₁.perform_folders (.makeFolder (Route.placeOf (name :: up))) hplace
            rw [h] at hkept
            exact hkept
          refine lookAlong_folder_iff.2 ⟨hwalkable, ?_⟩
          rw [walk, hup']
          exact perform_makeFolder_ok h

/-- **A way that could be made leads to a folder.** -/
theorem makeWay_ok {r : Route} (h : d.makeWay r = (.ok (), d')) :
    d'.lookAlong r.names = .folder := by
  unfold makeWay at h
  split at h
  · exact makeFoldersAlong_ok h
  · exact makeFoldersAlong_ok h
  · split at h
    · split at h
      · cases h
      · split at h
        · cases h
          assumption
        · cases h
    · exact makeFoldersAlong_ok h

theorem makeFoldersAlong_of_folder {names : Path} (h : d.lookAlong names = .folder) :
    d.makeFoldersAlong names = (.ok (), d) := by
  cases names with
  | nil => rfl
  | cons name up => rw [makeFoldersAlong, h]

/-! ## A file in a folder that is there -/

section

variable {r : Route} {name : String} (hfolder : d.lookAlong r.names = .folder)

include hfolder

/-- In a folder that is there one sees what stands at the place of a name. -/
theorem lookAlong_child (hidle : Route.isIdle name = false) (hup : name ≠ "..")
    (hwalkable : Route.isWalkable (r.child name).names = true) :
    d.lookAlong (r.child name).names = d.look (name :: r.place) := by
  obtain ⟨-, hwalk⟩ := lookAlong_folder_iff.1 hfolder
  rw [lookAlong, if_pos hwalkable, Route.child, walk, hwalk]
  exact congrArg d.look (Route.placeOf_cons r.names hidle hup)

/-- Whether something is in a folder is not changed by effects that do not name its place. -/
theorem Changes.existsAlong_child (hidle : Route.isIdle name = false) (hup : name ≠ "..")
    (h : d.Changes (Effect.Misses (name :: r.place)) d') :
    d'.existsAlong (r.child name).names = d.existsAlong (r.child name).names := by
  unfold existsAlong
  cases hwalkable : Route.isWalkable (r.child name).names with
  | false => simp [lookAlong, hwalkable]
  | true =>
    obtain ⟨-, hwalk⟩ := lookAlong_folder_iff.1 hfolder
    rw [lookAlong_child (h.lookAlong_folder hfolder) hidle hup hwalkable,
      lookAlong_child hfolder hidle hup hwalkable, h.beside (look_placeOf_of_walk hwalk)]

/-- A file in a folder that is there is replaced at its own place. -/
theorem replaceAlong_child (content : Bytes) (hidle : Route.isIdle name = false)
    (hup : name ≠ "..") :
    d.replaceAlong (r.child name) content =
      if Route.isWalkable (Route.preparing (r.child name).names) then
        d.replaceFile (name :: r.place) content
      else (.error .denied, d) := by
  have hplace : (r.child name).place = name :: r.place := r.place_child hidle hup
  have hfile : (r.child name).namesFile = true := by simp [Route.namesFile, Route.child, hup]
  have hways : d.makeFoldersAlong (r.child name).names.tail = (.ok (), d) :=
    makeFoldersAlong_of_folder hfolder
  rw [replaceAlong, hways]
  cases Route.isWalkable (Route.preparing (r.child name).names) <;> simp [hfile, hplace]

theorem replaceAlong_child_changes (content : Bytes) (hidle : Route.isIdle name = false)
    (hup : name ≠ "..") (hcreate : P (.createFile ((name ++ ".tmp") :: r.place)))
    (hextend : P (.extendFile ((name ++ ".tmp") :: r.place) content))
    (hrename : P (.rename ((name ++ ".tmp") :: r.place) (name :: r.place)))
    (hunlink : P (.unlink ((name ++ ".tmp") :: r.place))) :
    d.Changes P (d.replaceAlong (r.child name) content).2 := by
  obtain ⟨-, hwalk⟩ := lookAlong_folder_iff.1 hfolder
  rw [replaceAlong_child hfolder content hidle hup]
  split
  · exact d.replaceFile_changes content (.inl (look_placeOf_of_walk hwalk)) hcreate hextend hrename
      hunlink
  · exact .refl

/-- **A file in a folder is there once it could be replaced.** -/
theorem replaceAlong_child_ok {content : Bytes} (hidle : Route.isIdle name = false)
    (hup : name ≠ "..") (h : d.replaceAlong (r.child name) content = (.ok (), d')) :
    d'.existsAlong (r.child name).names = true := by
  have hchanges := replaceAlong_child_changes (P := fun _ => True) hfolder content hidle hup
    trivial trivial trivial trivial
  rw [h] at hchanges
  rw [replaceAlong_child hfolder content hidle hup] at h
  split at h
  · rename_i hwalkable
    rw [existsAlong, lookAlong_child (hchanges.lookAlong_folder hfolder) hidle hup
      (Route.isWalkable_of_preparing hup hwalkable), replaceFile_ok h]
  · cases h

/-- **A file in a folder is gone once it could be removed.** -/
theorem removeAlong_child_ok (hidle : Route.isIdle name = false) (hup : name ≠ "..")
    (h : d.removeAlong (r.child name) = (.ok (), d')) :
    d'.existsAlong (r.child name).names = false := by
  unfold removeAlong at h
  split at h
  · rename_i hmissing
    cases h
    rw [existsAlong, hmissing]
  · rename_i content hfile
    have hwalkable : Route.isWalkable (r.child name).names = true := by
      cases hwalkable : Route.isWalkable (r.child name).names with
      | true => rfl
      | false => simp [lookAlong, hwalkable] at hfile
    rw [lookAlong_child hfolder hidle hup hwalkable] at hfile
    have hplace : (r.child name).place = name :: r.place := r.place_child hidle hup
    have hgone := removeFile_of_file hfile
    have hchanges : d.Changes (fun _ => True) (d.removeFile (name :: r.place)).2 :=
      d.removeFile_changes trivial
    have hending : (r.child name).ending = .plain := rfl
    rw [if_pos hending, hplace] at h
    rw [h] at hgone hchanges
    rw [existsAlong, lookAlong_child (hchanges.lookAlong_folder hfolder) hidle hup hwalkable,
      hgone]
  · cases h
  · cases h

end

end Disk

end Holdfast
