import Holdfast.Proofs.Disk.Files
import Holdfast.Store

/-!
# Files that stay as they are

Most of what the engine writes goes to a file of its own, and leaves every other file alone.

- `Route.place_joinText`: a path that was made with a name leads to something of that name;
- `Disk.Preserves`: a file that stood at a path still stands there as it was;
- `Disk.perform_preserves`: an effect preserves every file but those that it names;
- one lemma for each change of the disk (`Disk.replaceFile_preserves`,
  `Store.replaceAlong_preserves`, …).
-/

namespace Holdfast

/-! ## Where a name leads -/

namespace Path

theorem splitSlash_cons (c : Char) (cs : List Char) :
    splitSlash (c :: cs) =
      if c = '/' then [] :: splitSlash cs
      else match splitSlash cs with
        | [] => [[c]]
        | part :: parts => (c :: part) :: parts := rfl

theorem splitSlash_ne_nil (cs : List Char) : splitSlash cs ≠ [] := by
  cases cs with
  | nil => nofun
  | cons c cs =>
    rw [splitSlash_cons]
    split
    · nofun
    · split <;> nofun

theorem splitSlash_append (before behind : List Char) :
    splitSlash (before ++ '/' :: behind) = splitSlash before ++ splitSlash behind := by
  induction before with
  | nil => rfl
  | cons c before ih =>
    rw [List.cons_append, splitSlash_cons, splitSlash_cons, ih]
    obtain ⟨part, parts, hparts⟩ := List.exists_cons_of_ne_nil (splitSlash_ne_nil before)
    rw [hparts]
    split <;> rfl

/-- A text without a slash is one part. -/
theorem splitSlash_name {cs : List Char} (h : '/' ∉ cs) : splitSlash cs = [cs] := by
  induction cs with
  | nil => rfl
  | cons c cs ih =>
    rw [List.mem_cons, not_or] at h
    rw [splitSlash_cons, if_neg (Ne.symm h.1), ih h.2]

/-- A name is the last part of a written path that was made with it. -/
theorem splitSlash_joinText (base : String) {name : String} (h : '/' ∉ name.toList) :
    ∃ parts, splitSlash (joinText base name).toList = parts ++ [name.toList] := by
  have hhead : name.toList.head? ≠ some '/' := by
    intro hhead
    exact h (List.mem_of_mem_head? hhead)
  unfold joinText
  rw [if_neg hhead]
  split
  · rename_i hbase
    rw [String.toList_append]
    rw [Bool.or_eq_true, decide_eq_true_eq, decide_eq_true_eq] at hbase
    rcases hbase with rfl | hslash
    · exact ⟨[], splitSlash_name h⟩
    · obtain ⟨before, hbefore⟩ := List.getLast?_eq_some_iff.1 hslash
      refine ⟨splitSlash before, ?_⟩
      rw [hbefore, List.append_assoc, List.singleton_append, splitSlash_append, splitSlash_name h]
  · refine ⟨splitSlash base.toList, ?_⟩
    rw [String.toList_append, String.toList_append, List.append_assoc]
    rw [← splitSlash_name h]
    exact splitSlash_append _ _

end Path

namespace Route

theorem placeOf_cons {name : String} (up : Path) (hidle : isIdle name = false) (hup : name ≠ "..") :
    placeOf (name :: up) = name :: placeOf up := by
  show Path.step (placeOf up) name = _
  unfold Path.step
  unfold isIdle at hidle
  rw [if_neg (by rw [hidle]; exact Bool.false_ne_true), if_neg hup]

/-- A written path leads to the name that it was made with. -/
theorem place_joinText (base name : String) (h : '/' ∉ name.toList)
    (hidle : isIdle name = false) (hup : name ≠ "..") :
    ∃ up, (ofText (Path.joinText base name)).place = name :: up := by
  obtain ⟨parts, hparts⟩ := Path.splitSlash_joinText base h
  unfold ofText place
  simp only [hparts, List.map_append, List.map_cons, List.map_nil, List.reverse_append,
    List.reverse_cons, List.reverse_nil, List.nil_append, List.singleton_append,
    String.ofList_toList, List.filter_cons, hidle, Bool.not_false, if_true]
  exact ⟨_, placeOf_cons _ hidle hup⟩

theorem place_child (r : Route) {name : String} (hidle : isIdle name = false) (hup : name ≠ "..") :
    (r.child name).place = name :: r.place :=
  placeOf_cons r.names hidle hup

/-- The name under which a replacement is prepared leads onwards. -/
theorem isIdle_tmp (name : String) : isIdle (name ++ ".tmp") = false := by
  have hne : ∀ text : String, text.toList.getLast? ≠ some 'p' → name ++ ".tmp" ≠ text := by
    rintro text hno rfl
    exact hno (by simp)
  simp [isIdle, hne "" (by decide), hne "." (by decide)]

theorem tmp_ne_up (name : String) : name ++ ".tmp" ≠ ".." := by
  intro h
  have hlast := congrArg (fun text => text.toList.getLast?) h
  simp at hlast

end Route

namespace Disk

variable {d d' d'' : Disk} {path other : Path}

/-- A file that stands at a path in the first disk stands there in the second, as it was. -/
def Preserves (path : Path) (d d' : Disk) : Prop :=
  ∀ content, d.look path = .file content → d'.look path = .file content

theorem Preserves.refl (path : Path) (d : Disk) : d.Preserves path d := fun _ h => h

theorem Preserves.trans (h : Preserves path d d') (h' : Preserves path d' d'') :
    Preserves path d d'' :=
  fun content hfile => h' content (h content hfile)

/-- The disk that an answer came with. -/
theorem Preserves.of_answer {α : Type} {answer : α × Disk} {outcome : α}
    (h : d.Preserves path answer.2) (heq : answer = (outcome, d')) : d.Preserves path d' := by
  rw [heq] at h
  exact h

/-! ## Effects -/

/-- An effect that does not name the file at a path. -/
def Effect.Avoids (path : Path) : Effect → Prop
  | .makeFolder _ => True
  | .createFile other | .extendFile other _ | .unlink other => other ≠ path
  | .rename source target => source ≠ path ∧ target ≠ path

/-- What is on the way to a folder is a folder. -/
theorem sight_of_suffix_folder {nodes : Listing} (h : sight nodes path = .folder)
    (hsuffix : other <:+ path) : sight nodes other = .folder := by
  induction path with
  | nil =>
    rw [List.suffix_nil.1 hsuffix]
    rfl
  | cons name up ih =>
    rcases List.suffix_cons_iff.1 hsuffix with rfl | hup
    · exact h
    · exact ih (sight_folder_iff.1 h).1 hup

/-- What is on the way to a file is a folder. -/
theorem sight_of_suffix_file {nodes : Listing} {content : Bytes}
    (h : sight nodes path = .file content) (hne : other ≠ path) (hsuffix : other <:+ path) :
    sight nodes other = .folder := by
  obtain ⟨name, up, rfl, -, hup⟩ := placed_of_sight (.inl ⟨content, h⟩)
  exact sight_of_suffix_folder hup ((List.suffix_cons_iff.1 hsuffix).resolve_left hne)

/-- An effect preserves every file that it does not name. -/
theorem perform_preserves (d : Disk) (effect : Effect) (h : effect.Avoids path) :
    d.Preserves path (d.perform effect).2 := by
  rcases d.perform_cases effect with ⟨nodes, hafter, heq⟩ | ⟨refusal, -, heq⟩
  · rw [heq]
    intro content hfile
    -- what is changed is no folder, so it does not lie on the way
    have hway : ∀ {other : Path}, other ≠ path → sight d.nodes other ≠ .folder →
        ¬ other <:+ path := fun hne hno hsuffix => hno (sight_of_suffix_file hfile hne hsuffix)
    have hset : ∀ {other : Path} {node : Node}, other ≠ path → sight d.nodes other ≠ .folder →
        sight (withNode d.nodes other node) path = .file content := fun hne hno =>
      (sight_withNode_other _ _ (hway hne hno)).trans hfile
    cases effect with
    | makeFolder other =>
      obtain ⟨rfl, hmissing, -⟩ := after_makeFolder hafter
      refine hset ?_ (by rw [hmissing]; nofun)
      rintro rfl
      cases hmissing.symm.trans hfile
    | createFile other =>
      obtain ⟨rfl, ⟨old, hold⟩ | ⟨hmissing, -⟩⟩ := after_createFile hafter
      · exact hset h (by rw [hold]; nofun)
      · exact hset h (by rw [hmissing]; nofun)
    | extendFile other more =>
      obtain ⟨old, hold, rfl⟩ := after_extendFile hafter
      exact hset h (by rw [hold]; nofun)
    | rename source target =>
      obtain ⟨moved, hsource, rfl, htarget⟩ := after_rename hafter
      have hno : sight d.nodes target ≠ .folder := by
        rcases htarget with ⟨old, hold⟩ | ⟨hmissing, -⟩
        · rw [hold]; nofun
        · rw [hmissing]; nofun
      show sight (withNode (without d.nodes source) target (.file moved)) path = .file content
      rw [sight_withNode_other _ _ (hway h.2 hno),
        sight_without_other _ (hway h.1 (by rw [hsource]; nofun))]
      exact hfile
    | unlink other =>
      obtain ⟨⟨old, hold⟩, rfl⟩ := after_unlink hafter
      exact (sight_without_other _ (hway h (by rw [hold]; nofun))).trans hfile
  · rw [heq]
    exact .refl path d

/-! ## Changes at a path -/

/-- A path at which no replacement is prepared. -/
def IsFinal (path : Path) : Prop := ∀ name up, (name ++ ".tmp") :: up ≠ path

theorem IsFinal.ne_preparing (h : IsFinal path) (hne : path ≠ []) (other : Path) :
    preparing other ≠ path := by
  cases other with
  | nil => exact hne.symm
  | cons name up => exact h name up

theorem makeFolders_preserves (d : Disk) (path other : Path) :
    d.Preserves path (d.makeFolders other).2 := by
  induction other with
  | nil => exact .refl path d
  | cons name up ih =>
    unfold makeFolders
    split
    · exact .refl path d
    · exact .refl path d
    · exact .refl path d
    · split
      · exact ih.of_answer ‹_›
      · rename_i d₁ heq
        exact (ih.of_answer heq).trans (d₁.perform_preserves _ trivial)

/-- A file is replaced; the replacement may fail at any point. -/
theorem replaceFile_preserves (d : Disk) {other : Path} (content : Bytes) (hne : other ≠ path)
    (hbeside : preparing other ≠ path) : d.Preserves path (d.replaceFile other content).2 := by
  have hfolders := d.makeFolders_preserves path other.tail
  unfold replaceFile
  split
  · exact hfolders.of_answer ‹_›
  · rename_i d₁ heq
    refine (hfolders.of_answer heq).trans ?_
    have hcreate := d₁.perform_preserves (.createFile (preparing other)) hbeside
    split
    · exact hcreate.of_answer ‹_›
    · rename_i d₂ heq
      refine (hcreate.of_answer heq).trans ?_
      have hextend := d₂.perform_preserves (.extendFile (preparing other) content) hbeside
      split
      · exact hextend.of_answer ‹_›
      · rename_i d₃ heq
        refine (hextend.of_answer heq).trans ?_
        have hrename := d₃.perform_preserves (.rename (preparing other) other) ⟨hbeside, hne⟩
        split
        · exact hrename.of_answer ‹_›
        · rename_i d₄ heq
          exact (hrename.of_answer heq).trans (d₄.perform_preserves _ hbeside)

theorem appendFile_preserves (d : Disk) {other : Path} (content : Bytes) (hne : other ≠ path) :
    d.Preserves path (d.appendFile other content).2 := by
  unfold appendFile
  split
  · have hcreate := d.perform_preserves (.createFile other) hne
    split
    · exact hcreate.of_answer ‹_›
    · rename_i d₁ heq
      exact (hcreate.of_answer heq).trans (d₁.perform_preserves _ hne)
  · exact d.perform_preserves _ hne

theorem removeFile_preserves (d : Disk) {other : Path} (hne : other ≠ path) :
    d.Preserves path (d.removeFile other).2 := by
  have hunlink := d.perform_preserves (.unlink other) hne
  unfold removeFile
  split
  · exact hunlink.of_answer ‹_›
  · exact hunlink.of_answer ‹_›

/-! ## Changes along a route -/

theorem makeFoldersAlong_preserves (d : Disk) (path names : Path) :
    d.Preserves path (d.makeFoldersAlong names).2 := by
  induction names with
  | nil => exact .refl path d
  | cons name up ih =>
    unfold makeFoldersAlong
    split
    · exact .refl path d
    · exact .refl path d
    · exact .refl path d
    · split
      · exact ih.of_answer ‹_›
      · rename_i d₁ heq
        refine (ih.of_answer heq).trans ?_
        split
        · exact .refl path d₁
        · exact d₁.perform_preserves _ trivial

theorem makeWay_preserves (d : Disk) (path : Path) (r : Route) :
    d.Preserves path (d.makeWay r).2 := by
  unfold makeWay
  split
  · exact d.makeFoldersAlong_preserves path _
  · exact d.makeFoldersAlong_preserves path _
  · split
    · have htail := d.makeFoldersAlong_preserves path r.names.tail
      split
      · exact htail.of_answer ‹_›
      · split <;> exact htail.of_answer ‹_›
    · exact d.makeFoldersAlong_preserves path _

/-- The replacement at the end of a route is prepared under a name of its own. -/
theorem IsFinal.ne_placeOf_preparing (h : IsFinal path) (names : Path) :
    Route.placeOf (Route.preparing names) ≠ path := by
  have hplace : ∀ (name : String) (up : Path), Route.placeOf ((name ++ ".tmp") :: up) ≠ path := by
    intro name up
    rw [Route.placeOf_cons up (Route.isIdle_tmp name) (Route.tmp_ne_up name)]
    exact h name _
  unfold Route.preparing
  split
  · exact hplace "" []
  · split
    · exact hplace "" _
    · exact hplace _ _

theorem replaceAlong_preserves (d : Disk) (hfinal : IsFinal path) (hroot : path ≠ []) {r : Route}
    (content : Bytes) (hne : r.place ≠ path) : d.Preserves path (d.replaceAlong r content).2 := by
  have hfolders := d.makeFoldersAlong_preserves path r.names.tail
  unfold replaceAlong
  split
  · exact hfolders.of_answer ‹_›
  · rename_i d₁ heq
    refine (hfolders.of_answer heq).trans ?_
    split
    · exact .refl path d₁
    · split
      · exact d₁.replaceFile_preserves content hne (hfinal.ne_preparing hroot _)
      · have hcreate := d₁.perform_preserves (.createFile (Route.placeOf (Route.preparing r.names)))
          (hfinal.ne_placeOf_preparing r.names)
        split
        · exact hcreate.of_answer ‹_›
        · rename_i d₂ heq
          refine (hcreate.of_answer heq).trans ?_
          have hextend := d₂.perform_preserves
            (.extendFile (Route.placeOf (Route.preparing r.names)) content)
            (hfinal.ne_placeOf_preparing r.names)
          split
          · exact hextend.of_answer ‹_›
          · rename_i d₃ heq
            exact (hextend.of_answer heq).trans
              (d₃.perform_preserves _ (hfinal.ne_placeOf_preparing r.names))

theorem removeAlong_preserves (d : Disk) {r : Route} (hne : r.place ≠ path) :
    d.Preserves path (d.removeAlong r).2 := by
  unfold removeAlong
  split
  · exact .refl path d
  · split
    · exact d.removeFile_preserves hne
    · exact .refl path d
  · exact .refl path d
  · exact .refl path d

end Disk

/-! ## Changes of records -/

namespace Store

open Disk

variable {d : Disk} {path other : Path}

theorem replace_preserves (d : Disk) (content : Except Fault Bytes) (hne : other ≠ path)
    (hbeside : preparing other ≠ path) : d.Preserves path (replace d other content).2 := by
  unfold replace
  split
  · exact .refl path d
  · exact d.replaceFile_preserves _ hne hbeside

theorem append_preserves (d : Disk) (content : Except Fault Bytes) (hne : other ≠ path) :
    d.Preserves path (append d other content).2 := by
  unfold append
  split
  · exact .refl path d
  · exact d.appendFile_preserves _ hne

theorem replaceAlong_preserves (d : Disk) (hfinal : IsFinal path) (hroot : path ≠ []) {r : Route}
    (content : Except Fault Bytes) (hne : r.place ≠ path) :
    d.Preserves path (replaceAlong d r content).2 := by
  unfold replaceAlong
  split
  · exact .refl path d
  · exact d.replaceAlong_preserves hfinal hroot _ hne

theorem remove_preserves (d : Disk) (hne : other ≠ path) : d.Preserves path (remove d other).2 :=
  d.removeFile_preserves hne

theorem removeAlong_preserves (d : Disk) {r : Route} (hne : r.place ≠ path) :
    d.Preserves path (removeAlong d r).2 :=
  d.removeAlong_preserves hne

theorem makeWay_preserves (d : Disk) (path : Path) (r : Route) : d.Preserves path (makeWay d r).2 :=
  d.makeWay_preserves path r

end Store

end Holdfast
