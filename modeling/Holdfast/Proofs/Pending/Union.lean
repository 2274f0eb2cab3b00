import Holdfast.Proofs.Pending.Handover

/-!
# What a replay adds up to

A replay whose file operations succeed goes through the leftover generations one by one. It makes
its own generation in the very folder it goes through, deletes files there as it goes, and meets
the same package many times. What it comes to is the union of the leftovers, however the packages
were spread over them.

- `Pending.stale`: the leftover generations, by increasing name (`stale_ordered`);
- `Pending.novel`: the packages that are new among some names, each once and in order of first
  occurrence; going on with more names adds up (`novel_append`);
- `Pending.Appended`: some packages were written behind what the current generation lists and
  some generations were deleted, closed under composition; one staging, one leftover generation
  and the whole replay are of this kind (`record_appended`, `replayOne_appended`,
  `replayEach_appended`);
- `Pending.replay_union`: **replay stages exactly the union of the leftovers.**
-/

namespace Holdfast

open Disk

namespace Journal

/-- What a generation lists; nothing, where it cannot be read. -/
def names (d : Disk) (j : Journal) : List String :=
  match j.packages d with
  | .ok names => names
  | .error _ => []

theorem names_of_mem {d : Disk} (ht : Tree d.nodes) {j : Journal} {content : Bytes}
    (h : (j.path, Node.file content) ∈ d.nodes) : j.names d = Record.textsOf content := by
  rw [names, packages_of_mem ht h]

/-- The generations of a folder are listed by increasing name. -/
theorem list_ordered {d : Disk} (ht : Tree d.nodes) (folder : Path) :
    (list d folder).Pairwise fun a b => a.path < b.path := by
  rw [list]
  split
  · have hle : (d.children folder).Pairwise fun a b => a.1 ≤ b.1 := by
      refine (pairwise_sortBy (fun a b => ?_) (fun a b c hab hbc => ?_) _).imp of_decide_eq_true
      · simpa using String.le_total a.1 b.1
      · exact decide_eq_true (String.le_trans (of_decide_eq_true hab) (of_decide_eq_true hbc))
    refine List.pairwise_filterMap.2 ((hle.and (children_pairwise ht folder)).imp ?_)
    rintro ⟨name, _ | _⟩ ⟨name', _ | _⟩ ⟨hle, hne⟩ j hj j' hj' <;>
      simp only [Option.ite_none_right_eq_some, Option.some.injEq, reduceCtorEq] at hj hj'
    rw [← hj.2, ← hj'.2]
    exact List.cons_lt_cons_iff.2 (.inl (Std.lt_of_le_of_ne hle hne))
  all_goals exact .nil

end Journal

namespace Pending

/-! ## Leftovers and news -/

/-- The leftover generations: those of the folder that are not the current one. -/
def stale (p : Pending) (d : Disk) : List Journal :=
  (Journal.list d p.folder).filter (p.journal ≠ some ·)

/-- The names that leftover generations list, one generation after another. -/
def leftNames (d : Disk) (journals : List Journal) : List String :=
  journals.flatMap (Journal.names d)

/-- The names that may be announced and are not in a set yet, each once, in order of first
occurrence. -/
def novel (known targets : NameSet) (names : List String) : List String :=
  (names.filter fun x => decide (x ∈ targets ∧ x ∉ known)).eraseDups

theorem mem_novel {known targets : NameSet} {names : List String} {x : String} :
    x ∈ novel known targets names ↔ x ∈ names ∧ x ∈ targets ∧ x ∉ known := by
  simp [novel]

/-- What is new among more names is what was new before, and what is new beside that. -/
theorem novel_append {known known' targets : NameSet} {names : List String}
    (h : ∀ x, x ∈ known' ↔ x ∈ known ∨ x ∈ novel known targets names) (more : List String) :
    novel known targets (names ++ more) =
      novel known targets names ++ novel known' targets more := by
  rw [novel, List.filter_append, List.eraseDups_append, ← novel]
  congr 1
  rw [novel, List.removeAll, List.filter_filter]
  congr 1
  refine List.filter_congr fun x _ => ?_
  rw [Bool.eq_iff_iff]
  simp only [Bool.and_eq_true, Bool.not_eq_true', List.elem_eq_contains, List.contains_eq_mem,
    decide_eq_true_eq, decide_eq_false_iff_not, List.mem_filter, h x, mem_novel]
  tauto

theorem stale_ordered {p : Pending} {d : Disk} (ht : Tree d.nodes) :
    (p.stale d).Pairwise fun a b => a.path < b.path :=
  (Journal.list_ordered ht p.folder).filter _

theorem mem_leftNames {d : Disk} {journals : List Journal} {x : String} :
    x ∈ leftNames d journals ↔ ∃ j ∈ journals, x ∈ j.names d := List.mem_flatMap

/-! ## Writing behind the current generation -/

/-- What the current generation lists; where there is none yet, nothing. -/
def Lists (p : Pending) (d : Disk) (names : List String) : Prop :=
  match p.journal with
  | none => names = []
  | some j => j.packages d = .ok names

/-- The packages `news` were written behind what the current generation lists, which was made
where needed, and the generations `gone` were deleted. -/
structure Appended (p : Pending) (d : Disk) (news : List String) (gone : List Journal)
    (p' : Pending) (d' : Disk) : Prop where
  tree : Tree d'.nodes
  intact : Intact p' d'.nodes
  folder : p'.folder = p.folder
  serial : d.serial ≤ d'.serial
  packages : ∀ x, x ∈ p'.packages ↔ x ∈ p.packages ∨ x ∈ news
  journal : ∀ j, p.journal = some j → p'.journal = some j
  /-- A generation that was made on the way has a new number, and stands where nothing stood that
  was not deleted before. -/
  made : ∀ j, p'.journal = some j → p.journal = some j ∨
    (news ≠ [] ∧ p.journal = none ∧ (∃ n, d.serial ≤ n ∧ j.path = Journal.nameOf n :: p.folder) ∧
      ∀ content, (j.path, Node.file content) ∈ d.nodes → j ∈ gone)
  needed : news ≠ [] → p'.journal ≠ none
  lists : ∀ names, p.Lists d names → p'.Lists d' (names ++ news)
  files : ∀ path content, p'.journal ≠ some ⟨path⟩ →
    ((path, Node.file content) ∈ d'.nodes ↔ (path, Node.file content) ∈ d.nodes ∧ ⟨path⟩ ∉ gone)

theorem Appended.refl {p : Pending} {d : Disk} (ht : Tree d.nodes) (hi : Intact p d.nodes) :
    Appended p d [] [] p d where
  tree := ht
  intact := hi
  folder := rfl
  serial := Nat.le_refl _
  packages x := by simp
  journal _ hj := hj
  made _ hj := .inl hj
  needed hne := absurd rfl hne
  lists names h := by rwa [List.append_nil]
  files path content _ := by simp

theorem Appended.trans {p p' p'' : Pending} {d d' d'' : Disk} {news news' : List String}
    {gone gone' : List Journal} (h : Appended p d news gone p' d')
    (h' : Appended p' d' news' gone' p'' d'') :
    Appended p d (news ++ news') (gone ++ gone') p'' d'' where
  tree := h'.tree
  intact := h'.intact
  folder := h'.folder.trans h.folder
  serial := Nat.le_trans h.serial h'.serial
  packages x := by rw [h'.packages, h.packages, List.mem_append, or_assoc]
  journal j hj := h'.journal j (h.journal j hj)
  made j hj := by
    have hall : ∀ content, p'.journal ≠ some j → (j.path, Node.file content) ∈ d.nodes →
        j ∈ gone ∨ (j.path, Node.file content) ∈ d'.nodes := by
      intro content hne hmem
      by_cases hgone : j ∈ gone
      · exact .inl hgone
      · exact .inr ((h.files j.path content hne).2 ⟨hmem, hgone⟩)
    rcases h'.made j hj with hold | ⟨hnews, hnone, ⟨n, hn, hpath⟩, hfree⟩
    · rcases h.made j hold with hfirst | ⟨hnews, hnone, hnumber, hfree⟩
      · exact .inl hfirst
      · refine .inr ⟨fun hnil => hnews (List.append_eq_nil_iff.1 hnil).1, hnone, hnumber, ?_⟩
        exact fun content hmem => List.mem_append_left _ (hfree content hmem)
    · have hnone₀ : p.journal = none := by
        cases hp : p.journal with
        | none => rfl
        | some first =>
          rw [h.journal first hp] at hnone
          cases hnone
      refine .inr ⟨fun hnil => hnews (List.append_eq_nil_iff.1 hnil).2, hnone₀,
        ⟨n, Nat.le_trans h.serial hn, h.folder ▸ hpath⟩, fun content hmem => ?_⟩
      rcases hall content (by rw [hnone]; simp) hmem with hgone | hmem'
      · exact List.mem_append_left _ hgone
      · exact List.mem_append_right _ (hfree content hmem')
  needed hne := by
    by_cases hnews : news' = []
    · have hfirst : news ≠ [] := by
        rintro rfl
        exact hne (by rw [hnews]; rfl)
      obtain ⟨j, hj⟩ := Option.ne_none_iff_exists'.1 (h.needed hfirst)
      rw [h'.journal j hj]
      simp
    · exact h'.needed hnews
  lists names hnames := by
    rw [← List.append_assoc]
    exact h'.lists _ (h.lists names hnames)
  files path content hne := by
    have hne' : p'.journal ≠ some ⟨path⟩ := fun heq => hne (h'.journal _ heq)
    rw [h'.files path content hne, h.files path content hne', List.mem_append, not_or, and_assoc]

/-- What a whole number of records reads as. -/
theorem textsOf_whole {names : List String} {bytes : Bytes}
    (h : Record.putTexts names = .ok bytes) :
    Record.textsOf bytes = names := by
  have hread := Record.textsOf_putTexts h []
  rw [List.append_nil] at hread
  rw [hread]
  simp [Record.textsOf, Record.Reader.texts, Record.Reader.textsOnto]

/-- A package that is written goes behind what the generation lists, and to no other one. -/
theorem add_lists {p : Pending} {d d' : Disk} {j : Journal} {package : String} {names : List String}
    (ht : Tree d.nodes) (hi : Intact p d.nodes) (hj : p.journal = some j)
    (hnames : j.packages d = .ok names) (h : j.add package d = (.ok (), d')) :
    j.packages d' = .ok (names ++ [package]) := by
  have ht' := (refused_of_add ht h).tree
  obtain ⟨old, bytes, hbytes, hnew, hold⟩ := add_ok ht h
  rcases Journal.file_of_packages hnames with ⟨content, hlook⟩ | rfl
  · have hmem := ht.sight_file_iff.1 hlook
    obtain ⟨written, hwritten⟩ := (hi j hj).2 content hmem
    have hread := Journal.packages_of_mem ht hmem
    rw [hnames, textsOf_whole hwritten] at hread
    cases hread
    rcases Journal.add_cases ht j package hmem with ⟨more, d₁, heq, hmore, hnodes, -⟩ | ⟨e, heq⟩
    · rw [h] at heq
      cases heq
      have hfile : (j.path, Node.file (content ++ more)) ∈ d'.nodes := by
        rw [hnodes]
        exact mem_withNode.2 (.inl rfl)
      rw [Journal.packages_of_mem ht' hfile,
        textsOf_whole (Record.putTexts_concat hwritten hmore)]
    · rw [h] at heq
      cases heq
  · -- either the file is there and lists nothing, or it is made again
    have hempty : Record.textsOf old = [] ∧ ∃ written, Record.putTexts written = .ok old := by
      rcases hold with hmem | rfl
      · have hread := hnames.symm.trans (Journal.packages_of_mem ht hmem)
        exact ⟨(Except.ok.inj hread).symm, (hi j hj).2 old hmem⟩
      · exact ⟨rfl, [], rfl⟩
    obtain ⟨hempty, written, hwritten⟩ := hempty
    rw [textsOf_whole hwritten] at hempty
    subst hempty
    rw [Journal.packages_of_mem ht' hnew, textsOf_whole (Record.putTexts_concat hwritten hbytes)]

/-- One write that succeeds. -/
theorem write_appended {p : Pending} {d : Disk} {package : String} (ht : Tree d.nodes)
    (hi : Intact p d.nodes) (hnew : package ∉ p.packages) (hok : p.writes package d = true) :
    Appended p d [package] [] (p.stage package d).2.1 (p.stage package d).2.2 := by
  let inserted : Pending := { p with packages := p.packages.insert package }
  have hstage : p.stage package d =
      (true, (inserted.write package d).1, (inserted.write package d).2) := if_neg hnew
  have hwrites := write_writes ht inserted package
  have hpassed := hwrites.passed ht hi
  rw [show inserted.writes package d = true from hok] at hwrites
  simp only [hstage]
  generalize (inserted.write package d).1 = p' at hwrites hpassed ⊢
  generalize (inserted.write package d).2 = d' at hwrites hpassed ⊢
  have hpackages : ∀ x, x ∈ p'.packages ↔ x ∈ p.packages ∨ x ∈ [package] := by
    intro x
    rw [hwrites.packages, List.mem_singleton, or_comm]
    exact NameSet.mem_insert
  cases hwrites with
  | @added j _ hj hadd =>
    have hspares := (Journal.add_spares ht j package).2
    rw [hadd] at hspares
    refine ⟨hpassed.tree, hpassed.intact, rfl, hpassed.serial, hpackages, fun _ h => h,
      fun _ h => .inl h, fun _ hnone => ?_, fun names hnames => ?_, fun path content hne => ?_⟩
    · cases hj.symm.trans hnone
    · have hread : j.packages d = .ok names := by
        simpa only [Lists, show p.journal = some j from hj] using hnames
      simp only [Lists, hj]
      exact add_lists ht hi hj hread hadd
    · simp only [List.not_mem_nil, not_false_eq_true, and_true]
      refine hspares path content ?_
      rintro rfl
      exact hne hj
  | @made j d₁ _ hj hcreate hadd =>
    have hmade := create_passed ht hcreate
    have hspares := (Journal.add_spares hmade.tree j package).2
    rw [hadd] at hspares
    have hnone : p.journal = none := hj
    rcases Journal.create_cases ht p.folder with
      ⟨n, d₂, heq, hfree, ht₂, hempty, hspares₁, -⟩ | ⟨e, d₂, heq, -, -⟩
    · cases hcreate.symm.trans heq
      refine ⟨hpassed.tree, hpassed.intact, rfl, hpassed.serial, hpackages, fun j h => ?_,
        fun j hj' => ?_, fun _ h => ?_, fun names hnames => ?_, fun path content hne => ?_⟩
      · cases hnone.symm.trans h
      · rcases hpassed.fresh j hj' with hold | ⟨⟨m, hpath, hlow, -⟩, hnot⟩
        · exact .inl hold
        · refine .inr ⟨by simp, hnone, ⟨m, hlow, hpath⟩, fun content hmem => ?_⟩
          exact absurd hmem (hnot content)
      · cases h
      · have hnil : names = [] := by simpa only [Lists, hnone] using hnames
        subst hnil
        have hread := Journal.packages_of_mem (j := ⟨_⟩) hmade.tree hempty
        exact add_lists hmade.tree hmade.intact rfl hread hadd
      · simp only [List.not_mem_nil, not_false_eq_true, and_true]
        have hpath : path ≠ Journal.nameOf n :: p.folder := by
          rintro rfl
          exact hne rfl
        exact (hspares path content hpath).trans (hspares₁ path content hpath)
    · cases hcreate.symm.trans heq

/-! ## Replaying -/

/-- Staging a name adds it if it may be announced and is new. -/
theorem record_appended {p : Pending} {d : Disk} {package : String} {targets : NameSet}
    (ht : Tree d.nodes) (hi : Intact p d.nodes)
    (hok : package ∈ targets → p.Stages package d) :
    Appended p d (novel p.packages targets [package]) [] (p.record package targets d).2.1
      (p.record package targets d).2.2 := by
  unfold record
  by_cases htarget : package ∈ targets
  · rw [if_pos htarget]
    by_cases hold : package ∈ p.packages
    · have hnil : novel p.packages targets [package] = [] := by simp [novel, hold]
      rw [hnil, stage, if_pos hold]
      exact .refl ht hi
    · have hone : novel p.packages targets [package] = [package] := by
        simp [novel, hold, htarget, List.eraseDups_cons]
      rw [hone]
      exact write_appended ht hi hold ((hok htarget).resolve_left hold)
  · have hnil : novel p.packages targets [package] = [] := by simp [novel, htarget]
    rw [if_neg htarget, hnil]
    exact .refl ht hi

/-- Where no write is refused, the first staging succeeds and no later write is refused. -/
theorem stages_of_not_refused {p : Pending} {d : Disk} {package : String} {rest : List String}
    {targets : NameSet} (h : p.refused ((package :: rest).filter (· ∈ targets)) d = []) :
    (package ∈ targets → p.Stages package d) ∧
      (p.record package targets d).2.1.refused (rest.filter (· ∈ targets))
        (p.record package targets d).2.2 = [] := by
  by_cases htarget : package ∈ targets
  · rw [List.filter_cons_of_pos (by simpa using htarget), refused, List.append_eq_nil_iff] at h
    rw [record, if_pos htarget]
    refine ⟨fun _ => ?_, h.2⟩
    by_contra hrefused
    have hfirst : [package] = [] := (if_neg hrefused).symm.trans h.1
    exact List.cons_ne_nil _ _ hfirst
  · rw [List.filter_cons_of_neg (by simpa using htarget)] at h
    rw [record, if_neg htarget]
    exact ⟨fun hin => absurd hin htarget, h⟩

theorem recordAll_appended {p : Pending} {d : Disk} {names : List String} {targets : NameSet}
    (ht : Tree d.nodes) (hi : Intact p d.nodes)
    (hok : p.refused (names.filter (· ∈ targets)) d = []) :
    Appended p d (novel p.packages targets names) [] (p.recordAll names targets d).1
      (p.recordAll names targets d).2 := by
  induction names generalizing p d with
  | nil => exact .refl ht hi
  | cons package rest ih =>
    obtain ⟨hstages, hlater⟩ := stages_of_not_refused hok
    have hfirst := record_appended ht hi hstages
    have hrest := ih hfirst.tree hfirst.intact hlater
    have happend := novel_append hfirst.packages rest
    rw [List.singleton_append] at happend
    rw [happend]
    exact hfirst.trans hrest

/-- Deleting a generation that is there, and is not the current one. -/
theorem delete_appended {p : Pending} {d : Disk} {j : Journal} {name : String} {content : Bytes}
    (ht : Tree d.nodes) (hi : Intact p d.nodes) (hj : p.journal ≠ some j)
    (hplace : j.path = name :: p.folder) (hmem : (j.path, Node.file content) ∈ d.nodes) :
    Appended p d [] [j] p (j.delete d).2 := by
  have hintact := hi.delete ht hj
  have hserial := Journal.delete_serial j d
  obtain ⟨d', hdelete, hnodes, ht', -⟩ := Journal.delete_of_mem ht hmem
  rw [hdelete] at hintact hserial ⊢
  refine ⟨ht', hintact, rfl, Nat.le_of_eq hserial.symm, fun x => by simp, fun _ h => h,
    fun _ h => .inl h, fun h => absurd rfl h, fun names hnames => ?_, fun path content' hne => ?_⟩
  · rw [List.append_nil]
    cases hcur : p.journal with
    | none => simpa only [Lists, hcur] using hnames
    | some current =>
      simp only [Lists, hcur] at hnames ⊢
      -- both stand in the same folder, so neither is on the way to the other
      have hbeside : ¬ j.path <:+ current.path := by
        obtain ⟨⟨name', hplace', -⟩, -⟩ := hi current hcur
        intro hsuffix
        have heq : j.path = current.path :=
          hsuffix.eq_of_length (by rw [hplace, hplace', List.length_cons, List.length_cons])
        exact hj (hcur.trans (by rw [Journal.eq_of_path heq]))
      have hlook : d'.look current.path = d.look current.path := by
        rw [look, hnodes]
        exact sight_without_other d.nodes hbeside
      rwa [Journal.packages, Store.texts, Store.read, readFile, hlook]
  · rw [hnodes, mem_without, List.mem_singleton, Journal.mk.injEq]

/-- One leftover generation. -/
theorem replayOne_appended {p : Pending} {d : Disk} {j : Journal} {name : String} {content : Bytes}
    {targets : NameSet} (ht : Tree d.nodes) (hi : Intact p d.nodes) (hj : p.journal ≠ some j)
    (hplace : j.path = name :: p.folder) (hmem : (j.path, Node.file content) ∈ d.nodes)
    (hok : p.refused ((j.names d).filter (· ∈ targets)) d = []) :
    (p.replayOne j targets d).1 = true ∧
      Appended p d (novel p.packages targets (j.names d)) [j] (p.replayOne j targets d).2.1
        (p.replayOne j targets d).2.2 := by
  have hread := Journal.packages_of_mem ht hmem
  rw [Journal.names_of_mem ht hmem] at hok ⊢
  have hrecord := recordAll_appended ht hi hok
  simp only [replayOne, hread, true_and]
  have hnot : (p.recordAll (Record.textsOf content) targets d).1.journal ≠ some j := by
    intro hcur
    rcases hrecord.made j hcur with hold | ⟨-, -, -, hfree⟩
    · exact hj hold
    · exact absurd (hfree content hmem) List.not_mem_nil
  have hthere := (hrecord.files j.path content hnot).2 ⟨hmem, List.not_mem_nil⟩
  have hdelete := delete_appended hrecord.tree hrecord.intact hnot (hrecord.folder.symm ▸ hplace)
    hthere
  have hboth := hrecord.trans hdelete
  rwa [List.append_nil, List.nil_append] at hboth

/-- **The whole replay.** The generation that is current when its turn comes is left alone, so
only the leftovers count, and a generation made on the way is not among those still to come. -/
theorem replayEach_appended {p : Pending} {d : Disk} {journals : List Journal} {targets : NameSet}
    (ht : Tree d.nodes) (hi : Intact p d.nodes) (hnodup : journals.Nodup)
    (hfiles : ∀ j ∈ journals, ∃ name content, j.path = name :: p.folder ∧
      (p.journal ≠ some j → (j.path, Node.file content) ∈ d.nodes))
    (hok : p.refusedEach journals targets d = []) :
    (p.replayEach journals targets d).1 = (journals.filter (p.journal ≠ some ·)).length ∧
      Appended p d
        (novel p.packages targets (leftNames d (journals.filter (p.journal ≠ some ·))))
        (journals.filter (p.journal ≠ some ·)) (p.replayEach journals targets d).2.1
        (p.replayEach journals targets d).2.2 := by
  induction journals generalizing p d with
  | nil => exact ⟨rfl, .refl ht hi⟩
  | cons j rest ih =>
    obtain ⟨hnot, hnodup⟩ := List.nodup_cons.1 hnodup
    have hlater := fun j' hj' => hfiles j' (List.mem_cons_of_mem _ hj')
    rw [refusedEach] at hok
    rw [replayEach]
    by_cases hj : p.journal = some j
    · rw [if_pos hj] at hok ⊢
      rw [List.filter_cons_of_neg (by simpa using hj)]
      exact ih ht hi hnodup hlater hok
    · rw [if_neg hj] at hok ⊢
      rw [List.filter_cons_of_pos (by simpa using hj)]
      obtain ⟨name, content, hplace, hmem⟩ := hfiles j List.mem_cons_self
      obtain ⟨hfailed, hok⟩ := List.append_eq_nil_iff.1 hok
      have hread := Journal.packages_of_mem ht (hmem hj)
      have hwritten : p.refused ((j.names d).filter (· ∈ targets)) d = [] := by
        rw [Journal.names, hread]
        rwa [hread] at hfailed
      obtain ⟨hreadable, hfirst⟩ := replayOne_appended ht hi hj hplace (hmem hj) hwritten
      simp only [hreadable, if_true]
      generalize (p.replayOne j targets d).2.1 = p₁ at hok hfirst ⊢
      generalize (p.replayOne j targets d).2.2 = d₁ at hok hfirst ⊢
      -- what is left to come is still there, and none of it has become current
      have hsame : ∀ j' ∈ rest, (p₁.journal = some j' ↔ p.journal = some j') := by
        intro j' hj'
        refine ⟨fun hcur => ?_, hfirst.journal j'⟩
        rcases hfirst.made j' hcur with hold | ⟨-, hnone, -, hfree⟩
        · exact hold
        · obtain ⟨_, content', _, hmem'⟩ := hlater j' hj'
          have hgone := hfree content' (hmem' (by simp [hnone]))
          exact absurd (List.mem_singleton.1 hgone ▸ hj') hnot
      have hthere : ∀ j' ∈ rest, ∀ content', p.journal ≠ some j' →
          ((j'.path, Node.file content') ∈ d₁.nodes ↔
            (j'.path, Node.file content') ∈ d.nodes) := by
        intro j' hj' content' hne
        rw [hfirst.files j'.path content' fun hcur => hne ((hsame j' hj').1 hcur), and_iff_left]
        exact fun hgone => hnot (List.mem_singleton.1 hgone ▸ hj')
      have hfilter : rest.filter (p₁.journal ≠ some ·) = rest.filter (p.journal ≠ some ·) := by
        refine List.filter_congr fun j' hj' => ?_
        simp only [ne_eq, hsame j' hj']
      have hlater₁ : ∀ j' ∈ rest, ∃ name content', j'.path = name :: p₁.folder ∧
          (p₁.journal ≠ some j' → (j'.path, Node.file content') ∈ d₁.nodes) := by
        intro j' hj'
        obtain ⟨name', content', hplace', hmem'⟩ := hlater j' hj'
        refine ⟨name', content', by rw [hplace', hfirst.folder], fun hne => ?_⟩
        rw [ne_eq, hsame j' hj'] at hne
        exact (hthere j' hj' content' hne).2 (hmem' hne)
      have hnames : leftNames d₁ (rest.filter (p.journal ≠ some ·)) =
          leftNames d (rest.filter (p.journal ≠ some ·)) := by
        refine List.flatMap_congr fun j' hj' => ?_
        obtain ⟨hj', hne⟩ := List.mem_filter.1 hj'
        have hne : p.journal ≠ some j' := of_decide_eq_true hne
        obtain ⟨_, content', _, hmem'⟩ := hlater j' hj'
        rw [Journal.names_of_mem ht (hmem' hne),
          Journal.names_of_mem hfirst.tree ((hthere j' hj' content' hne).2 (hmem' hne))]
      obtain ⟨hcount, hrest⟩ := ih hfirst.tree hfirst.intact hnodup hlater₁ hok
      rw [hfilter] at hcount hrest
      rw [hnames] at hrest
      refine ⟨by rw [hcount, List.length_cons], ?_⟩
      have hboth := hfirst.trans hrest
      rwa [← novel_append hfirst.packages] at hboth

/-! ## The union -/

/-- A set can be replayed without a refused write: its disk is a tree, its current generation is a
whole number of records, and every package that is new finds its place. -/
structure Replayable (p : Pending) (targets : NameSet) (d : Disk) : Prop where
  tree : Tree d.nodes
  intact : Intact p d.nodes
  writes : p.refusedEach (Journal.list d p.folder) targets d = []

/-- What a replay comes to. -/
structure Union (p : Pending) (targets : NameSet) (d : Disk) (count : Nat) (p' : Pending)
    (d' : Disk) : Prop where
  /-- The leftovers are taken by increasing name, and each can be read. -/
  ordered : (p.stale d).Pairwise fun a b => a.path < b.path
  readable : ∀ j ∈ p.stale d, j.packages d = .ok (j.names d)
  count : count = (p.stale d).length
  packages : ∀ x, x ∈ p'.packages ↔
    x ∈ p.packages ∨ (x ∈ targets ∧ ∃ j ∈ p.stale d, x ∈ j.names d)
  /-- A leftover generation is gone. Its name may be in use again, by the generation that was made
  on the way, if it was a name that is yet to be made up. -/
  gone : ∀ j ∈ p.stale d, (∀ content, d'.look j.path ≠ .file content) ∨
    (p'.journal = some j ∧ p.journal = none ∧
      ∃ n, d.serial ≤ n ∧ j.path = Journal.nameOf n :: p.folder)
  /-- The only generation left is the current one. -/
  only : ∀ j ∈ Journal.list d' p.folder, p'.journal = some j
  kept : ∀ j, p.journal = some j → p'.journal = some j ∧ ∀ names, j.packages d = .ok names →
    j.packages d' = .ok (names ++ novel p.packages targets (leftNames d (p.stale d)))
  made : p.journal = none → novel p.packages targets (leftNames d (p.stale d)) ≠ [] →
    ∃ j, p'.journal = some j ∧
      j.packages d' = .ok (novel p.packages targets (leftNames d (p.stale d)))
  notMade : p.journal = none → novel p.packages targets (leftNames d (p.stale d)) = [] →
    p'.journal = none

theorem mem_stale {p : Pending} {d : Disk} {j : Journal} (ht : Tree d.nodes) :
    j ∈ p.stale d ↔ p.journal ≠ some j ∧ ∃ name content, j = ⟨name :: p.folder⟩ ∧
      Journal.isJournalName name = true ∧ (name :: p.folder, Node.file content) ∈ d.nodes := by
  rw [stale, List.mem_filter, Journal.mem_list_iff ht, decide_eq_true_eq, and_comm]

theorem Replayable.appended {p : Pending} {targets : NameSet} {d : Disk}
    (h : p.Replayable targets d) :
    (p.replay targets d).1 = (p.stale d).length ∧
      Appended p d (novel p.packages targets (leftNames d (p.stale d))) (p.stale d)
        (p.replay targets d).2.1 (p.replay targets d).2.2 := by
  refine replayEach_appended h.tree h.intact (Journal.list_nodup h.tree p.folder) ?_ h.writes
  intro j hj
  obtain ⟨name, content, rfl, -, hmem⟩ := (Journal.mem_list_iff h.tree).1 hj
  exact ⟨name, content, rfl, fun _ => hmem⟩

/-- **Replay stages exactly the union of the leftovers**, whatever octets they hold. What comes to
be pending depends neither on how the names were spread over generations nor on what the
generations were called. -/
theorem replay_union {p : Pending} {targets : NameSet} {d : Disk} (h : p.Replayable targets d) :
    Union p targets d (p.replay targets d).1 (p.replay targets d).2.1 (p.replay targets d).2.2 ∧
      ∀ (p₂ : Pending) (d₂ : Disk), p₂.Replayable targets d₂ → p₂.packages = p.packages →
        (∀ x, (∃ j ∈ p₂.stale d₂, x ∈ j.names d₂) ↔ ∃ j ∈ p.stale d, x ∈ j.names d) →
        (p₂.replay targets d₂).2.1.packages = (p.replay targets d).2.1.packages := by
  have hunion : ∀ {p : Pending} {d : Disk}, p.Replayable targets d → ∀ x,
      x ∈ (p.replay targets d).2.1.packages ↔
        x ∈ p.packages ∨ (x ∈ targets ∧ ∃ j ∈ p.stale d, x ∈ j.names d) := by
    intro p d h x
    rw [h.appended.2.packages, mem_novel, mem_leftNames]
    tauto
  constructor
  · obtain ⟨hcount, happended⟩ := h.appended
    have hread : ∀ j ∈ p.stale d, j.packages d = .ok (j.names d) := by
      intro j hj
      obtain ⟨-, name, content, rfl, -, hmem⟩ := (mem_stale h.tree).1 hj
      rw [Journal.names_of_mem h.tree hmem]
      exact Journal.packages_of_mem h.tree hmem
    refine ⟨stale_ordered h.tree, hread, hcount, hunion h, fun j hj => ?_, fun j hj => ?_,
      fun j hj => ⟨happended.journal j hj, fun names hnames => ?_⟩, fun hnone hnews => ?_,
      fun hnone hnews => ?_⟩
    · by_cases hcur : (p.replay targets d).2.1.journal = some j
      · right
        rcases happended.made j hcur with hold | ⟨-, hnone, hnumber, -⟩
        · exact absurd hold ((mem_stale h.tree).1 hj).1
        · exact ⟨hcur, hnone, hnumber⟩
      · left
        intro content hlook
        have hmem := happended.tree.sight_file_iff.1 hlook
        exact ((happended.files j.path content hcur).1 hmem).2 hj
    · rw [← happended.folder] at hj
      obtain ⟨name, content, rfl, hname, hmem⟩ := (Journal.mem_list_iff happended.tree).1 hj
      by_contra hcur
      obtain ⟨hmem, hkept⟩ := (happended.files _ content hcur).1 hmem
      rw [happended.folder] at hmem hkept hcur
      refine hkept ((mem_stale h.tree).2 ⟨fun hold => hcur ?_, name, content, rfl, hname, hmem⟩)
      exact happended.journal _ hold
    · have hlists := happended.lists names (by simpa only [Lists, hj] using hnames)
      simpa only [Lists, happended.journal j hj] using hlists
    · obtain ⟨j, hj⟩ := Option.ne_none_iff_exists'.1 (happended.needed hnews)
      have hlists := happended.lists [] (by simp only [Lists, hnone])
      exact ⟨j, hj, by simpa only [Lists, hj, List.nil_append] using hlists⟩
    · cases hj : (p.replay targets d).2.1.journal with
      | none => rfl
      | some j =>
        rcases happended.made j hj with hold | ⟨hne, -⟩
        · cases hnone.symm.trans hold
        · exact absurd hnews hne
  · intro p₂ d₂ h₂ hpackages hnames
    refine NameSet.ext fun x => ?_
    rw [hunion h₂ x, hunion h x, hpackages, hnames x]

/-- A folder with three generations. The first one ends in a torn record, the last one repeats
some names. -/
def crowded : Disk where
  nodes := [(["pending"], .folder),
    (["journal-0", "pending"], .file [0, 1, 97, 0, 1, 98, 0, 9, 97]),
    (["journal-1", "pending"], .file [0, 1, 99]),
    (["journal-2", "pending"], .file [0, 1, 98, 0, 1, 120, 0, 1, 99, 0, 1, 100, 0, 1, 97])]

/-- A set whose current generation is the one in the middle. -/
def between : Pending where
  folder := ["pending"]
  packages := .ofList ["c"]
  journal := some ⟨["journal-1", "pending"]⟩

theorem between_replayable : between.Replayable (.ofList ["a", "b", "c", "d"]) crowded where
  tree := by
    refine ⟨by decide +kernel, fun entry hentry => ?_⟩
    simp only [crowded, List.mem_cons, List.not_mem_nil, or_false] at hentry
    rcases hentry with rfl | rfl | rfl | rfl
    all_goals exact ⟨_, _, rfl, by decide +kernel, by decide +kernel⟩
  intact := by
    rintro j hj
    obtain rfl := Option.some.inj hj
    refine ⟨⟨_, rfl, by decide +kernel⟩, fun bytes hmem => ⟨["c"], ?_⟩⟩
    simp only [crowded, List.mem_cons, Prod.mk.injEq, List.cons.injEq, Node.file.injEq,
      List.not_mem_nil] at hmem
    have hbytes : bytes = [0, 1, 99] := by simpa using hmem
    rw [hbytes]
    decide +kernel
  writes := by decide +kernel

/-- The two leftovers are counted and gone, and what was new in them stands once behind what the
current generation lists. -/
theorem replay_union_between :
    between.Replayable (.ofList ["a", "b", "c", "d"]) crowded ∧
      (between.replay (.ofList ["a", "b", "c", "d"]) crowded).1 = 2 ∧
      Journal.packages ⟨["journal-1", "pending"]⟩
        (between.replay (.ofList ["a", "b", "c", "d"]) crowded).2.2 =
          .ok ["c", "a", "b", "d"] := by
  have hunion := (replay_union between_replayable).1
  refine ⟨between_replayable, hunion.count.trans (by decide +kernel), ?_⟩
  exact (hunion.kept _ rfl).2 ["c"] (by decide +kernel)

end Pending

end Holdfast
