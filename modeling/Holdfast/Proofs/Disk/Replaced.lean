import Holdfast.Proofs.Disk.Crash
import Holdfast.Proofs.Disk.Ways

/-!
# Replacing a file at the end of a route

A replacement makes the folders that are missing on the way, prepares the new content beside the
target and moves it over the target. It can fail at each of these steps, depending on what stands
at the target, beside it or on the way, and a crash can stop it between any two effects.

- `Disk.Steps P d d'`: effects of one sort, carried out one after the other and all of them logged;
- `Disk.Replacement`: **the three ways in which a replacement can go**, with
  `Disk.replaceAlong_replacement`;
- `Disk.KeptAt`: a place holds what it held, or a folder on the way that was missing before;
- `Disk.Underway`: what a replacement keeps until its last effect;
- `Disk.Underway.readAlong`: along a route whose way is there, or that only leads onwards, this
  is seen;
- `Disk.replaceAlong_atomic`: **a replacement is atomic.**
-/

namespace Holdfast

/-! ## Routes to files -/

namespace Route

/-- The place at which a replacement for the end of a route is prepared. -/
def beside (r : Route) : Path := placeOf (preparing r.names)

theorem tmp_ne_self (name : String) : name ≠ name ++ ".tmp" := by
  intro h
  have hlength := congrArg String.length h
  simp at hlength

/-- The names of a written path all lead somewhere. -/
theorem isIdle_of_mem_ofText {text name : String} (h : name ∈ (ofText text).names) :
    isIdle name = false := by
  have hkept := (List.mem_filter.1 h).2
  rwa [Bool.not_eq_true'] at hkept

variable {r : Route} {name : String} {up : Path}

theorem place_of_names (hnames : r.names = name :: up) (hidle : isIdle name = false)
    (hup : name ≠ "..") : r.place = name :: placeOf up := by
  rw [place, hnames]
  exact placeOf_cons up hidle hup

theorem beside_of_names (hnames : r.names = name :: up) (hup : name ≠ "..") :
    r.beside = (name ++ ".tmp") :: placeOf up := by
  rw [beside, hnames, preparing, if_neg hup]
  exact placeOf_cons up (isIdle_tmp name) (tmp_ne_up name)

theorem place_ne_beside (hnames : r.names = name :: up) (hidle : isIdle name = false)
    (hup : name ≠ "..") : r.place ≠ r.beside := by
  rw [place_of_names hnames hidle hup, beside_of_names hnames hup]
  exact fun h => tmp_ne_self name (List.cons.inj h).1

end Route

namespace Disk

variable {d d' d₁ d₂ d₃ m : Disk} {r : Route} {name : String} {up p : Path} {content : Bytes}

/-! ## Steps -/

theorem perform_log {effect : Effect} (h : d.perform effect = (.ok (), d')) :
    d'.log = effect :: d.log := by
  rcases d.perform_cases effect with ⟨nodes, -, heq⟩ | ⟨refusal, -, heq⟩
  · rw [h] at heq
    cases heq
    rfl
  · rw [h] at heq
    cases heq

/-- Effects of one sort lead from one disk to another, one after the other. None is refused, and
all of them are logged. -/
inductive Steps (P : Effect → Prop) (d : Disk) : Disk → Prop where
  | refl : Steps P d d
  | go {d' d'' : Disk} {effect : Effect} :
    Steps P d d' → P effect → d'.perform effect = (.ok (), d'') → Steps P d d''

namespace Steps

variable {P : Effect → Prop}

theorem perform {effect : Effect} (h : d.perform effect = (.ok (), d')) (heffect : P effect) :
    d.Steps P d' :=
  refl.go heffect h

theorem changes (h : d.Steps P d') : d.Changes P d' := by
  induction h with
  | refl => exact .refl
  | go _ heffect hperform ih => exact (ih.go heffect).of_answer hperform

/-- The effects in the log are those that were carried out. -/
theorem logged (h : d.Steps P d') :
    ∃ effects : List Effect, d'.log = effects.reverse ++ d.log ∧ ∀ effect ∈ effects, P effect := by
  induction h with
  | refl => exact ⟨[], rfl, nofun⟩
  | @go d' d'' effect _ heffect hperform ih =>
    obtain ⟨effects, hlog, hsort⟩ := ih
    refine ⟨effects ++ [effect], by simp [perform_log hperform, hlog], fun other hother => ?_⟩
    rcases List.mem_append.1 hother with hold | hnew
    · exact hsort other hold
    · rw [List.mem_singleton.1 hnew]
      exact heffect

/-- What each effect of a sort keeps, whole or torn, holds wherever the steps are interrupted, and
after them. -/
theorem guarded {motive : Listing → Prop} (h : d.Steps P d') (hd : motive d.nodes)
    (hstep : ∀ nodes nodes' effect, P effect → motive nodes →
      after nodes effect = .ok nodes' → motive nodes')
    (htorn : ∀ path content arrived, P (.extendFile path content) →
      P (.extendFile path (content.take arrived))) :
    Guarded motive d d' ∧ motive d'.nodes := by
  induction h with
  | refl => exact ⟨.refl, hd⟩
  | @go d' d'' effect _ heffect hperform ih =>
    obtain ⟨hguarded, hmotive⟩ := ih
    refine ⟨hguarded.trans (.perform hperform hmotive ?_),
      hstep _ _ effect heffect hmotive (perform_ok hperform)⟩
    rintro path content rfl arrived torn htorn'
    exact hstep _ _ _ (htorn path content arrived heffect) hmotive htorn'

end Steps

/-! ## The ways in which a replacement can go -/

/-- Making a folder on a way that is missing. -/
def Effect.OnWay (d : Disk) (up : Path) (effect : Effect) : Prop :=
  d.lookAlong up = .missing ∧ ∃ way, way <:+ up ∧ effect = .makeFolder (Route.placeOf way)

/-- Folders are made only on a way that is missing. -/
theorem makeFoldersAlong_steps (d : Disk) (names : Path) :
    d.Steps (Effect.OnWay d names) (d.makeFoldersAlong names).2 := by
  suffices h : ∀ way : Path, way <:+ names → d.lookAlong names = .missing →
      d.Steps (Effect.OnWay d names) (d.makeFoldersAlong way).2 by
    cases names with
    | nil => exact .refl
    | cons name up =>
      cases hlook : d.lookAlong (name :: up) with
      | missing => exact h _ List.suffix_rfl hlook
      | file content => rw [makeFoldersAlong, hlook]; exact .refl
      | folder => rw [makeFoldersAlong, hlook]; exact .refl
      | blocked => rw [makeFoldersAlong, hlook]; exact .refl
  intro way hway hmissing
  induction way with
  | nil => exact .refl
  | cons name up ih =>
    have ih := ih ((List.suffix_cons name up).trans hway)
    unfold makeFoldersAlong
    split
    · exact .refl
    · exact .refl
    · exact .refl
    · split
      · rename_i heq
        rw [heq] at ih
        exact ih
      · rename_i d₁ heq
        rw [heq] at ih
        split
        · exact ih
        · rcases d₁.perform_cases (.makeFolder (Route.placeOf (name :: up))) with
            ⟨nodes, -, hperform⟩ | ⟨refusal, -, hperform⟩
          · rw [hperform]
            exact ih.go ⟨hmissing, _, hway, rfl⟩ hperform
          · rw [hperform]
            exact ih

/-- A file that was made can be written. -/
theorem perform_extendFile_of_createFile (content : Bytes)
    (h : d₁.perform (.createFile p) = (.ok (), d₂)) :
    ∃ d₃, d₂.perform (.extendFile p content) = (.ok (), d₃) ∧ d₃.look p = .file content := by
  have hempty := perform_createFile_ok h
  obtain ⟨d₃, hextend, -⟩ := perform_extendFile hempty content
  obtain ⟨old, hold, hnew⟩ := perform_extendFile_ok hextend
  obtain rfl : old = [] := Sight.file.inj (hold.symm.trans hempty)
  exact ⟨d₃, hextend, hnew⟩

/-- A file can be taken away. -/
theorem perform_unlink_of_file (h : d.look p = .file content) :
    ∃ d', d.perform (.unlink p) = (.ok (), d') ∧ d'.nodes = without d.nodes p := by
  refine perform_of_after ?_
  rw [after, show sight d.nodes p = .file content from h]

/-- How a replacement can go: the folders on the way are made first, and all the rest happens at
the target and beside it. -/
inductive Replacement (d : Disk) (r : Route) (content : Bytes) :
    Except Refusal Unit → Disk → Prop where
  /-- The replacement cannot be prepared. -/
  | unprepared {d' : Disk} {refusal : Refusal} : d.Steps (Effect.OnWay d r.names.tail) d' →
    Replacement d r content (.error refusal) d'
  /-- It is prepared and moved over the target. -/
  | moved {d₁ d₂ d₃ d' : Disk} : r.ending = .plain → Route.isWalkable (Route.preparing r.names) →
    d.Steps (Effect.OnWay d r.names.tail) d₁ → d₁.lookAlong r.names.tail = .folder →
    d₁.perform (.createFile r.beside) = (.ok (), d₂) →
    d₂.perform (.extendFile r.beside content) = (.ok (), d₃) →
    d₃.perform (.rename r.beside r.place) = (.ok (), d') →
    Replacement d r content (.ok ()) d'
  /-- It is prepared, cannot be moved, and is taken away again. -/
  | dropped {d₁ d₂ d₃ d' : Disk} {refusal : Refusal} :
    d.Steps (Effect.OnWay d r.names.tail) d₁ →
    d₁.perform (.createFile r.beside) = (.ok (), d₂) →
    d₂.perform (.extendFile r.beside content) = (.ok (), d₃) →
    d₃.perform (.unlink r.beside) = (.ok (), d') →
    Replacement d r content (.error refusal) d'

/-- **A replacement goes in one of three ways.** -/
theorem replaceAlong_replacement (d : Disk) (content : Bytes) (hnames : r.names = name :: up)
    (hidle : Route.isIdle name = false) (hup : name ≠ "..") :
    d.Replacement r content (d.replaceAlong r content).1 (d.replaceAlong r content).2 := by
  have hsteps := d.makeFoldersAlong_steps r.names.tail
  have hbeside : preparing r.place = r.beside := by
    rw [Route.place_of_names hnames hidle hup, Route.beside_of_names hnames hup]
    rfl
  unfold replaceAlong
  split
  · rename_i heq
    rw [heq] at hsteps
    exact .unprepared hsteps
  · rename_i d₁ heq
    rw [heq] at hsteps
    have hway := makeFoldersAlong_ok heq
    -- the folder is there by now, also for a replacement at a place
    have hthere : d₁.makeFolders r.place.tail = (.ok (), d₁) := by
      rw [Route.place_of_names hnames hidle hup]
      rw [hnames] at hway
      exact makeFolders_of_folder (look_placeOf_of_walk (lookAlong_folder_iff.1 hway).2)
    split
    · exact .unprepared hsteps
    · rename_i hwalkable
      rw [← Route.beside]
      rcases d₁.perform_cases (.createFile r.beside) with
        ⟨nodes, -, hcreate⟩ | ⟨refusal, -, hcreate⟩
      · obtain ⟨d₃, hextend, hready⟩ := perform_extendFile_of_createFile content hcreate
        obtain ⟨d₄, hunlink, -⟩ := perform_unlink_of_file hready
        have hdropped : ∀ refusal, d.Replacement r content (.error refusal) d₄ :=
          fun _ => .dropped hsteps hcreate hextend hunlink
        split
        · rename_i hfile
          simp only [replaceFile, hthere, hbeside, hcreate, hextend]
          rcases d₃.perform_cases (.rename r.beside r.place) with
            ⟨nodes, -, hrename⟩ | ⟨refusal, -, hrename⟩
          · simp only [hrename]
            refine .moved ?_ (by simpa using hwalkable) hsteps hway hcreate hextend hrename
            simpa [Route.namesFile, hnames, hup] using hfile
          · simp only [hrename, hunlink]
            exact hdropped _
        · simp only [hcreate, hextend, hunlink]
          exact hdropped _
      · have hunprepared : ∀ refusal, d.Replacement r content (.error refusal) d₁ :=
          fun _ => .unprepared hsteps
        split
        · simp only [replaceFile, hthere, hbeside, hcreate]
          exact hunprepared _
        · simp only [hcreate]
          exact hunprepared _

/-! ## What is kept until the last effect -/

/-- A place holds what it held, or a folder on a way that was missing. -/
def KeptAt (d : Disk) (up : Path) (nodes : Listing) (p : Path) : Prop :=
  node? nodes p = node? d.nodes p ∨
    (d.lookAlong up = .missing ∧ (∃ way, way <:+ up ∧ Route.placeOf way = p) ∧
      node? d.nodes p = none ∧ node? nodes p = some .folder)

/-- What a replacement keeps until its last effect: all places but the one beside the target. -/
structure Underway (d : Disk) (up beside : Path) (nodes : Listing) : Prop where
  tree : Tree nodes
  folders : ∀ place, sight d.nodes place = .folder → sight nodes place = .folder
  kept : ∀ place, place ≠ beside → d.KeptAt up nodes place

/-- The effects up to the last one: folders on the way are made, and the rest happens beside the
target. -/
def Effect.Prepares (d : Disk) (up beside : Path) : Effect → Prop
  | .makeFolder place =>
    d.lookAlong up = .missing ∧ ∃ way, way <:+ up ∧ Route.placeOf way = place
  | .createFile place | .extendFile place _ | .unlink place => place = beside
  | .rename _ _ => False

theorem Effect.OnWay.prepares {effect : Effect} (beside : Path) (h : effect.OnWay d up) :
    effect.Prepares d up beside := by
  obtain ⟨hmissing, way, hway, rfl⟩ := h
  exact ⟨hmissing, way, hway, rfl⟩

theorem underway_refl (ht : Tree d.nodes) (up beside : Path) : d.Underway up beside d.nodes :=
  ⟨ht, fun _ h => h, fun _ _ => .inl rfl⟩

/-- The disk with a listing shows what an effect does to the listing. -/
theorem nodes_perform_of_after {nodes nodes' : Listing} {effect : Effect}
    (h : after nodes effect = .ok nodes') :
    (perform { nodes := nodes } effect).2.nodes = nodes' := by
  simp [perform, h]

/-- Each effect but the last keeps what a replacement keeps. -/
theorem Underway.after {nodes nodes' : Listing} {beside : Path} {effect : Effect}
    (h : d.Underway up beside nodes) (heffect : effect.Prepares d up beside)
    (hafter : Disk.after nodes effect = .ok nodes') : d.Underway up beside nodes' := by
  have hnodes := nodes_perform_of_after hafter
  refine ⟨h.tree.after hafter, fun place hplace => ?_, fun place hplace => ?_⟩
  · have hfolder := perform_folders { nodes := nodes } effect (h.folders place hplace)
    rwa [look, hnodes] at hfolder
  · -- a place that the effect does not name
    have hmiss : effect.Misses place → d.KeptAt up nodes' place := by
      intro hmiss
      have hsame := node?_perform { nodes := nodes } hmiss
      rw [hnodes] at hsame
      rw [KeptAt, hsame]
      exact h.kept place hplace
    have hbeside : ∀ other, other = beside → other ≠ place := by
      rintro other rfl rfl
      exact hplace rfl
    cases effect with
    | makeFolder other =>
      obtain ⟨hmissing, hway⟩ := heffect
      by_cases heq : other = place
      · subst heq
        obtain ⟨rfl, hfree, -⟩ := after_makeFolder hafter
        have hnone : node? nodes other = none := by
          cases hnode : node? nodes other with
          | none => rfl
          | some node => exact absurd (mem_of_node? hnode) (h.tree.not_mem_of_missing hfree node)
        refine .inr ⟨hmissing, hway, ?_, node?_withNode_self _ _ _⟩
        rcases h.kept other hplace with hsame | ⟨-, -, hbefore, -⟩
        · rw [← hsame, hnone]
        · exact hbefore
      · exact hmiss heq
    | createFile other => exact hmiss (hbeside other heffect)
    | extendFile other more => exact hmiss (hbeside other heffect)
    | unlink other => exact hmiss (hbeside other heffect)
    | rename source target => exact heffect.elim

/-- What a replacement keeps, it keeps at every crash before its last effect. -/
theorem Steps.underway {beside : Path} (ht : Tree d.nodes)
    (h : d.Steps (Effect.Prepares d up beside) d') :
    Guarded (d.Underway up beside) d d' ∧ d.Underway up beside d'.nodes :=
  h.guarded (underway_refl ht up beside) (fun _ _ _ heffect hd hafter => hd.after heffect hafter)
    fun _ _ _ heffect => heffect

theorem Steps.mono {P Q : Effect → Prop} (hsort : ∀ effect, P effect → Q effect)
    (h : d.Steps P d') : d.Steps Q d' := by
  induction h with
  | refl => exact .refl
  | go _ heffect hperform ih => exact ih.go (hsort _ heffect) hperform

/-! ## What is seen at the end of the route -/

/-- Along possible names one sees what one saw, except for new folders, if nothing but folders is
new on the way. -/
theorem sight_of_new_folders {nodes nodes' : Listing} (ht : Tree nodes) {names : Path}
    (hpossible : ∀ name ∈ names, isName name = true)
    (hnew : ∀ way, way <:+ names → node? nodes' way = node? nodes way ∨
      (node? nodes way = none ∧ node? nodes' way = some .folder)) :
    sight nodes' names = sight nodes names ∨
      (sight nodes names = .missing ∧ sight nodes' names = .folder) := by
  induction names with
  | nil => exact .inl rfl
  | cons name up ih =>
    have hname := hpossible name List.mem_cons_self
    have hhere := hnew (name :: up) List.suffix_rfl
    rcases ih (fun other hother => hpossible other (List.mem_cons_of_mem _ hother))
      (fun way hway => hnew way (hway.trans (List.suffix_cons name up))) with hup | ⟨hup, hup'⟩
    · rw [sight, sight, hup]
      cases hfolder : sight nodes up with
      | folder =>
        rcases hhere with hsame | ⟨hnone, hsome⟩
        · rw [hsame]
          exact .inl rfl
        · simp [hname, hnone, hsome]
      | file content => exact .inl rfl
      | missing => exact .inl rfl
      | blocked => exact .inl rfl
    · -- nothing is listed where the folder was missing
      have hnone : node? nodes (name :: up) = none := by
        cases hnode : node? nodes (name :: up) with
        | none => rfl
        | some node =>
          obtain ⟨name', up', heq, -, hfolder⟩ := ht.placed _ (mem_of_node? hnode)
          cases heq
          rw [hup] at hfolder
          cases hfolder
      have hmissing : sight nodes (name :: up) = .missing := by rw [sight, hup]
      rw [hmissing, sight, hup']
      rcases hhere with hsame | ⟨-, hsome⟩
      · simp [hname, hsame, hnone]
      · simp [hname, hsome]

/-- A route on which what is made cannot lead elsewhere: its way is there, or it only leads
onwards, by names that a file can have. -/
def Direct (d : Disk) (names : Path) : Prop :=
  d.lookAlong names.tail = .folder ∨ ∀ name ∈ names, name ≠ ".." ∧ isName name = true

/-- Where the way to the target was there, one sees at its end what one saw before. -/
theorem Underway.walk_of_way (hidle : Route.isIdle name = false) (hup : name ≠ "..")
    (hway : d.lookAlong up = .folder)
    (h : d.Underway up ((name ++ ".tmp") :: Route.placeOf up) m.nodes) :
    m.walk (name :: up) = d.walk (name :: up) := by
  obtain ⟨-, hwalk⟩ := lookAlong_folder_iff.1 hway
  have hwalk' : m.walk up = .folder := walk_folder_mono h.folders hwalk
  have hfolder := look_placeOf_of_walk hwalk
  have hne : name :: Route.placeOf up ≠ (name ++ ".tmp") :: Route.placeOf up :=
    fun heq => Route.tmp_ne_self name (List.cons.inj heq).1
  rw [walk, walk, hwalk, hwalk', Route.placeOf_cons up hidle hup]
  refine look_congr hfolder (h.folders _ hfolder) ((h.kept _ hne).resolve_right ?_)
  rintro ⟨hmissing, -⟩
  rw [hway] at hmissing
  cases hmissing

/-- Along names that only lead onwards one sees what one saw before. -/
theorem Underway.look_onwards (ht : Tree d.nodes)
    (hidle : ∀ part ∈ name :: up, Route.isIdle part = false)
    (honwards : ∀ part ∈ name :: up, part ≠ ".." ∧ isName part = true)
    (h : d.Underway up ((name ++ ".tmp") :: up) m.nodes) :
    m.look (name :: up) = d.look (name :: up) := by
  have hlater : ∀ way, way <:+ name :: up → way ≠ (name ++ ".tmp") :: up := by
    rintro way hway rfl
    exact Route.tmp_ne_self name (List.cons.inj (hway.eq_of_length rfl)).1.symm
  -- a folder on the way lies higher up, so it is not what the names lead to
  have hsame : node? m.nodes (name :: up) = node? d.nodes (name :: up) := by
    refine (h.kept _ (hlater _ List.suffix_rfl)).resolve_right ?_
    rintro ⟨-, ⟨way, hway, hplace⟩, -⟩
    have hself : Route.placeOf way = way := placeOf_eq_self fun part hpart => by
      have hmem := List.mem_cons_of_mem name (hway.subset hpart)
      simp [hidle part hmem, (honwards part hmem).1]
    rw [← hself, hplace] at hway
    exact absurd hway.length_le (by simp)
  rcases sight_of_new_folders ht (fun part hpart => (honwards part hpart).2)
    (fun way hway => (h.kept way (hlater way hway)).imp_right fun hnew => hnew.2.2) with
    hsight | ⟨hmissing, hfolder⟩
  · exact hsight
  · obtain ⟨-, -, hlisted⟩ := sight_folder_iff.1 hfolder
    exact absurd (mem_of_node? (hsame ▸ hlisted)) (ht.not_mem_of_missing hmissing _)

/-- Along a direct route one sees what one saw before. -/
theorem Underway.readAlong (ht : Tree d.nodes) (hnames : r.names = name :: up)
    (hidle : ∀ part ∈ r.names, Route.isIdle part = false) (hup : name ≠ "..")
    (h : d.Underway up r.beside m.nodes) (hdirect : d.Direct r.names) :
    m.readAlong r = d.readAlong r := by
  suffices hsight : m.lookAlong r.names = d.lookAlong r.names by
    rw [Disk.readAlong, Disk.readAlong, hsight]
  cases hwalkable : Route.isWalkable r.names with
  | false => simp [lookAlong, hwalkable]
  | true =>
    rw [lookAlong, lookAlong, if_pos hwalkable, if_pos hwalkable]
    rw [Route.beside_of_names hnames hup] at h
    rw [hnames] at hidle hdirect ⊢
    rcases hdirect with hway | honwards
    · exact h.walk_of_way (hidle name List.mem_cons_self) hup hway
    · have hstraight : ∀ part ∈ name :: up, (!Route.isIdle part && part ≠ "..") = true := by
        intro part hpart
        simp [hidle part hpart, (honwards part hpart).1]
      have hself : Route.placeOf up = up :=
        placeOf_eq_self fun part hpart => hstraight part (List.mem_cons_of_mem name hpart)
      rw [walk_eq_look hstraight, walk_eq_look hstraight]
      rw [hself] at h
      exact h.look_onwards ht hidle honwards

/-! ## Atomicity -/

/-- The disks that a change from one disk to another can leave behind, with or without a crash. -/
def LeftBehind (d d' m : Disk) : Prop := m = d' ∨ Interrupted d d' m

/-- A replacement of the file at the end of a route, from its first effect to its answer. -/
structure Atomic (d : Disk) (r : Route) (content : Bytes) (outcome : Except Refusal Unit)
    (d' : Disk) : Prop where
  /-- The target holds what it held or exactly the new content. -/
  target : ∀ m, LeftBehind d d' m →
    d.KeptAt r.names.tail m.nodes r.place ∨ node? m.nodes r.place = some (.file content)
  /-- So it reads, along a direct route. -/
  read : d.Direct r.names → ∀ m, LeftBehind d d' m →
    m.readAlong r = d.readAlong r ∨ m.readAlong r = .ok (some content)
  /-- Nothing else is changed, but for the place beside the target. -/
  others : ∀ m, LeftBehind d d' m → ∀ place, place ≠ r.place → place ≠ r.beside →
    d.KeptAt r.names.tail m.nodes place
  /-- A replacement that succeeds reads as the new content, and leaves nothing beside it. -/
  done : outcome = .ok () → d'.readAlong r = .ok (some content) ∧
    d'.lookAlong (Route.preparing r.names) = .missing
  /-- One that fails leaves the target as it was. -/
  refused : outcome ≠ .ok () → d.KeptAt r.names.tail d'.nodes r.place ∧
    (d.Direct r.names → d'.readAlong r = d.readAlong r)
  /-- What was prepared does not stay behind, and what stands beside the target is kept if nothing
  was. -/
  swept : if Effect.createFile r.beside ∈ effectsSince d d' then node? d'.nodes r.beside = none
    else d.KeptAt r.names.tail d'.nodes r.beside

theorem KeptAt.congr {nodes nodes' : Listing} (h : d.KeptAt up nodes p)
    (hsame : node? nodes' p = node? nodes p) : d.KeptAt up nodes' p := by
  rw [KeptAt, hsame]
  exact h

/-- What was prepared is in sight, and to get there only the way and the place beside the target
were touched. -/
theorem steps_of_prepared (hsteps : d.Steps (Effect.OnWay d up) d₁)
    (hcreate : d₁.perform (.createFile r.beside) = (.ok (), d₂))
    (hextend : d₂.perform (.extendFile r.beside content) = (.ok (), d₃)) :
    d.Steps (Effect.Prepares d up r.beside) d₃ ∧ d₃.look r.beside = .file content := by
  obtain ⟨d₃', hextend', hready⟩ := perform_extendFile_of_createFile content hcreate
  rw [hextend] at hextend'
  cases hextend'
  have hway := hsteps.mono fun _ heffect => Effect.OnWay.prepares r.beside heffect
  have hmade : (Effect.createFile r.beside).Prepares d up r.beside := rfl
  have hwritten : (Effect.extendFile r.beside content).Prepares d up r.beside := rfl
  exact ⟨(hway.go hmade hcreate).go hwritten hextend, hready⟩

/-- The log tells that a replacement was prepared. -/
theorem created_mem_effectsSince {last : Effect} (hsteps : d.Steps (Effect.OnWay d up) d₁)
    (hcreate : d₁.perform (.createFile p) = (.ok (), d₂))
    (hextend : d₂.perform (.extendFile p content) = (.ok (), d₃))
    (hlast : d₃.perform last = (.ok (), d')) : Effect.createFile p ∈ effectsSince d d' := by
  obtain ⟨effects, hlog, -⟩ := hsteps.logged
  have hlog' : d'.log =
      (effects ++ [.createFile p, .extendFile p content, last]).reverse ++ d.log := by
    rw [perform_log hlast, perform_log hextend, perform_log hcreate, hlog]
    simp
  rw [Guarded.effectsSince_eq hlog']
  simp

/-- A replacement that was moved over the target reads as the new content, and nothing is left
beside it. -/
theorem read_of_moved (hnames : r.names = name :: up) (hname : Route.isIdle name = false)
    (hup : name ≠ "..") (hending : r.ending = .plain)
    (hwalkable : Route.isWalkable (Route.preparing r.names) = true)
    (hway : d.lookAlong up = .folder) (hready : d.look r.beside = .file content)
    (hrename : d.perform (.rename r.beside r.place) = (.ok (), d')) :
    d'.readAlong r = .ok (some content) ∧ d'.lookAlong (Route.preparing r.names) = .missing := by
  have hplace := Route.place_of_names hnames hname hup
  have hbeside := Route.beside_of_names hnames hup
  have hchanged : d.Steps (fun _ => True) d' := .perform hrename trivial
  have hway' : d'.lookAlong up = .folder := hchanged.changes.lookAlong_folder hway
  rw [hnames] at hwalkable
  constructor
  · have hlook : d'.look r.place = .file content :=
      perform_rename_ok hrename hready (by simp [hplace, hbeside])
    have hseen := lookAlong_child (r := ⟨up, .plain⟩) hway' hname hup
      (Route.isWalkable_of_preparing hup hwalkable)
    rw [Route.place, ← hplace, hlook] at hseen
    rw [Disk.readAlong, hnames, show d'.lookAlong (name :: up) = .file content from hseen]
    exact if_pos hending
  · have hlook : d'.look r.beside = .missing := by
      obtain ⟨moved, -, hnodes, -⟩ := after_rename (perform_ok hrename)
      have hother : ¬ r.place <:+ r.beside := fun hsuffix =>
        Route.place_ne_beside hnames hname hup (hsuffix.eq_of_length (by simp [hplace, hbeside]))
      rw [look, hnodes, sight_withNode_other _ _ hother]
      exact sight_without_self hready
    rw [hnames]
    rw [Route.preparing, if_neg hup] at hwalkable ⊢
    have hseen := lookAlong_child (r := ⟨up, .plain⟩) hway' (Route.isIdle_tmp name)
      (Route.tmp_ne_up name) hwalkable
    rw [Route.place, ← hbeside, hlook] at hseen
    exact hseen

/-- What a replacement keeps until its last effect, it keeps throughout if that effect is of the
same sort. -/
theorem Steps.underway_leftBehind {beside : Path} (ht : Tree d.nodes)
    (h : d.Steps (Effect.Prepares d up beside) d') (m : Disk) (hm : LeftBehind d d' m) :
    d.Underway up beside m.nodes := by
  obtain ⟨hguarded, hlast⟩ := h.underway ht
  rcases hm with rfl | hm
  · exact hlast
  · exact hguarded.interrupted hm

section

variable (ht : Tree d.nodes) (hnames : r.names = name :: up)
  (hidle : ∀ part ∈ r.names, Route.isIdle part = false) (hup : name ≠ "..")

include ht hnames hidle hup

/-- A replacement that fails is atomic if it kept all but the place beside the target. -/
theorem atomic_of_underway {refusal : Refusal}
    (hunder : ∀ m, LeftBehind d d' m → d.Underway up r.beside m.nodes)
    (hswept : if Effect.createFile r.beside ∈ effectsSince d d' then
        node? d'.nodes r.beside = none
      else d.KeptAt up d'.nodes r.beside) :
    d.Atomic r content (.error refusal) d' := by
  have hname : Route.isIdle name = false := hidle name (hnames ▸ List.mem_cons_self)
  have htail : r.names.tail = up := by rw [hnames, List.tail_cons]
  have hne := Route.place_ne_beside hnames hname hup
  have hread : d.Direct r.names → ∀ m, LeftBehind d d' m → m.readAlong r = d.readAlong r :=
    fun hdirect m hm => (hunder m hm).readAlong ht hnames hidle hup hdirect
  refine ⟨?_, fun hdirect m hm => .inl (hread hdirect m hm), ?_, nofun, ?_, ?_⟩
  · rw [htail]
    exact fun m hm => .inl ((hunder m hm).kept _ hne)
  · rw [htail]
    exact fun m hm place _ hplace => (hunder m hm).kept place hplace
  · rw [htail]
    exact fun _ => ⟨(hunder d' (.inl rfl)).kept _ hne, fun hdirect => hread hdirect d' (.inl rfl)⟩
  · rw [htail]
    exact hswept

theorem atomic_of_unprepared {refusal : Refusal} (hsteps : d.Steps (Effect.OnWay d up) d') :
    d.Atomic r content (.error refusal) d' := by
  have hway : ∀ beside, d.Steps (Effect.Prepares d up beside) d' := fun beside =>
    hsteps.mono fun _ heffect => Effect.OnWay.prepares beside heffect
  refine atomic_of_underway ht hnames hidle hup ((hway r.beside).underway_leftBehind ht) ?_
  obtain ⟨effects, hlog, hsort⟩ := hsteps.logged
  rw [Guarded.effectsSince_eq hlog, if_neg]
  · -- any other place may be set apart, so the one beside the target is kept too
    exact ((hway r.place).underway ht).2.kept _ (Route.place_ne_beside hnames
      (hidle name (hnames ▸ List.mem_cons_self)) hup).symm
  · intro hmem
    obtain ⟨-, way, -, hfolder⟩ := hsort _ hmem
    cases hfolder

theorem atomic_of_dropped {refusal : Refusal} (hsteps : d.Steps (Effect.OnWay d up) d₁)
    (hcreate : d₁.perform (.createFile r.beside) = (.ok (), d₂))
    (hextend : d₂.perform (.extendFile r.beside content) = (.ok (), d₃))
    (hunlink : d₃.perform (.unlink r.beside) = (.ok (), d')) :
    d.Atomic r content (.error refusal) d' := by
  obtain ⟨hprepared, -⟩ := steps_of_prepared hsteps hcreate hextend
  have hremoved : (Effect.unlink r.beside).Prepares d up r.beside := rfl
  refine atomic_of_underway ht hnames hidle hup
    ((hprepared.go hremoved hunlink).underway_leftBehind ht) ?_
  rw [if_pos (created_mem_effectsSince hsteps hcreate hextend hunlink),
    (after_unlink (perform_ok hunlink)).2]
  exact node?_without_self _ _

theorem atomic_of_moved (hending : r.ending = .plain)
    (hwalkable : Route.isWalkable (Route.preparing r.names) = true)
    (hsteps : d.Steps (Effect.OnWay d up) d₁) (hway : d₁.lookAlong up = .folder)
    (hcreate : d₁.perform (.createFile r.beside) = (.ok (), d₂))
    (hextend : d₂.perform (.extendFile r.beside content) = (.ok (), d₃))
    (hrename : d₃.perform (.rename r.beside r.place) = (.ok (), d')) :
    d.Atomic r content (.ok ()) d' := by
  have hname : Route.isIdle name = false := hidle name (hnames ▸ List.mem_cons_self)
  have htail : r.names.tail = up := by rw [hnames, List.tail_cons]
  have hne := Route.place_ne_beside hnames hname hup
  obtain ⟨hprepared, hready⟩ := steps_of_prepared hsteps hcreate hextend
  obtain ⟨hguarded, hlast⟩ := hprepared.underway ht
  have hunder : ∀ m, Interrupted d d' m → d.Underway up r.beside m.nodes := fun m hm =>
    (hguarded.trans (.performWhole hrename hlast nofun)).interrupted hm
  obtain ⟨moved, hsource, hnodes, -⟩ := after_rename (perform_ok hrename)
  obtain rfl : content = moved := Sight.file.inj (hready.symm.trans hsource)
  have hway₃ : d₃.lookAlong up = .folder := by
    have hlater : d₁.Steps (fun _ => True) d₃ := (Steps.perform hcreate trivial).go trivial hextend
    exact hlater.changes.lookAlong_folder hway
  obtain ⟨hread, hmissing⟩ :=
    read_of_moved hnames hname hup hending hwalkable hway₃ hready hrename
  refine ⟨?_, ?_, ?_, fun _ => ⟨hread, hmissing⟩, fun hno => absurd rfl hno, ?_⟩
  · rintro m (rfl | hm)
    · rw [hnodes]
      exact .inr (node?_withNode_self _ _ _)
    · rw [htail]
      exact .inl ((hunder m hm).kept _ hne)
  · rintro hdirect m (rfl | hm)
    · exact .inr hread
    · exact .inl ((hunder m hm).readAlong ht hnames hidle hup hdirect)
  · rw [htail]
    rintro m (rfl | hm) place hplace hbeside
    · refine (hlast.kept place hbeside).congr ?_
      rw [hnodes, node?_withNode_other _ _ hplace]
      exact node?_without_other _ hbeside
    · exact (hunder m hm).kept place hbeside
  · rw [if_pos (created_mem_effectsSince hsteps hcreate hextend hrename), hnodes,
      node?_withNode_other _ _ hne.symm]
    exact node?_without_self _ _

theorem Replacement.atomic {outcome : Except Refusal Unit}
    (h : d.Replacement r content outcome d') : d.Atomic r content outcome d' := by
  have htail : r.names.tail = up := by rw [hnames, List.tail_cons]
  cases h with
  | unprepared hsteps => exact atomic_of_unprepared ht hnames hidle hup (htail ▸ hsteps)
  | moved hending hwalkable hsteps hway hcreate hextend hrename =>
    exact atomic_of_moved ht hnames hidle hup hending hwalkable (htail ▸ hsteps) (htail ▸ hway)
      hcreate hextend hrename
  | dropped hsteps hcreate hextend hunlink =>
    exact atomic_of_dropped ht hnames hidle hup (htail ▸ hsteps) hcreate hextend hunlink

end

/-- **A replacement is atomic.** Whatever stands on the disk and wherever a written path leads that
ends in a name, its target holds what it held or exactly the new content, at every crash and
afterwards, and nothing else is changed but folders that were missing on the way. -/
theorem replaceAlong_atomic (d : Disk) (text : String) (content : Bytes) (ht : Tree d.nodes)
    (hnames : (Route.ofText text).names = name :: up) (hup : name ≠ "..") :
    d.Atomic (Route.ofText text) content (d.replaceAlong (Route.ofText text) content).1
      (d.replaceAlong (Route.ofText text) content).2 := by
  have hidle : ∀ part ∈ (Route.ofText text).names, Route.isIdle part = false :=
    fun _ => Route.isIdle_of_mem_ofText
  exact (d.replaceAlong_replacement content hnames (hidle name (hnames ▸ List.mem_cons_self))
    hup).atomic ht hnames hidle hup

/-- A file is replaced, although something was left where the replacement is prepared. -/
theorem replaceAlong_atomic_leftover :
    Tree [(["state.tmp"], Node.file [7, 7]), (["state"], .file [1])] ∧
      (Route.ofText "state").names = ["state"] ∧ "state" ≠ ".." ∧
      (replaceAlong { nodes := [(["state.tmp"], .file [7, 7]), (["state"], .file [1])] }
        (Route.ofText "state") [2]).2.nodes = [(["state"], .file [2])] ∧
      Atomic { nodes := [(["state.tmp"], .file [7, 7]), (["state"], .file [1])] }
        (Route.ofText "state") [2] (.ok ())
        (replaceAlong { nodes := [(["state.tmp"], .file [7, 7]), (["state"], .file [1])] }
          (Route.ofText "state") [2]).2 := by
  have ht : Tree [(["state.tmp"], Node.file [7, 7]), (["state"], .file [1])] := by decide +kernel
  have hnames : (Route.ofText "state").names = ["state"] := by decide +kernel
  have hup : "state" ≠ ".." := by decide
  exact ⟨ht, hnames, hup, by decide +kernel, replaceAlong_atomic
    { nodes := [(["state.tmp"], .file [7, 7]), (["state"], .file [1])] } "state" [2] ht hnames hup⟩

/-- A path that leads back to itself finds its target taken by a folder that was made on the way:
nothing was there before the call, and the target cannot be read after it, although the call
fails. -/
theorem replaceAlong_target_on_way :
    Tree (Disk.nodes {}) ∧ (Route.ofText "a/../a").names = ["a", "..", "a"] ∧
      (replaceAlong {} (Route.ofText "a/../a") [1]).1 = .error .denied ∧
      readAlong {} (Route.ofText "a/../a") = .ok none ∧
      readAlong (replaceAlong {} (Route.ofText "a/../a") [1]).2 (Route.ofText "a/../a") =
        .error .denied := by
  refine ⟨by decide, by decide +kernel, rfl, rfl, rfl⟩

end Disk

end Holdfast
