import Holdfast.Proofs.Disk.Ways
import Holdfast.Proofs.Engine.Drained
import Holdfast.Proofs.Engine.Preserved

/-!
# What a wipe leaves behind

Once a transport has committed a wipe, everything known about its dataset is forgotten, and then
the transport's mark is taken away. What is forgotten is in four places: the packages backed up so
far, the token of the dataset, the files of the transport and the packages that are not pending.
The second of these is written to a file, and if that fails the other two are left as they are.

- `System.clearFolder_noFile`: the files of a folder are deleted;
- `System.resetBackupState_estate`: how far it is forgotten;
- `System.wipe_settled`: **what is forgotten when a mark goes**;
- `World.mark_outlived`: the mark goes also where the token cannot be written.
-/

namespace Holdfast

open Disk

/-! ## Journals -/

theorem Disk.Effect.Avoids.settles {path : Path} {effect : Effect} (h : effect.Avoids path) :
    effect.Settles path := by
  cases effect with
  | makeFolder _ | extendFile _ _ | unlink _ => trivial
  | createFile _ => exact h
  | rename _ _ => exact h.2

theorem Journal.create_changes (d : Disk) {folder path : Path}
    (hne : ∀ name, folder.child name ≠ path) :
    d.Changes (Effect.Avoids path) (create d folder).2 := by
  have hfolders : d.Changes (Effect.Avoids path) (Store.makeFolders d folder).2 :=
    d.makeFolders_changes fun _ _ => trivial
  unfold create
  split
  · exact hfolders.of_answer ‹_›
  · rename_i d₁ heq
    simp only
    generalize firstFree _ _ _ = n
    have hserial : d.Changes (Effect.Avoids path) { d₁ with serial := n + 1 } :=
      (hfolders.of_answer heq).still rfl
    have hcreate : Effect.Avoids path (.createFile (folder.child (nameOf n))) := hne (nameOf n)
    split
    · exact (hserial.go hcreate).of_answer ‹_›
    · exact (hserial.go hcreate).of_answer ‹_›

namespace Pending

variable {p : Pending} {path : Path}

theorem write_changes (h : p.Avoids path) (package : String) (d : Disk) :
    d.Changes (Effect.Avoids path) (p.write package d).2 := by
  have hadd : ∀ {j : Journal} (d : Disk), j.path ≠ path →
      d.Changes (Effect.Avoids path) (j.add package d).2 := by
    intro j d hj
    unfold Journal.add Store.append
    split
    · exact .refl
    · exact d.appendFile_changes _ hj hj
  unfold write
  split
  · rename_i j hj
    split <;> exact (hadd d (h.journal j hj)).of_answer ‹_›
  · have hcreate := Journal.create_changes d h.folder
    split
    · exact hcreate.of_answer ‹_›
    · rename_i j d₁ heq
      have hj : j.path ≠ path := (Journal.create_preserves d h.folder).2 j (by rw [heq])
      split <;> exact (hcreate.of_answer heq).trans ((hadd d₁ hj).of_answer ‹_›)

/-- Packages are staged without touching a path that the journals avoid. -/
theorem restage_changes (h : p.Avoids path) (packages : List String) (d : Disk) :
    d.Changes (Effect.Avoids path) (p.restage packages d).2 := by
  induction packages generalizing p d with
  | nil => exact .refl
  | cons package rest ih =>
    have hstage : d.Changes (Effect.Avoids path) (p.stage package d).2.2 := by
      unfold stage
      split
      · exact .refl
      · exact write_changes (p := { p with packages := p.packages.insert package })
          ⟨h.folder, h.journal⟩ package d
    exact hstage.trans (ih (stage_preserves h package d).1 _)

end Pending

namespace System

variable {s : System} {t : Task}

/-! ## The files of a transport -/

/-- A file that may be deleted is not there any more. -/
theorem unlink_noFile {d : Disk} (ht : Tree d.nodes) (path : Path) :
    NoFile path (d.perform (.unlink path)).2.nodes := by
  rcases d.perform_cases (.unlink path) with ⟨nodes, hafter, heq⟩ | ⟨refusal, hafter, heq⟩
  · obtain ⟨-, rfl⟩ := after_unlink hafter
    rw [heq]
    exact fun content hlisted => (mem_without.1 hlisted).2 rfl
  · rw [heq]
    intro content hlisted
    rw [after, ht.sight_file_iff.2 hlisted] at hafter
    cases hafter

/-- What the deletion of a list of files does: nothing but deletions, and no file of the list is
left. -/
theorem clearFolder_entries {disk : Disk} (ht : Tree disk.nodes) (folder : Route) {name : String}
    (hname : name ≠ TransportRegistry.initMark) (entries : List (String × Node)) :
    let d := entries.foldl (fun disk entry =>
      match entry.2 with
      | .file _ =>
        if entry.1 = TransportRegistry.initMark then disk
        else (disk.perform (.unlink (folder.place.child entry.1))).2
      | .folder => disk) disk
    disk.Changes (fun effect => ∃ other, effect = .unlink (folder.place.child other)) d ∧
      ((∃ content, (name, .file content) ∈ entries) → NoFile (name :: folder.place) d.nodes) := by
  induction entries generalizing disk with
  | nil => exact ⟨.refl, fun ⟨_, hmem⟩ => absurd hmem List.not_mem_nil⟩
  | cons entry entries ih =>
    obtain ⟨other, node⟩ := entry
    rw [List.foldl_cons]
    cases node with
    | folder =>
      obtain ⟨hchanges, hgone⟩ := ih ht
      refine ⟨hchanges, fun ⟨content, hmem⟩ => hgone ⟨content, ?_⟩⟩
      exact (List.mem_cons.1 hmem).resolve_left nofun
    | file old =>
      by_cases hother : other = TransportRegistry.initMark
      · subst hother
        obtain ⟨hchanges, hgone⟩ := ih ht
        simp only [if_true]
        refine ⟨hchanges, fun ⟨content, hmem⟩ => hgone ⟨content, ?_⟩⟩
        exact (List.mem_cons.1 hmem).resolve_left fun heq => hname (Prod.mk.inj heq).1
      · simp only [hother, if_false]
        have hunlink : disk.Changes
            (fun effect => ∃ other, effect = .unlink (folder.place.child other))
            (disk.perform (.unlink (folder.place.child other))).2 := .perform disk ⟨other, rfl⟩
        obtain ⟨hchanges, hgone⟩ := ih (hunlink.tree ht)
        refine ⟨hunlink.trans hchanges, fun ⟨content, hmem⟩ => ?_⟩
        rcases List.mem_cons.1 hmem with heq | hmem
        · -- the file is deleted now, and a deletion makes no file
          obtain ⟨rfl, -⟩ := Prod.mk.inj heq
          refine (hchanges.mono ?_).noFile (unlink_noFile ht _)
          rintro effect ⟨_, rfl⟩
          trivial
        · exact hgone ⟨content, hmem⟩

/-- **The files of a folder are deleted**, except for the mark. -/
theorem clearFolder_noFile {disk : Disk} (ht : Tree disk.nodes) {folder : Route}
    (hfolder : disk.lookAlong folder.names = .folder) {name : String}
    (hname : name ≠ TransportRegistry.initMark) :
    NoFile (name :: folder.place) (clearFolder disk folder).nodes := by
  obtain ⟨hchanges, hgone⟩ := clearFolder_entries ht folder hname (disk.childrenAlong folder)
  by_cases hlisted : ∃ content, (name :: folder.place, .file content) ∈ disk.nodes
  · obtain ⟨content, hlisted⟩ := hlisted
    refine hgone ⟨content, ?_⟩
    rw [childrenAlong, hfolder]
    exact mem_children.2 hlisted
  · refine (hchanges.mono ?_).noFile fun content hmem => hlisted ⟨content, hmem⟩
    rintro effect ⟨_, rfl⟩
    trivial

end System

/-! ## What is forgotten -/

/-- What is known of packages and datasets, and the transports that are marked. -/
structure Estate where
  disk : Disk
  processed : Processed
  datasets : Datasets
  pending : Pending
  participants : NameSet
  marks : NameSet

namespace Estate

variable {e : Estate} {record : Path} {folder : Route}

/-- No package counts as backed up any more, and no dataset is written. -/
def forget (e : Estate) (record : Path) : Except Fault Unit × Estate :=
  let disk := (e.disk.removeFile e.processed.path).2
  let datasets : Datasets := { e.datasets with current := 0 }
  ((datasets.save disk record).1,
    { e with
      disk := (datasets.save disk record).2
      processed := { e.processed with packages := .empty }
      datasets })

/-- The files of a folder are deleted, and everything is staged. -/
def restage (e : Estate) (folder : Route) : Estate :=
  let staged := e.pending.restage (e.participants.insert metadataPackage).toList
    (System.clearFolder e.disk folder)
  { e with disk := staged.2, pending := staged.1 }

/-- A dataset is forgotten; the rest follows if that could be put down. -/
def reset (e : Estate) (record : Path) (folder : Except Fault String) :
    Except Fault Unit × Estate :=
  match (e.forget record).1, folder with
  | .error fault, _ => (.error fault, (e.forget record).2)
  | .ok (), .error fault => (.error fault, (e.forget record).2)
  | .ok (), .ok folder => (.ok (), (e.forget record).2.restage (Route.ofText folder))

/-- A mark is taken away. -/
def unmark (e : Estate) (transport : String) (folder : Route) : Estate :=
  { e with
    disk := (e.disk.removeAlong (folder.child TransportRegistry.initMark)).2
    marks := e.marks.erase transport }

/-- Beside the mark and its file, nothing is changed. -/
theorem unmark_rest (e : Estate) (transport : String) (folder : Route) :
    (e.unmark transport folder).processed = e.processed ∧
      (e.unmark transport folder).datasets = e.datasets ∧
      (e.unmark transport folder).pending = e.pending ∧
      (e.unmark transport folder).participants = e.participants := by
  unfold unmark
  exact ⟨rfl, rfl, rfl, rfl⟩

/-- However far it is forgotten, no package counts as backed up, and no dataset is written. -/
structure Known (e e' : Estate) : Prop where
  processed : e'.processed.packages = .empty
  datasets : e'.datasets.current = 0
  participants : e'.participants = e.participants
  marks : e'.marks = e.marks

theorem reset_known (e : Estate) (record : Path) (folder : Except Fault String) :
    e.Known (e.reset record folder).2 := by
  unfold reset
  split <;> exact ⟨rfl, rfl, rfl, rfl⟩

/-- What could not be put down changes nothing that is pending. -/
theorem reset_refused {text : String} (h : (e.reset record (.ok text)).1 ≠ .ok ()) :
    (e.reset record (.ok text)).2.pending = e.pending := by
  unfold reset at h ⊢
  split
  · rfl
  · rename_i heq
    exact absurd heq nofun
  · rename_i hforget hfolder
    rw [hforget] at h
    exact absurd rfl h

theorem reset_done {text : String} (h : (e.reset record (.ok text)).1 = .ok ()) :
    (e.reset record (.ok text)).2 = (e.forget record).2.restage (Route.ofText text) := by
  unfold reset at h ⊢
  split
  · rename_i hforget
    rw [hforget] at h
    cases h
  · rename_i heq
    exact absurd heq nofun
  · rename_i heq
    cases heq
    rfl

/-- Everything is pending once it was staged. -/
theorem mem_restage {package : String}
    (h : package ∈ e.participants ∨ package = metadataPackage) :
    package ∈ (e.restage folder).pending.packages :=
  Pending.mem_restage.2 (.inr (NameSet.mem_def.1 (NameSet.mem_insert.2 h.symm)))

/-- The folder of a transport is there, and no journal is kept in it. -/
structure Houses (e : Estate) (folder : Route) : Prop where
  tree : Tree e.disk.nodes
  there : e.disk.lookAlong folder.names = .folder
  journals : e.pending.folder ≠ folder.place
  journal : ∀ j, e.pending.journal = some j → j.path.tail ≠ folder.place

instance (e : Estate) (folder : Route) : Decidable (e.Houses folder) :=
  decidable_of_iff (Tree e.disk.nodes ∧ e.disk.lookAlong folder.names = .folder ∧
      e.pending.folder ≠ folder.place ∧ ∀ j ∈ e.pending.journal, j.path.tail ≠ folder.place)
    ⟨fun ⟨htree, hthere, hjournals, hjournal⟩ => ⟨htree, hthere, hjournals, hjournal⟩,
      fun h => ⟨h.tree, h.there, h.journals, h.journal⟩⟩

theorem Houses.avoids (h : e.Houses folder) (file : String) :
    e.pending.Avoids (file :: folder.place) :=
  ⟨fun _ heq => h.journals (List.cons.inj heq).2,
    fun j hj heq => h.journal j hj (by rw [heq, List.tail_cons])⟩

theorem forget_changes (e : Estate) (record : Path) :
    e.disk.Changes (fun _ => True) (e.forget record).2.disk := by
  have hremove : e.disk.Changes (fun _ => True) (e.disk.removeFile e.processed.path).2 :=
    e.disk.removeFile_changes trivial
  refine hremove.trans ?_
  show Changes _ _ (Store.replace _ _ _).2
  unfold Store.replace
  split
  · exact .refl
  · exact replaceFile_changes _ _ (.inr fun _ _ => trivial) trivial trivial trivial trivial

theorem Houses.forget (h : e.Houses folder) (record : Path) : (e.forget record).2.Houses folder :=
  ⟨(e.forget_changes record).tree h.tree, (e.forget_changes record).lookAlong_folder h.there,
    h.journals, h.journal⟩

/-- Once the files of a folder have been deleted, neither what is staged nor what becomes of the
mark brings one back. -/
theorem Houses.cleared (h : e.Houses folder) (transport : String) {file : String} {content : Bytes}
    (hfile : (file, .file content) ∈
      ((e.restage folder).unmark transport folder).disk.childrenAlong folder) :
    file = TransportRegistry.initMark := by
  by_contra hmark
  have hcleared := System.clearFolder_noFile h.tree h.there hmark
  have hstaged := (Pending.restage_changes (h.avoids file)
    (e.participants.insert metadataPackage).toList (System.clearFolder e.disk folder)).mono
      fun _ heffect => heffect.settles
  have hmarked := hstaged.trans (removeAlong_changes
    (r := folder.child TransportRegistry.initMark) _ trivial)
  -- what is listed in the folder along the way is listed at its place
  unfold childrenAlong at hfile
  split at hfile
  · exact hmarked.noFile hcleared content (mem_children.1 hfile)
  · exact absurd hfile List.not_mem_nil
  · exact absurd hfile List.not_mem_nil
  · exact absurd hfile List.not_mem_nil

end Estate

namespace System

variable {s : System} {t : Task}

def estate (s : System) : Estate where
  disk := s.disk
  processed := s.engine.processed
  datasets := s.engine.datasets
  pending := s.engine.pending
  participants := s.allParticipants
  marks := s.engine.transports.pendingInits

@[simp] theorem tellResult_estate (s : System) (observer : Option String) (package : String)
    (status : Status) : (s.tellResult observer package status).estate = s.estate := by
  cases observer <;> rfl

@[simp] theorem dispose_estate (s : System) (lease : Option Lease) :
    (s.dispose lease).estate = s.estate := by
  cases lease <;> rfl

@[simp] theorem moveTo_estate (s : System) (t : Task) (stage : Stage) :
    (s.moveTo t stage).estate = s.estate := rfl

@[simp] theorem retryInit_estate (s : System) (transport : String) :
    (s.retryInit transport).estate = s.estate := rfl

/-- The mark of a transport is taken away. -/
@[simp] theorem setInitPending_estate (s : System) (transport folderName : String) :
    (s.setInitPending false transport folderName).estate =
      s.estate.unmark transport (s.engine.transports.folderRoute folderName) := by
  simp only [setInitPending, TransportRegistry.setInitPending, Store.removeAlong,
    Bool.false_eq_true, if_false]
  unfold Estate.unmark
  show _ = Estate.mk (s.disk.removeAlong _).2 _ _ _ _ _
  generalize s.disk.removeAlong _ = answer
  rfl

theorem setCurrentDataset_eq (s : System) (token : UInt64) :
    s.setCurrentDataset token =
      ((({ s.engine.datasets with current := token } : Datasets).save s.disk
          (s.stateFile Datasets.fileName)).1,
        ({ s with
            disk := (({ s.engine.datasets with current := token } : Datasets).save s.disk
              (s.stateFile Datasets.fileName)).2 }).onEngine fun e =>
          { e with datasets := { s.engine.datasets with current := token } }) := by
  unfold setCurrentDataset setDatasets
  generalize Datasets.save _ _ _ = answer
  rfl

/-- The first half of a reset. -/
def forget (s : System) : Except Fault Unit × System :=
  ({ s with disk := (s.disk.removeFile s.engine.processed.path).2 }.onEngine fun e =>
    { e with processed := { e.processed with packages := .empty } }).setCurrentDataset 0

theorem forget_estate (s : System) :
    s.forget.1 = (s.estate.forget (s.stateFile Datasets.fileName)).1 ∧
      s.forget.2.estate = (s.estate.forget (s.stateFile Datasets.fileName)).2 ∧
      s.forget.2.engine.transports = s.engine.transports := by
  unfold forget
  rw [setCurrentDataset_eq]
  unfold Estate.forget onEngine stateFile estate
  exact ⟨rfl, rfl, rfl⟩

theorem resetBackupState_eq (s : System) (transport : String) :
    s.resetBackupState transport = match s.forget with
      | (.error e, s) => (.error e, s)
      | (.ok (), s) =>
        match s.engine.transports.stateFolder transport with
        | .error e => (.error e, s)
        | .ok folder =>
          (.ok (), ({ s with disk := clearFolder s.disk (Route.ofText folder) }.restage
            (s.allParticipants.insert metadataPackage).toList).scheduleKeyValueJob) := by
  unfold resetBackupState forget Processed.reset Store.remove
  generalize s.disk.removeFile s.engine.processed.path = removed
  rfl

theorem resetBackupState_estate (s : System) (transport : String) :
    (s.resetBackupState transport).1 = (s.estate.reset (s.stateFile Datasets.fileName)
        (s.engine.transports.stateFolder transport)).1 ∧
      (s.resetBackupState transport).2.estate = (s.estate.reset (s.stateFile Datasets.fileName)
        (s.engine.transports.stateFolder transport)).2 ∧
      (s.resetBackupState transport).2.engine.transports = s.engine.transports := by
  obtain ⟨houtcome, hestate, hregistry⟩ := s.forget_estate
  rw [resetBackupState_eq]
  unfold Estate.reset
  rw [← houtcome, ← hestate]
  generalize s.forget = forgot at hregistry ⊢
  obtain ⟨outcome, s₁⟩ := forgot
  cases outcome with
  | error fault => exact ⟨rfl, rfl, hregistry⟩
  | ok done =>
    simp only at hregistry ⊢
    rw [hregistry]
    cases s.engine.transports.stateFolder transport with
    | error fault => exact ⟨rfl, rfl, hregistry⟩
    | ok folder => exact ⟨rfl, rfl, hregistry⟩

/-! ## Steps of a wipe -/

/-- What is known once a transport was reset; whether that came to its end. -/
def wiped (s : System) (transport : String) : Except Fault Unit × Estate :=
  s.estate.reset (s.stateFile Datasets.fileName) (s.engine.transports.stateFolder transport)

/-- A transport that could not be wiped keeps its mark. -/
theorem initDone_refused {reply : Device.Reply} (hreply : reply ≠ .ok .ok) (rest : List String)
    (observer : Option String) (overall : Status) :
    (s.initDone t rest observer overall reply).estate = s.estate := by
  have hstatus : commitStatus reply ≠ .success := by
    unfold commitStatus
    split
    · exact absurd rfl hreply
    · nofun
  simp [initDone, hstatus]

theorem initDone_committed (rest : List String) (observer : Option String) (overall : Status) :
    (s.initDone t rest observer overall (.ok .ok)).estate =
      match s.engine.transports.folderName t.transport with
      | .ok folderName => (s.wiped t.transport).2.unmark t.transport
          (s.engine.transports.folderRoute folderName)
      | .error _ => (s.wiped t.transport).2 := by
  obtain ⟨-, hestate, hregistry⟩ := s.resetBackupState_estate t.transport
  have hstatus : commitStatus (.ok .ok) = .success := rfl
  simp only [initDone, hstatus, if_true, moveTo_estate, dispose_estate, tellResult_estate,
    hregistry, wiped, ← hestate]
  cases s.engine.transports.folderName t.transport with
  | error fault => rfl
  | ok folderName => simp only [setInitPending_estate, hregistry]

/-- A step commits the wipe of a transport: its last call is answered, and with success. -/
def Commits (s : System) (t : Task) (c : TransportCall) : Prop :=
  c ≠ .initializeDevice ∧ (s.device.answer t.transport c).1 = .ok .ok

/-- A wipe takes the answer to each of its calls alike. -/
theorem stepTask_wipe_calling {rest : List String} {observer : Option String} {overall : Status}
    {c : TransportCall} (hjob : t.job = .wipe rest observer overall)
    (hstage : t.stage = .calling c) : s.stepTask t = s.takeReply t c := by
  rw [stepTask, hstage]
  by_cases hasks : c = .currentRestoreSet
  · subst hasks
    simp only [takeDataset, hjob]
  · simp only

/-- A step of a wipe changes what is known only when the wipe is committed. -/
theorem stepTask_wipe {rest : List String} {observer : Option String} {overall : Status}
    {c : TransportCall} (hjob : t.job = .wipe rest observer overall)
    (hstage : t.stage = .calling c) :
    (¬ s.Commits t c ∧ (s.stepTask t).estate = s.estate) ∨
      (s.Commits t c ∧ (s.stepTask t).estate =
        match s.engine.transports.folderName t.transport with
        | .ok folderName => (s.wiped t.transport).2.unmark t.transport
            (s.engine.transports.folderRoute folderName)
        | .error _ => (s.wiped t.transport).2) := by
  rw [stepTask_wipe_calling hjob hstage]
  unfold takeReply
  simp only [hjob]
  by_cases hcommits : s.Commits t c
  · refine .inr ⟨hcommits, ?_⟩
    split
    · exact absurd rfl hcommits.1
    · rw [hcommits.2]
      exact initDone_committed rest observer overall
  · refine .inl ⟨hcommits, ?_⟩
    split
    · rfl
    · rename_i c _ _ hnot
      refine initDone_refused (fun hreply => ?_) rest observer overall
      by_cases hcall : c = .initializeDevice
      · exact hnot hcall (by rw [hreply]; rfl)
      · exact hcommits ⟨hcall, hreply⟩

theorem wiped_known (s : System) (transport : String) :
    s.estate.Known (s.wiped transport).2 :=
  s.estate.reset_known _ _

/-- A step of a wipe takes at most the mark of its own transport away. -/
theorem stepTask_marks {rest : List String} {observer : Option String} {overall : Status}
    {c : TransportCall} (hjob : t.job = .wipe rest observer overall)
    (hstage : t.stage = .calling c) {name : String} (hbefore : name ∈ s.estate.marks)
    (hafter : name ∉ (s.stepTask t).estate.marks) : name = t.transport ∧ s.Commits t c := by
  rcases stepTask_wipe (s := s) hjob hstage with ⟨-, hestate⟩ | ⟨hcommits, hestate⟩
  · rw [hestate] at hafter
    exact absurd hbefore hafter
  · have hmarks := (s.wiped_known t.transport).marks
    rw [hestate] at hafter
    split at hafter
    · refine ⟨?_, hcommits⟩
      by_contra hne
      exact hafter (NameSet.mem_erase.2 ⟨by rw [hmarks]; exact hbefore, hne⟩)
    · exact absurd (by rw [hmarks]; exact hbefore) hafter

/-- **What is forgotten when a mark goes.** A step of a wipe takes at most the mark of its own
transport away, and only when the wipe is committed. Then no package counts as backed up, and no
dataset is written. If the reset came to its end, every participant and the metadata are pending,
and the folder of the transport holds no file but its mark, unless the journals are kept there. If
it did not, nothing more is pending, and the mark is taken away all the same. -/
theorem wipe_settled {rest : List String} {observer : Option String} {overall : Status}
    {c : TransportCall} (hjob : t.job = .wipe rest observer overall)
    (hstage : t.stage = .calling c) :
    let s' := s.stepTask t
    (∀ name, s.engine.transports.isInitPending name = true →
      s'.engine.transports.isInitPending name = false → name = t.transport ∧ s.Commits t c) ∧
    (s.Commits t c →
      s'.engine.processed.packages = .empty ∧ s'.engine.datasets.current = 0 ∧
      ∀ folderName, s.engine.transports.folderName t.transport = .ok folderName →
        s'.engine.transports.isInitPending t.transport = false ∧
        ((s.resetBackupState t.transport).1 = .ok () →
          (∀ package, package ∈ s'.allParticipants ∨ package = metadataPackage →
            package ∈ s'.engine.pending.packages) ∧
          (s.estate.Houses (s.engine.transports.folderRoute folderName) → ∀ file content,
            (file, .file content) ∈
              s'.disk.childrenAlong (s.engine.transports.folderRoute folderName) →
            file = TransportRegistry.initMark)) ∧
        ((s.resetBackupState t.transport).1 ≠ .ok () →
          s'.engine.pending = s.engine.pending)) := by
  refine ⟨fun name hbefore hafter => ?_, fun hcommits => ?_⟩
  · refine stepTask_marks hjob hstage (NameSet.contains_eq.1 hbefore) fun hmem => ?_
    exact absurd ((NameSet.contains_eq.2 hmem).symm.trans hafter) nofun
  have hknown := s.wiped_known t.transport
  obtain ⟨houtcome, -⟩ := s.resetBackupState_estate t.transport
  rcases stepTask_wipe (s := s) hjob hstage with ⟨hnot, -⟩ | ⟨-, hestate⟩
  · exact absurd hcommits hnot
  generalize hwiped : s.wiped t.transport = answer at hknown hestate
  obtain ⟨outcome, e⟩ := answer
  cases hname : s.engine.transports.folderName t.transport with
  | error fault =>
    simp only [hname] at hestate
    exact ⟨(congrArg (·.processed.packages) hestate).trans hknown.processed,
      (congrArg (·.datasets.current) hestate).trans hknown.datasets, nofun⟩
  | ok folderName =>
    simp only [hname] at hestate
    have hfolder : s.engine.transports.stateFolder t.transport =
        .ok (s.engine.transports.folderText folderName) := by
      rw [TransportRegistry.stateFolder, hname]
      rfl
    rw [wiped, hfolder] at hwiped
    rw [hfolder, hwiped] at houtcome
    obtain ⟨hprocessed, hdatasets, hpending, hparticipants⟩ := e.unmark_rest t.transport
      (s.engine.transports.folderRoute folderName)
    rw [← hestate] at hprocessed hdatasets hpending hparticipants
    refine ⟨(congrArg (·.packages) hprocessed).trans hknown.processed,
      (congrArg (·.current) hdatasets).trans hknown.datasets, ?_⟩
    rintro _ ⟨⟩
    refine ⟨?_, fun hdone => ?_, fun hnot => ?_⟩
    · have hmarks : (s.stepTask t).engine.transports.pendingInits = e.marks.erase t.transport :=
        congrArg Estate.marks hestate
      rw [TransportRegistry.isInitPending, hmarks, NameSet.contains, decide_eq_false_iff_not,
        NameSet.mem_erase]
      exact fun hmem => hmem.2 rfl
    · have hcame : e = (s.estate.forget (s.stateFile Datasets.fileName)).2.restage
          (s.engine.transports.folderRoute folderName) := by
        have hreset := Estate.reset_done (by rw [hwiped, ← houtcome]; exact hdone)
        rw [hwiped] at hreset
        exact hreset
      have hdisk : (s.stepTask t).disk =
          (e.unmark t.transport (s.engine.transports.folderRoute folderName)).disk :=
        congrArg Estate.disk hestate
      refine ⟨fun package hpackage => ?_, fun hhouses file content hfile => ?_⟩
      · have hpackage : package ∈ s.estate.participants ∨ package = metadataPackage := by
          rw [← hknown.participants, ← hparticipants]
          exact hpackage
        show package ∈ (s.stepTask t).estate.pending.packages
        rw [hpending, hcame]
        exact Estate.mem_restage hpackage
      · rw [hdisk, hcame] at hfile
        exact (hhouses.forget (s.stateFile Datasets.fileName)).cleared t.transport hfile
    · have hcame := Estate.reset_refused (by rw [hwiped, ← houtcome]; exact hnot)
      rw [hwiped] at hcame
      exact hpending.trans hcame

end System

namespace World

/-- A disk on which a transport is marked for wiping and has left a file. -/
def diskOfLeftover : Disk :=
  { nodes :=
      [(["_need_init_", "local", "backup-state"], .file []),
        (["cache", "local", "backup-state"], .file []), (["local", "backup-state"], .folder),
        (["backup-state"], .folder)] }

/-- The transport is registered and asked to be wiped, and the wipe comes to its commit. -/
def wipeCommitting : List Event :=
  [.call (.registerTransport ⟨"local", "vault/Local", "local"⟩),
    .call (.initializeTransports ["local"] none), .command, .command] ++ List.replicate 3 (.task 1)

/-- The file is deleted and the only package is pending when the mark goes. -/
theorem wipe_settled_leftover :
    ∃ s, System.start {} diskOfLeftover deviceOfOne.fresh = .ok s ∧
      let w := (opened s).run wipeCommitting
      ∃ t ∈ w.system.engine.tasks,
        w.system.engine.transports.isInitPending "local" = true ∧
        (w.system.stepTask t).engine.transports.isInitPending "local" = false ∧
        "app" ∈ (w.system.stepTask t).engine.pending.packages ∧
        ∀ content, ("cache", .file content) ∉
          (w.system.stepTask t).disk.childrenAlong (Route.ofText "backup-state/local") := by
  obtain ⟨s, hstart, t, ht, hstage, hresets, hcommits, hmark, hname, hroute, hdone, hhouses,
    happ⟩ :=
    @start_decide {} diskOfLeftover deviceOfOne.fresh (fun s =>
      let w := (opened s).run wipeCommitting
      ∃ t ∈ w.system.engine.tasks, t.stage = .calling .finishBackup ∧
        t.resets? = some "local" ∧
        (w.system.device.answer "local" .finishBackup).1 = .ok .ok ∧
        w.system.engine.transports.isInitPending "local" = true ∧
        w.system.engine.transports.folderName "local" = .ok "local" ∧
        w.system.engine.transports.folderRoute "local" = Route.ofText "backup-state/local" ∧
        (w.system.resetBackupState "local").1 = .ok () ∧
        w.system.estate.Houses (Route.ofText "backup-state/local") ∧
        "app" ∈ (w.system.stepTask t).allParticipants) inferInstance (by decide +kernel)
  refine ⟨s, hstart, t, ht, hmark, ?_⟩
  generalize (opened s).run wipeCommitting = w at *
  unfold Task.resets? at hresets
  split at hresets
  · rename_i c hjob hcalling
    obtain rfl : TransportCall.finishBackup = c := Stage.calling.inj (hstage.symm.trans hcalling)
    have hlocal : t.transport = "local" := Option.some.inj hresets
    obtain ⟨-, hsettled⟩ := System.wipe_settled (s := w.system) hjob hcalling
    rw [System.Commits, hlocal] at hsettled
    obtain ⟨-, -, hfolder⟩ := hsettled ⟨nofun, hcommits⟩
    obtain ⟨hgone, hforgotten, -⟩ := hfolder "local" hname
    rw [hroute] at hforgotten
    obtain ⟨hpending, hfiles⟩ := hforgotten hdone
    exact ⟨hgone, hpending "app" (.inl happ), fun content hfile =>
      absurd (hfiles hhouses "cache" content hfile) (by decide)⟩
  · cases hresets

/-- The same disk, with a folder where the record of the datasets belongs. -/
def diskOfBlocked : Disk :=
  { nodes := (["ancestral", "backup-state"], .folder) :: diskOfLeftover.nodes }

/-- **A mark can go too early.** The record of the datasets cannot be written. The wipe is committed
and the mark is taken away, but the only package is not pending, and the file is still there. -/
theorem mark_outlived :
    ∃ s, System.start {} diskOfBlocked deviceOfOne.fresh = .ok s ∧
      let w := (opened s).run wipeCommitting
      let s' := (w.happen (.task 1)).system
      w.system.engine.transports.isInitPending "local" = true ∧
        s'.engine.transports.isInitPending "local" = false ∧
        "app" ∈ s'.allParticipants ∧ "app" ∉ s'.engine.pending.packages ∧
        ("cache", .file []) ∈ s'.disk.childrenAlong (Route.ofText "backup-state/local") :=
  start_decide (by decide +kernel)

end World

end Holdfast
