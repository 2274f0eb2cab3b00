import Holdfast.Proofs.Disk.Preserved
import Holdfast.Proofs.Engine.AgendaWork
import Holdfast.Proofs.Engine.FootprintWork

/-!
# What tasks leave on disk

The engine keeps several files: journals, the marks and metadata of transports, what is known of
datasets, what was backed up, the switch and the schedule. What it writes to the others leaves the
schedule file as it is.

- `Pending.Avoids`, `Pending.finish_preserves`, …: journals;
- `Agenda.Avoids`: the journals, the switch and what was backed up have files of their own;
- `System.KeepsApart`: a transport does not keep its files in a folder;
- `System.stepTask_preserves`: **a step of a task preserves the schedule file**, unless it resets a
  transport that keeps its files beside it.
-/

namespace Holdfast

open Disk

/-! ## Journals -/

/-- Creating a journal makes folders and one file under a free name of its own, so it spares what
lies at a path where no journal can be. -/
theorem Journal.create_preserves (d : Disk) {folder path : Path}
    (hne : ∀ name, folder.child name ≠ path) :
    d.Preserves path (create d folder).2 ∧ ∀ j, (create d folder).1 = .ok j → j.path ≠ path := by
  have hfolders : d.Preserves path (Store.makeFolders d folder).2 :=
    d.makeFolders_preserves path folder
  unfold create
  split
  · exact ⟨hfolders.of_answer ‹_›, nofun⟩
  · rename_i d₁ heq
    have hmade := hfolders.of_answer heq
    simp only
    generalize firstFree _ _ _ = n
    -- whichever name is free, the file is one of the folder
    have hcreate := perform_preserves { d₁ with serial := n + 1 }
      (.createFile (folder.child (nameOf n))) (hne (nameOf n))
    split
    · exact ⟨hmade.trans (hcreate.of_answer ‹_›), nofun⟩
    · refine ⟨hmade.trans (hcreate.of_answer ‹_›), fun j hj => ?_⟩
      cases hj
      exact hne _

/-- What a pass has drained is not at a path. -/
def Drained.Avoids (path : Path) (pass : Drained) : Prop :=
  ∀ j, pass.journal = some j → j.path ≠ path

namespace Pending

variable {p : Pending} {path : Path}

/-- The journals, present and future, are not at a path. -/
structure Avoids (path : Path) (p : Pending) : Prop where
  folder : ∀ name, p.folder.child name ≠ path
  journal : ∀ j, p.journal = some j → j.path ≠ path

/-- Writing a package down: it is appended to the open journal, or a journal is created for it
first. -/
theorem write_preserves (h : p.Avoids path) (package : String) (d : Disk) :
    (p.write package d).1.Avoids path ∧ d.Preserves path (p.write package d).2 := by
  unfold write
  split
  · rename_i j hj
    have hadd : d.Preserves path (j.add package d).2 :=
      Store.append_preserves d _ (h.journal j hj)
    -- a journal that could not be written is given up
    split
    · exact ⟨h, hadd.of_answer ‹_›⟩
    · exact ⟨⟨h.folder, nofun⟩, hadd.of_answer ‹_›⟩
  · obtain ⟨hcreate, hpath⟩ := Journal.create_preserves d h.folder
    split
    · exact ⟨h, hcreate.of_answer ‹_›⟩
    · rename_i j d₁ heq
      have hmade := hcreate.of_answer heq
      have hj : j.path ≠ path := hpath j (by rw [heq])
      have hadd : d₁.Preserves path (j.add package d₁).2 := Store.append_preserves d₁ _ hj
      split
      · refine ⟨⟨h.folder, fun other hother => ?_⟩, hmade.trans (hadd.of_answer ‹_›)⟩
        cases hother
        exact hj
      · exact ⟨h, hmade.trans (hadd.of_answer ‹_›)⟩

/-- A package is staged only if it does not wait yet, and then it is written down. -/
theorem stage_preserves (h : p.Avoids path) (package : String) (d : Disk) :
    (p.stage package d).2.1.Avoids path ∧ d.Preserves path (p.stage package d).2.2 := by
  unfold stage
  split
  · exact ⟨h, .refl path d⟩
  · exact write_preserves (p := { p with packages := p.packages.insert package })
      ⟨h.folder, h.journal⟩ package d

/-- A package is staged only if its caller may announce it. -/
theorem record_preserves (h : p.Avoids path) (package : String) (targets : NameSet) (d : Disk) :
    (p.record package targets d).2.1.Avoids path ∧
      d.Preserves path (p.record package targets d).2.2 := by
  unfold record
  split
  · exact stage_preserves h package d
  · exact ⟨h, .refl path d⟩

/-- The packages of a pass are staged one after the other. -/
theorem restage_preserves (h : p.Avoids path) (packages : List String) (d : Disk) :
    (p.restage packages d).1.Avoids path ∧ d.Preserves path (p.restage packages d).2 := by
  induction packages generalizing p d with
  | nil => exact ⟨h, .refl path d⟩
  | cons package rest ih =>
    obtain ⟨hstaged, hpreserves⟩ := stage_preserves h package d
    obtain ⟨hrest, hmore⟩ := ih hstaged (p.stage package d).2.2
    exact ⟨hrest, hpreserves.trans hmore⟩

/-- A journal of another place is deleted. -/
theorem retire_preserves {pass : Drained} (h : pass.Avoids path) (d : Disk) :
    d.Preserves path (retire pass d) := by
  unfold retire
  split
  · rename_i j hj
    exact d.removeFile_preserves (h j hj)
  · exact .refl path d

/-- The end of a pass: what it had drained is staged again if it failed, and then its journal is
deleted. -/
theorem finish_preserves (h : p.Avoids path) {pass : Drained} (hpass : pass.Avoids path)
    (success : Bool) (d : Disk) : (p.finish pass success d).1.Avoids path ∧
      d.Preserves path (p.finish pass success d).2 := by
  unfold finish
  cases success with
  | true => exact ⟨h, retire_preserves hpass d⟩
  | false =>
    obtain ⟨hstaged, hpreserves⟩ := restage_preserves h pass.packages d
    exact ⟨hstaged, hpreserves.trans (retire_preserves hpass _)⟩

/-- The open journal is handed to the pass, and the next one goes to the same folder. -/
theorem Avoids.drain (h : p.Avoids path) :
    p.drain.1.Avoids path ∧ p.drain.2.Avoids path :=
  ⟨h.journal, h.folder, nofun⟩

/-- Replaying a journal only ever opens journals of the own folder. -/
theorem Avoids.recordAll (h : p.Avoids path) (packages : List String) (targets : NameSet)
    (d : Disk) : (p.recordAll packages targets d).1.Avoids path := by
  induction packages generalizing p d with
  | nil => exact h
  | cons package rest ih => exact ih (record_preserves h package targets d).1 _

/-- After a replay, too, the open journal is one of the own folder. -/
theorem Avoids.replay (h : p.Avoids path) (targets : NameSet) (d : Disk) :
    (p.replay targets d).2.1.Avoids path := by
  have hone : ∀ {p : Pending}, p.Avoids path → ∀ journal d,
      (p.replayOne journal targets d).2.1.Avoids path := by
    intro p h journal d
    unfold replayOne
    split
    · exact h
    · exact h.recordAll _ targets d
  unfold Pending.replay
  generalize Journal.list d p.folder = journals
  induction journals generalizing p d with
  | nil => exact h
  | cons journal rest ih =>
    unfold replayEach
    split
    · exact ih h d
    · exact ih (hone h journal d) _

end Pending

/-- The other files of the engine are not the schedule file of a folder. -/
structure Agenda.Avoids (folder : Path) (a : Agenda) : Prop where
  pending : a.pending.Avoids (folder.child Schedule.fileName)
  processed : a.processed ≠ folder.child Schedule.fileName
  policy : a.policy.file ≠ folder.child Schedule.fileName

/-- What a task has drained is not at a path. -/
def Errand.Avoids (path : Path) : Errand → Prop
  | .pass drained _ => ∀ pass, drained = some pass → pass.Avoids path
  | .passed _ | .full _ _ _ _ | .other => True

/-- The transport that the next step of a task may reset. -/
def Task.resets? (t : Task) : Option String :=
  match t.job, t.stage with
  | .wipe _ _ _, .calling _ => some t.transport
  | _, _ => none

namespace System

variable {s s' s'' : System} {t : Task}

/-! ## Operations of tasks -/

/-- What becomes of the schedule file of a folder. -/
def Preserves (folder : Path) (s s' : System) : Prop :=
  s.disk.Preserves (folder.child Schedule.fileName) s'.disk

variable {folder : Path}

/-- A disk that is left alone keeps all its files. -/
theorem Preserves.of_disk (h : s'.disk = s.disk) : s.Preserves folder s' := by
  unfold Preserves
  rw [h]
  exact .refl _ _

/-- What keeps away from the disk preserves every file. -/
theorem Within.preserves {parts : Footprint} (h : s.Within parts s') (hdisk : .disk ∉ parts) :
    s.Preserves folder s' :=
  .of_disk (h.same .disk hdisk)

/-- Nothing is lost in two changes if nothing is in either. -/
theorem Preserves.trans (h : s.Preserves folder s') (h' : s'.Preserves folder s'') :
    s.Preserves folder s'' :=
  Disk.Preserves.trans h h'

/-- The disk of the first system is that of another. -/
theorem Preserves.after (h : s'.Preserves folder s'') (hdisk : s'.disk = s.disk) :
    s.Preserves folder s'' :=
  Preserves.trans (.of_disk hdisk) h

/-- The schedule is not one of the files under which replacements are prepared: its name does not
end like theirs. -/
theorem isFinal_schedule (folder : Path) : IsFinal (folder.child Schedule.fileName) := by
  intro name up heq
  have hname : name ++ ".tmp" = Schedule.fileName := (List.cons.inj heq).1
  have hlast : (name ++ ".tmp").toList.getLast? = some 'p' := by simp
  rw [hname] at hlast
  exact absurd hlast (by decide)

/-- The schedule file is not the root of the disk. -/
theorem schedule_ne_nil (folder : Path) : folder.child Schedule.fileName ≠ [] := nofun

/-- A file of another name is not the schedule file, whatever the folder. -/
theorem ne_schedule {name : String} (h : name ≠ Schedule.fileName) (up folder : Path) :
    name :: up ≠ folder.child Schedule.fileName :=
  fun heq => h (List.cons.inj heq).1

/-- A package that was backed up is noted in the file of processed packages. -/
theorem recordProcessed_preserves (hprocessed : s.agenda.processed ≠ folder.child Schedule.fileName)
    (package : String) : s.Preserves folder (s.recordProcessed package) := by
  show s.disk.Preserves _ (s.engine.processed.add package s.disk).2.2
  unfold Processed.add
  split
  · exact .refl _ _
  · exact Store.append_preserves s.disk _ hprocessed

/-- What is known of datasets is replaced as a whole, in a file of its own. -/
theorem setDatasets_preserves (s : System) (folder : Path) (datasets : Datasets) :
    s.Preserves folder (s.setDatasets datasets).2 := by
  have hfile : s.stateFile Datasets.fileName ≠ folder.child Schedule.fileName :=
    ne_schedule (by decide) _ folder
  exact Store.replace_preserves s.disk _ hfile
    ((isFinal_schedule folder).ne_preparing (schedule_ne_nil folder) _)

/-- The current dataset is stored with what else is known of datasets. -/
theorem setCurrentDataset_preserves (s : System) (folder : Path) (token : UInt64) :
    s.Preserves folder (s.setCurrentDataset token).2 :=
  s.setDatasets_preserves folder _

/-- The mark of a transport is a file in the folder of the transport; its name is not that of the
schedule. -/
theorem setInitPending_preserves (s : System) (folder : Path) (pending : Bool)
    (name folderName : String) : s.Preserves folder (s.setInitPending pending name folderName) := by
  have hmark : ((s.engine.transports.folderRoute folderName).child
      TransportRegistry.initMark).place ≠ folder.child Schedule.fileName := by
    rw [Route.place_child _ (by decide) (by decide)]
    exact ne_schedule (by decide) _ folder
  have hregistry : s.disk.Preserves (folder.child Schedule.fileName)
      (s.engine.transports.setInitPending pending name folderName s.disk).2.2 := by
    unfold TransportRegistry.setInitPending
    simp only
    -- the mark is set by an empty file, and taken away with it
    split
    · have hreplace := Store.replaceAlong_preserves s.disk (isFinal_schedule folder)
        (schedule_ne_nil folder) (.ok []) hmark
      generalize Store.replaceAlong s.disk _ _ = answer at hreplace ⊢
      exact hreplace
    · have hremove := Store.removeAlong_preserves s.disk hmark
      generalize Store.removeAlong s.disk _ = answer at hremove ⊢
      exact hremove
  exact hregistry

/-- A transport that asked to be wiped is marked, and the wipe is tried again later. -/
theorem markForInit_preserves (s : System) (folder : Path) (transport : String) :
    s.Preserves folder (s.markForInit transport) := by
  unfold markForInit
  split
  · exact .of_disk rfl
  · rename_i folderName _
    exact (s.setInitPending_preserves folder true transport folderName).trans
      ((retryInit_within _ _).preserves (by decide))

/-- A pass marks its transport at its end if the transport asked for it. -/
theorem heedInit_preserves (s : System) (folder : Path) (t : Task) :
    s.Preserves folder (s.heedInit t) := by
  unfold heedInit
  split
  · exact s.markForInit_preserves folder _
  · exact .of_disk rfl

/-- The metadata of packages goes to a file in the folder of the transport; wherever that folder is,
the name of the file is not that of the schedule. -/
theorem writeMetadata_preserves (s : System) (folder : Path) (transport : String) :
    s.Preserves folder (s.writeMetadata transport) := by
  unfold writeMetadata
  split
  · exact .of_disk rfl
  · rename_i file hfile
    have hplace : (Route.ofText file).place ≠ folder.child Schedule.fileName := by
      cases hfolder : s.engine.transports.stateFolder transport with
      | error fault =>
        rw [TransportRegistry.metadataFile, hfolder] at hfile
        cases hfile
      | ok text =>
        rw [TransportRegistry.metadataFile, hfolder] at hfile
        cases hfile
        -- joined to any text, the name stays the last component of the path
        obtain ⟨up, hup⟩ := Route.place_joinText text metadataPackage (by decide) (by decide)
          (by decide)
        rw [hup]
        exact ne_schedule (by decide) up folder
    have hreplace : s.disk.Preserves (folder.child Schedule.fileName) (Store.replaceAlong s.disk
        (Route.ofText file) (Record.putTexts (sortBy (fun a b => decide (a ≤ b))
          (s.device.catalog.map (·.name))))).2 :=
      Store.replaceAlong_preserves s.disk (isFinal_schedule folder) (schedule_ne_nil folder) _
        hplace
    exact hreplace

/-- A pass stores the dataset that its transport names, if there is one. -/
theorem storeDataset_preserves (s : System) (folder : Path) (transport : String) :
    s.Preserves folder (s.storeDataset transport) := by
  unfold storeDataset
  split
  · split
    · exact .of_disk rfl
    · exact setCurrentDataset_preserves _ folder _
  · exact .of_disk rfl

/-- A pass closes what it has drained. -/
theorem closeDrained_preserves (hpending : s.agenda.pending.Avoids (folder.child Schedule.fileName))
    {drained : Option Drained}
    (hdrained : ∀ pass, drained = some pass → pass.Avoids (folder.child Schedule.fileName))
    (success : Bool) : s.Preserves folder (s.closeDrained drained success) := by
  unfold closeDrained
  split
  · exact (Pending.finish_preserves hpending (hdrained _ rfl) success s.disk).2
  · exact .of_disk rfl

/-- The files of a folder are deleted, but not those of another. -/
theorem clearFolder_preserves (disk : Disk) {r : Route} (h : r.place ≠ folder) :
    disk.Preserves (folder.child Schedule.fileName) (clearFolder disk r) := by
  unfold clearFolder
  refine List.foldlRecOn (motive := disk.Preserves (folder.child Schedule.fileName)) _ _ (.refl _ _)
    fun d hd entry _ => ?_
  -- folders are left, and a file that is deleted lies in the folder that is cleared
  split
  · split
    · exact hd
    · exact hd.trans (d.perform_preserves _ fun heq => h (List.cons.inj heq).2)
  · exact hd

/-- A transport does not keep its files in a folder. -/
def KeepsApart (s : System) (folder : Path) (transport : String) : Prop :=
  ∀ text, s.engine.transports.stateFolder transport = .ok text → (Route.ofText text).place ≠ folder

instance (s : System) (folder : Path) (transport : String) :
    Decidable (s.KeepsApart folder transport) :=
  match h : s.engine.transports.stateFolder transport with
  | .ok text => decidable_of_iff ((Route.ofText text).place ≠ folder) (by simp [KeepsApart, h])
  | .error _ => .isTrue (by simp [KeepsApart, h])

/-- A transport is reset that does not keep its files beside the schedule. -/
theorem resetBackupState_preserves (h : s.agenda.Avoids folder) {transport : String}
    (hapart : s.KeepsApart folder transport) :
    s.Preserves folder (s.resetBackupState transport).2 := by
  have hremove : s.disk.Preserves (folder.child Schedule.fileName)
      (s.engine.processed.reset s.disk).2.2 := Store.remove_preserves s.disk h.processed
  unfold resetBackupState
  generalize s.engine.processed.reset s.disk = answer at hremove ⊢
  obtain ⟨_, processed, disk⟩ := answer
  have hremove : s.Preserves folder { s with disk } := hremove
  -- the current dataset is forgotten next, and neither the registry nor the journals change by it
  have hcurrent := hremove.trans
    (setCurrentDataset_preserves ({ s with disk }.onEngine fun e => { e with processed }) folder 0)
  have hsame : (({ s with disk }.onEngine fun e =>
      { e with processed }).setCurrentDataset 0).2.engine.transports = s.engine.transports := rfl
  have hpending : (({ s with disk }.onEngine fun e =>
      { e with processed }).setCurrentDataset 0).2.engine.pending.Avoids
        (folder.child Schedule.fileName) := h.pending
  simp only
  generalize setCurrentDataset _ _ = answer at hcurrent hsame hpending ⊢
  obtain ⟨outcome, s₁⟩ := answer
  have hcurrent : s.Preserves folder s₁ := hcurrent
  have hsame : s₁.engine.transports = s.engine.transports := hsame
  cases outcome with
  -- it could not be stored: the reset goes no further
  | error fault => exact hcurrent
  | ok done =>
    simp only
    rw [hsame]
    split
    -- nobody knows the folder of the transport
    · exact hcurrent
    · rename_i text htext
      have hclear : s₁.Preserves folder
          { s₁ with disk := clearFolder s₁.disk (Route.ofText text) } :=
        clearFolder_preserves s₁.disk (hapart text htext)
      have hrestage := (Pending.restage_preserves hpending
        (({ s₁ with disk := clearFolder s₁.disk (Route.ofText text) } :
          System).allParticipants.insert metadataPackage).toList
        (clearFolder s₁.disk (Route.ofText text))).2
      exact (hcurrent.trans hclear).trans hrestage

/-! ## The end of a task -/

/-- The end of a pass marks the transport and closes what was drained; what comes after keeps away
from the disk. -/
theorem endKeyValue_preserves (h : s.agenda.Avoids folder) {drained : Option Drained}
    (hdrained : ∀ pass, drained = some pass → pass.Avoids (folder.child Schedule.fileName))
    (status : Status) : s.Preserves folder (s.endKeyValue t drained status) := by
  have hpending : (s.heedInit t).agenda.pending.Avoids (folder.child Schedule.fileName) := by
    rw [heedInit_agenda]
    exact h.pending
  exact ((s.heedInit_preserves folder t).trans
    (closeDrained_preserves hpending hdrained (status == .success))).trans
      (((post_within _ .passes rfl).andThen (moveTo_within _ _ _)).preserves (by decide))

/-- The end of a scheduled full backup: the only file it may write is the mark of the transport. -/
theorem endFull_preserves (s : System) (folder : Path) (t : Task) (package : String)
    (lastBackup : Int) (status : Status) :
    s.Preserves folder (s.endFull t package lastBackup status) := by
  refine (s.heedInit_preserves folder t).trans ?_
  refine endFull_elim ?succeeds ?retries ?falls
  case succeeds =>
    exact fun _ => ((enqueueFull_within _ _ _).andThen (moveTo_within _ _ _)).preserves (by decide)
  case retries =>
    exact fun _ _ => (((draw_within _ _).andThen (deferFull_within _ _ _ _)).andThen
      (moveTo_within _ _ _)).preserves (by decide)
  case falls =>
    exact fun _ => ((draw_within _ _).andThen (fall_within _ _)).preserves (by decide)

/-- The end of a restore stores the ancestral dataset if it started; then everything is given back.
-/
theorem endRestore_preserves (s : System) (folder : Path) (t : Task) (order : RestoreOrder)
    (started : Bool) : s.Preserves folder (s.endRestore t order started) := by
  unfold endRestore
  simp only
  generalize hbefore : (if started && order.recordAncestral then _ else s : System) = s'
  have hdatasets : s.Preserves folder s' := by
    rw [← hbefore]
    split
    · exact s.setDatasets_preserves folder _
    · exact .of_disk rfl
  have hgivesBack : ∀ s : System, s.Preserves folder
      (((s.releaseWake.dispose t.lease).post (.restoreFinished order.session)).dropTask t.number) :=
    fun s => (((s.releaseWake_within.andThen (dispose_within _ _)).andThen
      (post_within _ .restores rfl)).andThen (dropTask_within _ _)).preserves (by decide)
  refine hdatasets.trans ?_
  split
  · exact ((s'.note_within .installer rfl).preserves (by decide)).trans (hgivesBack _)
  · exact hgivesBack s'

/-! ## Steps of a task -/

/-- What a pass has drained that has not announced its end. -/
theorem drained_avoids {path : Path} (ht : t.errand.Avoids path)
    (hopen : t.stage.isClosing = false) {drained : Option Drained} {keyValue full : List String}
    {observer : Option String} {nonIncremental : Bool}
    (hjob : t.job = .keyValue drained keyValue full observer nonIncremental) :
    ∀ pass, drained = some pass → pass.Avoids path := by
  rw [errand_pass hjob hopen] at ht
  exact ht

/-- What follows a package of a pass: the next one or, after some outcomes, the end of the pass. -/
theorem packageDone_preserves (h : s.agenda.Avoids folder) {drained : Option Drained}
    (hdrained : ∀ pass, drained = some pass → pass.Avoids (folder.child Schedule.fileName))
    (observer : Option String) (package : String) (status : Status) :
    s.Preserves folder (s.packageDone t drained observer package status) := by
  have htold : (s.tellResult observer package status).agenda.Avoids folder := by
    rw [tellResult_agenda]
    exact h
  unfold packageDone
  simp only
  split
  · exact ((s.tellResult_within _ _ _).preserves (by decide)).trans
      (endKeyValue_preserves htold hdrained status)
  · exact ((s.tellResult_within _ _ _).andThen (moveTo_within _ _ _)).preserves (by decide)

/-- An agent that could not be reached ends a scheduled full backup, but only the package of a pass.
-/
theorem visitFailed_preserves (h : s.agenda.Avoids folder)
    (ht : t.errand.Avoids (folder.child Schedule.fileName)) (hopen : t.stage.isClosing = false)
    (v : Visit) (status : Status) : s.Preserves folder (s.visitFailed t v status) := by
  unfold visitFailed
  split
  · rename_i hjob
    exact packageDone_preserves h (drained_avoids ht hopen hjob) _ _ _
  · exact s.endFull_preserves folder t _ _ _
  all_goals exact (s.moveTo_within _ _).preserves (by decide)

/-- The host is asked to bind an agent; if it refuses, the visit failed. -/
theorem askHost_preserves (h : s.agenda.Avoids folder)
    (ht : t.errand.Avoids (folder.child Schedule.fileName)) (hopen : t.stage.isClosing = false)
    (v : Visit) (ticket : Nat) : s.Preserves folder (s.askHost t v ticket) := by
  unfold askHost
  simp only
  split
  · split <;> exact .of_disk rfl
  · refine Preserves.after (visitFailed_preserves ?_ ht hopen v .agentFailure) rfl
    rw [withBinder_agenda, note_agenda _ rfl]
    exact h

/-- The agent has arrived, or it never will: then the visit failed, with a note of the agent or
without. -/
theorem meetAgent_preserves (h : s.agenda.Avoids folder)
    (ht : t.errand.Avoids (folder.child Schedule.fileName)) (hopen : t.stage.isClosing = false)
    (v : Visit) : s.Preserves folder (s.meetAgent t v) := by
  refine meetAgent_elim ?prepares ?fails
  case prepares => exact fun _ => .of_disk rfl
  case fails =>
    intro left _ hleft
    have hsame : left.disk = s.disk ∧ left.agenda = s.agenda := by
      rcases hleft with rfl | rfl
      · exact ⟨rfl, rfl⟩
      · exact ⟨rfl, note_agenda _ rfl⟩
    exact (visitFailed_preserves (hsame.2 ▸ h) ht hopen v .agentFailure).after hsame.1

/-- The agent is unbound first, and that keeps away from the disk; what it brought is offered, or
the visit failed. -/
theorem collectWork_preserves (h : s.agenda.Avoids folder)
    (ht : t.errand.Avoids (folder.child Schedule.fileName)) (hopen : t.stage.isClosing = false)
    (v : Visit) (token : OpToken) : s.Preserves folder (s.collectWork t v token) := by
  have hdisk : (s.collected v token).disk = s.disk :=
    (tearDown_within _ v.package).same .disk (by decide)
  have h' : (s.collected v token).agenda.Avoids folder := by
    rw [collected, tearDown_agenda]
    exact h
  refine collectWork_elim ?offers ?offersFull ?restores ?fails
  case offers => exact fun _ _ _ _ _ _ _ => .of_disk hdisk
  case offersFull => exact fun _ _ _ => .of_disk hdisk
  case restores => exact fun _ _ => .of_disk hdisk
  case fails =>
    exact (visitFailed_preserves (t := { t with agentToken := none }) h' ht hopen v _).after hdisk

/-- A task begins. A pass whose transport waits for a wipe is over at once. -/
theorem openTask_preserves (h : s.agenda.Avoids folder)
    (ht : t.errand.Avoids (folder.child Schedule.fileName)) (hopen : t.stage.isClosing = false) :
    s.Preserves folder (s.openTask t) := by
  unfold openTask
  split
  · rename_i hjob
    simp only
    split
    · exact (endKeyValue_preserves (s := s.acquireWake) h (drained_avoids ht hopen hjob) _).after
        rfl
    · exact .of_disk rfl
  all_goals exact .of_disk rfl

/-- A pass chooses what to do next: to commit, to break off, to offer the metadata, to visit an
agent, or to skip a package. -/
theorem chooseKeyValue_preserves (h : s.agenda.Avoids folder) {drained : Option Drained}
    (hdrained : ∀ pass, drained = some pass → pass.Avoids (folder.child Schedule.fileName))
    (keyValue full : List String) (observer : Option String) (nonIncremental : Bool) :
    s.Preserves folder (s.chooseKeyValue t drained keyValue full observer nonIncremental) := by
  refine chooseKeyValue_elim ?commits ?breaksOff ?offers ?visits ?skips
  case commits => exact (s.call_within _ _).preserves (by decide)
  case breaksOff => exact fun _ => endKeyValue_preserves h hdrained _
  case offers => exact fun _ _ => (s.call_within _ _).preserves (by decide)
  case visits => exact fun _ _ _ => (s.visit_within _ _).preserves (by decide)
  case skips => exact fun _ _ _ _ _ => packageDone_preserves h hdrained _ _ _

/-- Every kind of task chooses in its own way; a pass is the one that may close what it has drained.
-/
theorem choose_preserves (h : s.agenda.Avoids folder)
    (ht : t.errand.Avoids (folder.child Schedule.fileName)) (hopen : t.stage.isClosing = false) :
    s.Preserves folder (s.choose t) := by
  unfold choose
  split
  · rename_i hjob
    exact chooseKeyValue_preserves h (drained_avoids ht hopen hjob) _ _ _ _
  · exact s.endFull_preserves folder t _ _ _
  · exact (s.chooseInit_within _ _ _ _).preserves (by decide)
  · exact (s.endPlain_within _).preserves (by decide)
  · exact (s.chooseRestore_within _ _ _).preserves (by decide)

/-! ## Answers of transports -/

/-- The answer to a wipe. Only a transport that was wiped is reset, so only then its folder matters.
-/
theorem initDone_preserves (h : s.agenda.Avoids folder) (hapart : s.KeepsApart folder t.transport)
    (rest : List String) (observer : Option String) (overall : Status) (reply : Device.Reply) :
    s.Preserves folder (s.initDone t rest observer overall reply) := by
  have hgoesOn : ∀ (s' : System) result overall, s'.Preserves folder
      (((s'.tellResult observer t.transport result).dispose t.lease).moveTo
        { t with job := .wipe rest observer overall, lease := none } .choosing) :=
    fun s' result overall => (((s'.tellResult_within _ _ _).andThen (dispose_within _ _)).andThen
      (moveTo_within _ _ _)).preserves (by decide)
  unfold initDone
  simp only
  split
  -- wiped: the mark goes last, and only if the folder is known
  · have hreset := resetBackupState_preserves h hapart
    dsimp only
    split
    · rename_i folderName _
      exact (hreset.trans (setInitPending_preserves _ folder false t.transport folderName)).trans
        (hgoesOn _ _ _)
    · exact hreset.trans (hgoesOn _ _ _)
  · exact ((s.retryInit_within _).preserves (by decide)).trans (hgoesOn _ _ _)

/-- The answer to a call of a pass. What is written on the way to the next package goes to the
metadata or to the file of processed packages. -/
theorem replyKeyValue_preserves (h : s.agenda.Avoids folder) {drained : Option Drained}
    (hdrained : ∀ pass, drained = some pass → pass.Avoids (folder.child Schedule.fileName))
    (observer : Option String) (call : TransportCall) (reply : Device.Reply) :
    s.Preserves folder (s.replyKeyValue t drained observer call reply) := by
  have hrecorded : ∀ package, s.Preserves folder (s.recordProcessed package) :=
    recordProcessed_preserves h.processed
  refine replyKeyValue_elim ?done ?doneFull ?asks ?commits
  case done =>
    intro left package hleft
    -- nothing was written, or the metadata, or the package was noted
    have hbefore : s.Preserves folder left ∧ left.agenda = s.agenda := by
      rcases hleft with rfl | rfl | rfl
      · exact ⟨.of_disk rfl, rfl⟩
      · exact ⟨s.writeMetadata_preserves folder _, writeMetadata_agenda _ _⟩
      · exact ⟨hrecorded _, recordProcessed_agenda _ _⟩
    exact hbefore.1.trans (packageDone_preserves (hbefore.2 ▸ h) hdrained _ _ _)
  case doneFull =>
    intro package _
    refine ((hrecorded package).trans ((enqueueFull_within _ _ _).preserves (by decide))).trans
      (packageDone_preserves ?_ hdrained _ _ _)
    obtain ⟨_, _, heq⟩ := ({ s.agenda with
      schedule := s.agenda.schedule.enqueue package s.now } : Agenda).request_eq
    rw [enqueueFull_agenda, recordProcessed_agenda, Agenda.reschedule, heq]
    exact ⟨h.pending, h.processed, h.policy⟩
  case asks => exact fun _ => (s.call_within _ _).preserves (by decide)
  case commits => exact fun _ => endKeyValue_preserves h hdrained _

/-- The answer to a call of a scheduled full backup. -/
theorem replyFull_preserves (h : s.agenda.Avoids folder) (package : String) (lastBackup : Int)
    (call : TransportCall) (reply : Device.Reply) :
    s.Preserves folder (s.replyFull t package lastBackup call reply) := by
  refine replyFull_elim ?commits ?fails ?asks ?ends
  case commits =>
    exact (recordProcessed_preserves h.processed package).trans
      ((call_within _ _ _).preserves (by decide))
  case fails => exact s.endFull_preserves folder _ _ _ _
  case asks => exact fun _ => (s.call_within _ _).preserves (by decide)
  case ends => exact fun _ => s.endFull_preserves folder _ _ _ _

/-- The answer to a call is taken: each kind of task in its own way. -/
theorem takeReply_preserves (h : s.agenda.Avoids folder)
    (ht : t.errand.Avoids (folder.child Schedule.fileName)) {call : TransportCall}
    (hstage : t.stage = .calling call)
    (hapart : ∀ transport, t.resets? = some transport → s.KeepsApart folder transport) :
    s.Preserves folder (s.takeReply t call) := by
  have h' : (s.answered t call).agenda.Avoids folder := ⟨h.pending, h.processed, h.policy⟩
  refine takeReply_elim ?keyValue ?full ?wipeGoesOn ?wiped ?clearGoesOn ?cleared ?restoreGoesOn
    ?restoreFails ?restored
  case keyValue =>
    intro drained keyValue full observer nonIncremental hjob
    have hopen : t.stage.isClosing = false := by rw [hstage]; rfl
    exact (replyKeyValue_preserves h' (drained_avoids ht hopen hjob) _ _ _).after rfl
  case full => exact fun _ _ _ => (replyFull_preserves h' _ _ _ _).after rfl
  case wipeGoesOn => exact fun _ _ _ _ _ => .of_disk rfl
  case wiped =>
    intro rest observer overall hjob _
    have hresets : t.resets? = some t.transport := by
      unfold Task.resets?
      rw [hjob, hstage]
    have hfolder : (s.answered t call).KeepsApart folder t.transport := hapart _ hresets
    exact (initDone_preserves h' hfolder _ _ _ _).after rfl
  case clearGoesOn => exact fun _ _ => .of_disk rfl
  case cleared => exact fun _ _ => ((endPlain_within _ _).preserves (by decide)).after rfl
  case restoreGoesOn => exact fun _ _ _ => .of_disk rfl
  case restoreFails => exact fun _ _ _ _ _ _ _ => (endRestore_preserves _ folder t _ _).after rfl
  case restored => exact fun _ _ _ _ => (endRestore_preserves _ folder t _ _).after rfl

/-- A pass that has learned which dataset it wrote stores that beside the schedule. -/
theorem takeDataset_preserves (h : s.agenda.Avoids folder)
    (ht : t.errand.Avoids (folder.child Schedule.fileName))
    (hstage : t.stage = .calling .currentRestoreSet)
    (hapart : ∀ transport, t.resets? = some transport → s.KeepsApart folder transport) :
    s.Preserves folder (s.takeDataset t) := by
  have hstored := s.storeDataset_preserves folder t.transport
  have hopen : t.stage.isClosing = false := by rw [hstage]; rfl
  unfold takeDataset
  split
  · rename_i hjob
    refine hstored.trans (endKeyValue_preserves ?_ (drained_avoids ht hopen hjob) _)
    rw [storeDataset_agenda]
    exact h
  · exact hstored.trans (endFull_preserves _ folder _ _ _ _)
  -- no other task stands here, and if one did its answer would be taken like any other
  · exact takeReply_preserves h ht hstage hapart
  · exact takeReply_preserves h ht hstage hapart
  · exact takeReply_preserves h ht hstage hapart

/-- **A step of a task preserves the schedule file**, unless it resets a transport that keeps its
files beside it. -/
theorem stepTask_preserves (h : s.agenda.Avoids folder)
    (ht : t.errand.Avoids (folder.child Schedule.fileName))
    (hapart : ∀ transport, t.resets? = some transport → s.KeepsApart folder transport) :
    s.Preserves folder (s.stepTask t) := by
  have hopen : ∀ {stage : Stage}, t.stage = stage → stage.isClosing = false →
      t.stage.isClosing = false := fun hstage hother => hstage ▸ hother
  refine stepTask_elim ?opening ?choosing ?queued ?binding ?prepared ?starting ?working ?asking
    ?calling ?closing ?leaving ?fallen
  case opening => exact fun hstage => openTask_preserves h ht (hopen hstage rfl)
  case choosing => exact fun hstage => choose_preserves h ht (hopen hstage rfl)
  case queued => exact fun _ _ hstage => askHost_preserves h ht (hopen hstage rfl) _ _
  case binding => exact fun _ _ hstage => meetAgent_preserves h ht (hopen hstage rfl) _
  case prepared => exact fun v token _ => (s.heedCancel_within t v token).preserves (by decide)
  case starting => exact fun v token _ => (s.giveWork_within t v token).preserves (by decide)
  case working => exact fun _ _ hstage => collectWork_preserves h ht (hopen hstage rfl) _ _
  case asking => exact fun hstage => takeDataset_preserves h ht hstage hapart
  case calling => exact fun _ hstage _ => takeReply_preserves h ht hstage hapart
  case closing => exact fun status _ => (s.closeTask_within t status).preserves (by decide)
  case leaving => exact fun _ => (s.leave_within t).preserves (by decide)
  case fallen => exact fun _ => .of_disk rfl

end System

end Holdfast
