import Holdfast.Proofs.Engine.Preserved

/-!
# What commands and calls leave on disk

The footprints of most commands and calls leave out the disk. The others write to files other than
the schedule, with two exceptions: the command that writes the schedule, and the reset of a
transport that keeps its files beside it.

- `System.registerTransport_preserves`, `System.setEnabled_preserves`, …: those that write;
- `System.handle_preserves`, `System.make_preserves`: commands and calls preserve the schedule file.
-/

namespace Holdfast.System

variable {s s' : System} {folder : Path}

/-! ## Commands and calls that write -/

theorem handleDataChanged_preserves (h : s.agenda.Avoids folder) (package : String)
    (targets : NameSet) : s.Preserves folder (s.handleDataChanged package targets) :=
  (Pending.record_preserves h.pending package targets s.disk).2

/-- **A command preserves the schedule file**, unless it writes the schedule. -/
theorem handle_preserves (h : s.agenda.Avoids folder) {command : Command}
    (hwrite : command ≠ .writeSchedule) : s.Preserves folder (s.handle command) := by
  cases command with
  | dataChanged package targets => exact handleDataChanged_preserves h package targets
  | writeSchedule => exact absurd rfl hwrite
  | shutdown => exact .of_disk rfl
  | _ =>
    refine (s.handle_within (by simp)).preserves ?_
    dsimp only [Command.footprint]
    decide

theorem endSelect_preserves (s : System) (folder : Path) (lease : Option Lease) :
    s.Preserves folder (s.endSelect lease) :=
  ((s.dispose_within lease).preserves (by decide)).trans (setCurrentDataset_preserves _ folder _)

/-- The folder of a new transport is made. -/
theorem registerTransport_preserves (s : System) (folder : Path) (t : TransportDescription) :
    s.Preserves folder (s.registerTransport t).2 := by
  have hregister : s.disk.Preserves (folder.child Schedule.fileName)
      (s.engine.transports.register t s.disk).2.2 := by
    have hway := Store.makeWay_preserves s.disk (folder.child Schedule.fileName)
      (s.engine.transports.folderRoute t.folderName)
    unfold TransportRegistry.register
    simp only
    generalize Store.makeWay s.disk _ = answer at hway ⊢
    obtain ⟨_ | _, disk⟩ := answer
    · exact hway
    · exact hway
  have hentered : ∀ disk, (s.engine.transports.register t s.disk).2.2 = disk →
      s.Preserves folder { s with disk } := by
    rintro disk rfl
    exact hregister
  refine registerTransport_elim ?refuses ?enters ?wipes
  case refuses => exact fun _ disk _ hdisk => hentered disk hdisk
  case enters => exact fun disk _ hdisk => (hentered disk hdisk).trans (.of_disk rfl)
  case wipes => exact fun disk _ hdisk => (hentered disk hdisk).trans (.of_disk rfl)

theorem markAll_preserves (names : List String) (s : System) (folder : Path) :
    s.Preserves folder (s.markAll names) := by
  unfold markAll
  refine List.foldlRecOn (motive := s.Preserves folder) _ _ (.of_disk rfl) fun s' h name _ => ?_
  split
  · exact h.trans (s'.setInitPending_preserves folder true name _)
  · exact h

theorem setEnabled_preserves (h : s.agenda.Avoids folder) (on : Bool) :
    s.Preserves folder (s.setEnabled on).2 := by
  have hswitch : s.disk.Preserves (folder.child Schedule.fileName)
      (s.engine.policy.setEnabled on s.disk).2.2 := by
    unfold Policy.setEnabled
    split
    · exact .refl _ _
    · exact Store.replace_preserves s.disk _ h.policy
        ((isFinal_schedule folder).ne_preparing (schedule_ne_nil folder) _)
  have hswitched : s.Preserves folder (s.switched on) := hswitch
  refine setEnabled_elim ?refuses ?keeps ?allows ?forbids
  case refuses => exact .of_disk rfl
  case keeps => exact fun _ => hswitched
  case allows =>
    exact fun _ _ => hswitched.trans ((armJobs_within _).preserves (by decide))
  case forbids =>
    intro _ _ delay
    have hmarked := markAll_preserves s.engine.transports.names
      ((s.switched on).note .keyValueJobCanceled) folder
    exact (hswitched.trans (hmarked.after rfl)).trans
      ((postDelayed_within _ .wipes rfl delay).preserves (by decide))

/-- **A call preserves the schedule file**, unless it resets a transport that keeps its files beside
it. -/
theorem make_preserves (h : s.agenda.Avoids folder) {c : Call}
    (hapart : ∀ transport, c = .resetBackupState transport → s.KeepsApart folder transport) :
    s.Preserves folder (c.make s) := by
  cases c with
  | registerTransport t => exact s.registerTransport_preserves folder t
  | resetBackupState transport => exact resetBackupState_preserves h (hapart transport rfl)
  | setEnabled on => exact setEnabled_preserves h on
  | _ =>
    refine (s.make_within _).preserves ?_
    dsimp only [Call.footprint]
    decide

end Holdfast.System
