import Holdfast.Proofs.Engine.Footprint
import Holdfast.Proofs.Engine.Roster
import Holdfast.Proofs.Engine.Wiping
import Holdfast.Proofs.Engine.Trail

/-!
# What the engine knows of the dataset it writes

Which dataset a package would be restored from depends on three things: the transport that is
selected, the token of the dataset that is being written, and the packages that were backed up. They
are the stock of the engine.

- `System.stock`: this extract of the state; `System.Within.stock`: whatever keeps away from its
  parts leaves it as it is;
- `News` and `Stock.hear`: what can change it, and how;
- one equation for each operation that does (`System.recordProcessed_stock`,
  `System.resetBackupState_stock`, `System.storeDataset_stock`);
- `System.news`: the news that a step of a task brings, and `System.stepTask_stock` that **this is
  all that a step does to the stock**.
-/

namespace Holdfast

/-- The extract of the state that says which dataset is offered for which packages. -/
structure Stock where
  /-- The transport that is selected. -/
  selected : Option String
  /-- The dataset that is being written, zero for none. -/
  current : UInt64
  /-- Packages that were backed up. -/
  packages : NameSet

/-- Something by which the stock changes, or nothing. -/
inductive News where
  | nothing
  /-- A transport is selected and is asked for its dataset. -/
  | selects (name : String)
  /-- A transport is selected that is not registered, so that nobody can be asked. -/
  | selectsUnknown (name : String)
  /-- A transport says which dataset it is writing, or that it cannot say. -/
  | discloses (transport : String) (token : UInt64)
  /-- A transport accepts the data of a package. -/
  | accepts (transport package : String)
  /-- A transport was wiped. -/
  | forgets
  deriving DecidableEq

/-- Whether news changes what is known of the dataset that is being written. -/
def News.isOfCurrent : News → Bool
  | .selectsUnknown _ | .discloses _ _ | .forgets => true
  | .nothing | .selects _ | .accepts _ _ => false

/-- The transport that news has selected. -/
def News.selected? : News → Option String
  | .selects name | .selectsUnknown name => some name
  | .nothing | .discloses _ _ | .accepts _ _ | .forgets => none

namespace Stock

/-- The parts of the state that the stock is read from. -/
def parts : Footprint := [.selected, .current, .processed]

/-- A package was backed up; the metadata is not counted. -/
def record (stock : Stock) (package : String) : Stock :=
  if package = metadataPackage then stock
  else { stock with packages := stock.packages.insert package }

/-- The stock after some news. -/
def hear (stock : Stock) : News → Stock
  | .nothing => stock
  | .selects name => { stock with selected := some name }
  | .selectsUnknown name => { stock with selected := some name, current := 0 }
  | .discloses _ token => { stock with current := token }
  | .accepts _ package => stock.record package
  | .forgets => { stock with current := 0, packages := .empty }

end Stock

namespace System

/-- The stock of the engine. -/
def stock (s : System) : Stock where
  selected := s.engine.transports.selected
  current := s.engine.datasets.current
  packages := s.engine.processed.packages

variable {s s' : System} {t : Task}

/-- What keeps away from its parts leaves the stock as it is. -/
theorem Within.stock {parts : Footprint} (h : s.Within parts s')
    (hparts : ∀ p ∈ Stock.parts, p ∉ parts) : s'.stock = s.stock := by
  have hselected : s'.engine.transports.selected = s.engine.transports.selected :=
    h.same .selected (hparts _ (by decide))
  have hcurrent : s'.engine.datasets.current = s.engine.datasets.current :=
    h.same .current (hparts _ (by decide))
  have hpackages : s'.engine.processed.packages = s.engine.processed.packages :=
    h.same .processed (hparts _ (by decide))
  simp only [System.stock, hselected, hcurrent, hpackages]

/-! ## Upkeep -/

/-- A package that was backed up is remembered in memory, whatever becomes of the file. -/
theorem recordProcessed_stock (s : System) (package : String) :
    (s.recordProcessed package).stock = s.stock.record package := by
  have hknown : s.engine.processed.has package = true →
      s.stock.packages.insert package = s.stock.packages := by
    intro hhas
    refine NameSet.ext fun name => ?_
    rw [NameSet.mem_insert, or_iff_right_of_imp]
    rintro rfl
    exact NameSet.contains_eq.1 hhas
  unfold recordProcessed Processed.add Stock.record
  by_cases hmetadata : package = metadataPackage
  · simp [hmetadata, stock, onEngine]
  · by_cases hhas : s.engine.processed.has package = true
    · rw [if_neg hmetadata, hknown hhas]
      simp [hhas, stock, onEngine]
    · simp [hmetadata, hhas, stock, onEngine]

theorem setCurrentDataset_stock (s : System) (token : UInt64) :
    (s.setCurrentDataset token).2.stock = { s.stock with current := token } := rfl

/-- A reset empties the stock, however far it gets. -/
theorem resetBackupState_stock (s : System) (transport : String) :
    (s.resetBackupState transport).2.stock = s.stock.hear .forgets := by
  unfold resetBackupState
  simp only
  split
  · rename_i heq
    exact congrArg (fun answer => answer.2.stock) heq.symm
  · rename_i s' heq
    have hreset : s'.stock = s.stock.hear .forgets :=
      congrArg (fun answer => answer.2.stock) heq.symm
    split
    · exact hreset
    · exact hreset

/-! ## Answers -/

instance (s : System) (t : Task) (c : TransportCall) : Decidable (s.Commits t c) :=
  inferInstanceAs (Decidable (_ ∧ _))

/-- The news that a pass brings that asked which dataset it wrote. It counts whatever has been
selected or forgotten since the question. -/
def datasetNews (s : System) (transport : String) : News :=
  match (s.device.station transport).restoreSet with
  | .ok token => if token = 0 then .nothing else .discloses transport token
  | .error _ => .nothing

/-- The news that a call of a pass brings when it is answered with success. The commit itself brings
none. -/
def passNews (transport : String) (call : TransportCall) : News :=
  match call.payload? with
  | some e => .accepts transport e.package
  | none => .nothing

/-- The news that the answer to a call brings. -/
def replyNews (s : System) (t : Task) (call : TransportCall) : News :=
  match t.job with
  | .keyValue _ _ _ _ _ | .full _ _ =>
    if call = .currentRestoreSet then s.datasetNews t.transport
    else if (s.device.answer t.transport call).1 = .ok .ok then passNews t.transport call
    else .nothing
  | .wipe _ _ _ => if s.Commits t call then .forgets else .nothing
  | .clearData _ | .restore _ _ => .nothing

/-- The news that a step of a task brings. -/
def news (s : System) (t : Task) : News :=
  match t.stage with
  | .calling call => s.replyNews t call
  | _ => .nothing

theorem storeDataset_stock (s : System) (transport : String) :
    (s.storeDataset transport).stock = s.stock.hear (s.datasetNews transport) := by
  unfold storeDataset datasetNews
  cases (s.device.station transport).restoreSet with
  | ok token =>
    simp only
    split <;> rfl
  | error fault => rfl

/-- What the answer to a key-value pass does to the stock. -/
theorem replyKeyValue_stock (s : System) (t : Task) (drained : Option Drained)
    (observer : Option String) (call : TransportCall) (reply : Device.Reply) :
    (s.replyKeyValue t drained observer call reply).stock =
      if reply = .ok .ok then s.stock.hear (passNews t.transport call) else s.stock := by
  have hdone : ∀ (s' : System) (t : Task) package status,
      (s'.packageDone t drained observer package status).stock = s'.stock :=
    fun s' t package status => (s'.packageDone_within t _ _ package status).stock (by decide)
  unfold replyKeyValue
  cases call with
  | performBackup package nonIncremental =>
    simp only [hdone]
    by_cases hreply : reply = .ok .ok
    · rw [if_pos (ofReply_eq_success.2 hreply), if_pos hreply]
      by_cases hmetadata : package = metadataPackage
      · rw [if_pos hmetadata, (s.writeMetadata_within _).stock (by decide)]
        simp [passNews, TransportCall.payload?, Stock.hear, Stock.record, hmetadata]
      · rw [if_neg hmetadata, recordProcessed_stock]
        rfl
    · rw [if_neg fun h => hreply (ofReply_eq_success.1 h), if_neg hreply]
  | performFullBackup package =>
    simp only [hdone]
    by_cases hreply : reply = .ok .ok
    · rw [if_pos (ofReply_eq_success.2 hreply), if_pos hreply,
        (enqueueFull_within _ _ _).stock (by decide), recordProcessed_stock]
      rfl
    · rw [if_neg fun h => hreply (ofReply_eq_success.1 h), if_neg hreply]
  | currentRestoreSet | restoreSets | initializeDevice | finishBackup | clearBackupData _
  | startRestore _ _ | finishRestore =>
    -- a commit is accepted or not, and what was backed up stays known either way
    have hcommit : ∀ next : System, next.stock = s.stock → next.stock =
        if reply = .ok .ok then s.stock.hear .nothing else s.stock :=
      fun next h => h.trans (ite_self _).symm
    simp only
    split
    · exact hcommit _ ((s.call_within _ _).stock (by decide))
    · exact hcommit _ ((s.endKeyValue_within _ _ _).stock (by decide))

/-- What the answer to a scheduled full backup does to the stock. -/
theorem replyFull_stock (s : System) (t : Task) {p : Package} (lastBackup : Int)
    {call : TransportCall} (hcall : (Stage.calling call).IsFull p)
    (hplain : call ≠ .currentRestoreSet) (reply : Device.Reply) :
    (s.replyFull t p.name lastBackup call reply).stock =
      if reply = .ok .ok then s.stock.hear (passNews t.transport call) else s.stock := by
  have hends : ∀ (t : Task) status, (s.endFull t p.name lastBackup status).stock = s.stock :=
    fun t status => (s.endFull_within t _ _ status).stock (by decide)
  unfold replyFull
  cases hcall with
  | offering =>
    by_cases hreply : reply = .ok .ok
    · simp only
      rw [if_pos (ofReply_eq_success.2 hreply), if_pos hreply,
        (call_within _ _ _).stock (by decide), recordProcessed_stock]
      rfl
    · simp only
      rw [if_neg fun h => hreply (ofReply_eq_success.1 h), if_neg hreply, hends]
  | committing =>
    -- the commit itself is no news
    simp only
    split
    · exact ((s.call_within _ _).stock (by decide)).trans (ite_self _).symm
    · exact (hends _ _).trans (ite_self _).symm
  | asking => exact absurd rfl hplain

/-- What the answer to a wipe does to the stock: one that was committed is a reset. -/
theorem initDone_stock (s : System) (t : Task) (rest : List String) (observer : Option String)
    (overall : Status) (reply : Device.Reply) :
    (s.initDone t rest observer overall reply).stock =
      if reply = .ok .ok then s.stock.hear .forgets else s.stock := by
  have hgoesOn : ∀ (s' : System) result overall,
      (((s'.tellResult observer t.transport result).dispose t.lease).moveTo
        { t with job := .wipe rest observer overall, lease := none } .choosing).stock = s'.stock :=
    fun s' result overall => (((s'.tellResult_within _ _ _).andThen (dispose_within _ _)).andThen
      (moveTo_within _ _ _)).stock (by decide)
  unfold initDone
  by_cases hreply : reply = .ok .ok
  · simp only [if_pos hreply, if_pos (commitStatus_eq_success.2 hreply), hgoesOn]
    split
    · rw [(setInitPending_within _ _ _ _).stock (by decide), resetBackupState_stock]
    · rw [resetBackupState_stock]
  · have hfailed : commitStatus reply ≠ .success := fun h => hreply (commitStatus_eq_success.1 h)
    simp only [if_neg hreply, if_neg hfailed, hgoesOn]
    exact (s.retryInit_within _).stock (by decide)

/-! ## Steps -/

/-- What the answer to a call does to the stock. -/
theorem takeReply_stock (s : System) {call : TransportCall} (hstage : t.stage = .calling call)
    (hplain : call = .currentRestoreSet → t.job.isPass = false)
    (hcourse : ∀ p lastBackup, t.job = .full p lastBackup → t.stage.IsFull p) :
    (s.takeReply t call).stock = s.stock.hear (s.replyNews t call) := by
  -- the answer uses up a line of the script and nothing else
  have hstock : (s.answered t call).stock = s.stock := rfl
  have hpass : t.job.isPass = true → ∀ next : System, next.stock =
      (if (s.device.answer t.transport call).1 = .ok .ok then
        (s.answered t call).stock.hear (passNews t.transport call)
      else (s.answered t call).stock) → next.stock =
        s.stock.hear (if call = .currentRestoreSet then s.datasetNews t.transport
          else if (s.device.answer t.transport call).1 = .ok .ok then passNews t.transport call
          else .nothing) := by
    intro hjob next hnext
    have hother : call ≠ .currentRestoreSet := fun hask => by simp [hplain hask] at hjob
    rw [hnext, hstock, if_neg hother]
    split <;> rfl
  refine takeReply_elim ?keyValue ?full ?wipeGoesOn ?wiped ?clearGoesOn ?cleared ?restoreGoesOn
    ?restoreFails ?restored
  case keyValue =>
    intro drained keyValue full observer nonIncremental hjob
    simp only [replyNews, hjob]
    exact hpass (by rw [hjob]; rfl) _ (replyKeyValue_stock _ t drained observer call _)
  case full =>
    intro p lastBackup hjob
    have hcall : (Stage.calling call).IsFull p := hstage ▸ hcourse p lastBackup hjob
    simp only [replyNews, hjob]
    have hother : call ≠ .currentRestoreSet := by
      intro hask
      have hnone := hplain hask
      rw [hjob] at hnone
      cases hnone
    exact hpass (by rw [hjob]; rfl) _ (replyFull_stock _ t lastBackup hcall hother _)
  case wipeGoesOn =>
    intro rest observer overall hjob hfirst
    have hearly : ¬ s.Commits t call := fun h => h.1 hfirst
    simp only [replyNews, hjob]
    rw [if_neg hearly]
    rfl
  case wiped =>
    intro rest observer overall hjob hlast
    have hcommits : s.Commits t call ↔ (s.device.answer t.transport call).1 = .ok .ok :=
      ⟨fun h => h.2, fun h => ⟨fun hfirst =>
        hlast hfirst (commitStatus_eq_success.2 h), h⟩⟩
    simp only [replyNews, hjob, hcommits]
    rw [initDone_stock, hstock]
    split <;> rfl
  case clearGoesOn =>
    intro package hjob
    simp only [replyNews, hjob]
    rfl
  case cleared =>
    intro package hjob
    simp only [replyNews, hjob]
    exact (endPlain_within _ t).stock (by decide)
  case restoreGoesOn =>
    intro order rest hjob
    simp only [replyNews, hjob]
    rfl
  case restoreFails =>
    intro order rest token packages hjob _ _
    simp only [replyNews, hjob]
    exact (endRestore_within _ t order false).stock (by decide)
  case restored =>
    intro order rest hjob _
    simp only [replyNews, hjob]
    exact (endRestore_within _ t order true).stock (by decide)

/-- What the answer does to the stock that says which dataset a pass wrote. -/
theorem takeDataset_stock (s : System) (hstage : t.stage = .calling .currentRestoreSet)
    (hcourse : ∀ p lastBackup, t.job = .full p lastBackup → t.stage.IsFull p) :
    (s.takeDataset t).stock = s.stock.hear (s.replyNews t .currentRestoreSet) := by
  unfold takeDataset
  cases hjob : t.job with
  | keyValue =>
    simp only [replyNews, hjob, if_true]
    rw [(endKeyValue_within _ _ _ _).stock (by decide), storeDataset_stock]
  | full =>
    simp only [replyNews, hjob, if_true]
    rw [(endFull_within _ _ _ _ _).stock (by decide), storeDataset_stock]
  | wipe | clearData | restore =>
    exact s.takeReply_stock hstage (fun _ => by rw [hjob]; rfl) hcourse

/-- **What a step of a task does to the stock.** -/
theorem stepTask_stock (s : System)
    (hcourse : ∀ p lastBackup, t.job = .full p lastBackup → t.stage.IsFull p) :
    (s.stepTask t).stock = s.stock.hear (s.news t) := by
  unfold news
  refine stepTask_elim ?opening ?choosing ?queued ?binding ?prepared ?starting ?working ?asking
    ?calling ?closing ?leaving ?fallen
  -- short of the answers of transports, a step keeps away from the stock
  case opening => exact fun hstage => hstage ▸ (s.openTask_within t).stock (by decide)
  case choosing => exact fun hstage => hstage ▸ (s.choose_within t).stock (by decide)
  case queued =>
    exact fun v ticket hstage => hstage ▸ (s.askHost_within t v ticket).stock (by decide)
  case binding => exact fun v _ hstage => hstage ▸ (s.meetAgent_within t v).stock (by decide)
  case prepared =>
    exact fun v token hstage => hstage ▸ (s.heedCancel_within t v token).stock (by decide)
  case starting =>
    exact fun v token hstage => hstage ▸ (s.giveWork_within t v token).stock (by decide)
  case working =>
    exact fun v token hstage => hstage ▸ (s.collectWork_within t v token).stock (by decide)
  case asking =>
    intro hstage
    rw [s.takeDataset_stock hstage hcourse, hstage]
  case calling =>
    intro call hstage hplain
    rw [s.takeReply_stock hstage (fun hask => absurd hask hplain) hcourse, hstage]
  case closing =>
    exact fun status hstage => hstage ▸ (s.closeTask_within t status).stock (by decide)
  case leaving => exact fun hstage => hstage ▸ (s.leave_within t).stock (by decide)
  case fallen => exact fun hstage => hstage ▸ rfl

end System

end Holdfast
