import Holdfast.Document
import Holdfast.Engine.Start

/-!
# Exchange forms

How the values of the engine are written as documents and read back. Reading is strict:
names are spelled exactly, numbers are integers in the range of their field, and every field
that cannot be absent is there. Unknown fields are ignored.

Each type has a function that writes it; the function that reads it back has the same name
with a question mark.
-/

namespace Holdfast.Wire

/-- Largest value of an unsigned 32-bit word. -/
def maxU32 : Nat := 4294967295

/-- Read a name by a table of spellings, written as a text or as an object whose only field
has that name and no content. -/
def name? {α : Type} (ofName? : String → Option α) : Document → Option α
  | .text s => ofName? s
  | .object [(s, .null)] => ofName? s
  | _ => none

/-- Read a signed 64-bit word. -/
def int64? : Document → Option Int := Document.int? minI64 maxI64

/-- Read an unsigned 64-bit word. -/
def nat64? : Document → Option Nat := Document.nat? maxU64

/-- Read a dataset token. -/
def token? (d : Document) : Option UInt64 := (nat64? d).map UInt64.ofNat

/-- A dataset token as a document. -/
def token (t : UInt64) : Document := .nat t.toNat

/-! ## Names -/

/-- A status. -/
def status? : Document → Option Status := name? Status.ofName?

/-- A transport's status. -/
def transportStatus? : Document → Option TransportStatus := name? TransportStatus.ofName?

/-- The state of a pass. -/
def passState? : Document → Option Pass.State := name? Pass.State.ofName?

/-- The kind of a pass. -/
def passKind? : Document → Option Pass.Kind := name? Pass.Kind.ofName?

/-- The state of an operation. -/
def opState? : Document → Option OpState := name? OpState.ofName?

/-- The kind of an operation. -/
def opKind? : Document → Option OpKind := name? OpKind.ofName?

/-- The mode of an agent. -/
def agentMode? : Document → Option AgentMode := name? AgentMode.ofName?

/-- The token of an operation. -/
def opToken? (d : Document) : Option OpToken :=
  (Document.nat? maxU32 d).map fun n => ⟨UInt32.ofNat n⟩

/-! ## Rejections -/

/-- The rejection of a given spelling, for those without content. -/
def plainRejection? : String → Option Rejection
  | "disabled" => some .disabled
  | "not_provisioned" => some .notProvisioned
  | "battery_saver" => some .batterySaver
  | "not_privileged" => some .notPrivileged
  | _ => none

/-- A rejection as a document. -/
def rejection : Rejection → Document
  | .disabled => .text "disabled"
  | .notProvisioned => .text "not_provisioned"
  | .batterySaver => .text "battery_saver"
  | .notPrivileged => .text "not_privileged"
  | .mandatoryTransport required =>
    .object [("mandatory_transport", .object [("required", .text required)])]

/-- Read a rejection. -/
def rejection? : Document → Option Rejection
  | .object [("mandatory_transport", content)] => do
    let get ← content.slots ["required"]
    let required ← Document.required Document.text? (get "required")
    return .mandatoryTransport required
  | d => name? plainRejection? d

/-! ## Events of a pass -/

/-- An event of a pass: its type and, where it has one, its reason or transport. -/
def passEvent : Pass.Event → Document
  | .reject reason => .object [("type", .text "Reject"), ("data", .text reason)]
  | .bindTransport name => .object [("type", .text "BindTransport"), ("data", .text name)]
  | .dispatch => .object [("type", .text "Dispatch")]
  | .complete => .object [("type", .text "Complete")]
  | .fail reason => .object [("type", .text "Fail"), ("data", .text reason)]
  | .cancel => .object [("type", .text "Cancel")]
  | .timeout => .object [("type", .text "Timeout")]

/-- Read an event of a given type and content. An event without content allows a null. -/
def passEventOf? (type : String) (data : Option Document) : Option Pass.Event :=
  let text := Document.required Document.text? data
  let plain (event : Pass.Event) : Option Pass.Event :=
    match data with
    | none | some .null => some event
    | some _ => none
  match type with
  | "Reject" => text.map .reject
  | "BindTransport" => text.map .bindTransport
  | "Dispatch" => plain .dispatch
  | "Complete" => plain .complete
  | "Fail" => text.map .fail
  | "Cancel" => plain .cancel
  | "Timeout" => plain .timeout
  | _ => none

/-- Read an event of a pass: an object, or the list of its type and its content. -/
def passEvent? : Document → Option Pass.Event
  | .object fields => do
    let type ← Document.required (name? some) (fields.lookup "type")
    passEventOf? type (fields.lookup "data")
  | .list [type, data] => do passEventOf? (← type.text?) (some data)
  | _ => none

/-! ## Records -/

/-- A dataset on offer. -/
def restoreSet (r : RestoreSet) : Document :=
  .object [("name", .text r.name), ("device", .text r.device), ("token", token r.token)]

/-- Read a dataset on offer. -/
def restoreSet? (d : Document) : Option RestoreSet := do
  let get ← d.slots ["name", "device", "token"]
  return {
    name := ← Document.required Document.text? (get "name")
    device := ← Document.required Document.text? (get "device")
    token := ← Document.required token? (get "token") }

/-- A description of a transport. -/
def description (t : TransportDescription) : Document :=
  .object [("name", .text t.name), ("component", .text t.component),
    ("dir_name", .text t.folderName)]

/-- Read a description of a transport. -/
def description? (d : Document) : Option TransportDescription := do
  let get ← d.slots ["name", "component", "dir_name"]
  return {
    name := ← Document.required Document.text? (get "name")
    component := ← Document.required Document.text? (get "component")
    folderName := ← Document.required Document.text? (get "dir_name") }

/-- A registered transport. -/
def transportState (t : TransportState) : Document :=
  .object [("name", .text t.name), ("component", .text t.component),
    ("selected", .bool t.selected), ("state_dir", .text t.folder),
    ("pending_init", .bool t.pendingInit)]

/-- Read a registered transport. -/
def transportState? (d : Document) : Option TransportState := do
  let get ← d.slots ["name", "component", "selected", "state_dir", "pending_init"]
  return {
    name := ← Document.required Document.text? (get "name")
    component := ← Document.required Document.text? (get "component")
    selected := ← Document.required Document.bool? (get "selected")
    folder := ← Document.required Document.text? (get "state_dir")
    pendingInit := ← Document.required Document.bool? (get "pending_init") }

/-- An entry of the schedule. -/
def scheduleEntry (e : ScheduleEntry) : Document :=
  .object [("package_name", .text e.package), ("last_backup", .int e.lastBackup),
    ("due_at", .int e.dueAt)]

/-- Read an entry of the schedule. -/
def scheduleEntry? (d : Document) : Option ScheduleEntry := do
  let get ← d.slots ["package_name", "last_backup", "due_at"]
  return {
    package := ← Document.required Document.text? (get "package_name")
    lastBackup := ← Document.required int64? (get "last_backup")
    dueAt := ← Document.required int64? (get "due_at") }

/-- The name of a package that waits for a backup. -/
def pendingPackage (name : String) : Document := .object [("package_name", .text name)]

/-- Read the name of a package that waits for a backup. -/
def pendingPackage? (d : Document) : Option String := do
  let get ← d.slots ["package_name"]
  Document.required Document.text? (get "package_name")

/-- A caller. -/
def caller (c : Caller) : Document :=
  .object [("uid", .nat c.uid), ("privileged", .bool c.privileged)]

/-- Read a caller. -/
def caller? (d : Document) : Option Caller := do
  let get ← d.slots ["uid", "privileged"]
  return {
    uid := ← Document.required (Document.nat? maxU32) (get "uid")
    privileged := ← Document.required Document.bool? (get "privileged") }

/-- An installed package. -/
def package (p : Package) : Document :=
  .object [("package_name", .text p.name), ("uid", .nat p.uid),
    ("allows_backup", .bool p.allowsBackup), ("has_backup_agent", .bool p.hasAgent),
    ("full_backup_only", .bool p.fullOnly), ("backup_in_foreground", .bool p.inForeground)]

/-- Read an installed package. -/
def package? (d : Document) : Option Package := do
  let get ← d.slots ["package_name", "uid", "allows_backup", "has_backup_agent",
    "full_backup_only", "backup_in_foreground"]
  return {
    name := ← Document.required Document.text? (get "package_name")
    uid := ← Document.required (Document.nat? maxU32) (get "uid")
    allowsBackup := ← Document.required Document.bool? (get "allows_backup")
    hasAgent := ← Document.required Document.bool? (get "has_backup_agent")
    fullOnly := ← Document.required Document.bool? (get "full_backup_only")
    inForeground := ← Document.required Document.bool? (get "backup_in_foreground") }

/-- What a full-backup job did. -/
def fullOutcome : FullOutcome → Document
  | .dispatched package => .object [("outcome", .text "dispatched"), ("package", .text package)]
  | .noWork => .object [("outcome", .text "no_work")]
  | .rescheduled delay => .object [("outcome", .text "rescheduled"), ("delay_ms", .nat delay)]
  | .alreadyRunning => .object [("outcome", .text "already_running")]

/-- Read what a full-backup job did, given its outcome and its other fields. -/
def fullOutcomeOf? (outcome : String) (content : Document) : Option FullOutcome :=
  -- an outcome without fields is not a list of any
  let plain (outcome : FullOutcome) : Option FullOutcome :=
    match content with
    | .list (_ :: _) => none
    | _ => some outcome
  match outcome with
  | "dispatched" => do
    let get ← content.slots ["package"]
    return .dispatched (← Document.required Document.text? (get "package"))
  | "no_work" => plain .noWork
  | "rescheduled" => do
    let get ← content.slots ["delay_ms"]
    return .rescheduled (← Document.required nat64? (get "delay_ms"))
  | "already_running" => plain .alreadyRunning
  | _ => none

/-- Read what a full-backup job did. -/
def fullOutcome? : Document → Option FullOutcome
  | .object fields => do
    let outcome ← Document.required Document.text? (fields.lookup "outcome")
    fullOutcomeOf? outcome (.object fields)
  | .list (outcome :: content) => do fullOutcomeOf? (← outcome.text?) (.list content)
  | _ => none

/-- The engine's bookkeeping. -/
def snapshot (s : Snapshot) : Document :=
  .object [("pending_packages", .texts s.pendingPackages),
    ("full_backup_queue", .list (s.fullQueue.map scheduleEntry)),
    ("running_full_backup", .opt .text s.runningFull),
    ("backup_running", .bool s.backupRunning),
    ("queued_requests", .nat s.queuedRequests),
    ("operations", .nat s.operations),
    ("current_transport", .opt .text s.currentTransport),
    ("outstanding_leases", .nat s.outstandingLeases),
    ("restore_session_active", .bool s.sessionActive),
    ("restore_in_progress", .bool s.restoreInProgress),
    ("ancestral_token", token s.ancestralToken),
    ("current_token", token s.currentToken)]

/-- The names of the fields of the bookkeeping. -/
def snapshotFields : List String :=
  ["pending_packages", "full_backup_queue", "running_full_backup", "backup_running",
    "queued_requests", "operations", "current_transport", "outstanding_leases",
    "restore_session_active", "restore_in_progress", "ancestral_token", "current_token"]

/-- Read the entries of a schedule. -/
def schedule? : Document → Option (List ScheduleEntry)
  | .list items => items.mapM scheduleEntry?
  | _ => none

/-- Read the engine's bookkeeping. -/
def snapshot? (d : Document) : Option Snapshot := do
  let get ← d.slots snapshotFields
  return {
    pendingPackages := ← Document.required Document.texts? (get "pending_packages")
    fullQueue := ← Document.required schedule? (get "full_backup_queue")
    runningFull := ← Document.optional Document.text? (get "running_full_backup")
    backupRunning := ← Document.required Document.bool? (get "backup_running")
    queuedRequests := ← Document.required nat64? (get "queued_requests")
    operations := ← Document.required nat64? (get "operations")
    currentTransport := ← Document.optional Document.text? (get "current_transport")
    outstandingLeases := ← Document.required nat64? (get "outstanding_leases")
    sessionActive := ← Document.required Document.bool? (get "restore_session_active")
    restoreInProgress := ← Document.required Document.bool? (get "restore_in_progress")
    ancestralToken := ← Document.required token? (get "ancestral_token")
    currentToken := ← Document.required token? (get "current_token") }

/-! ## Faults -/

/-- A fault: its group and its wording. A failed file operation has no wording of its own. -/
def fault (f : Fault) : Document :=
  .object ([("error", .text f.kind.name)] ++
    (if f = .io then [] else [("message", .text f.message)]) ++
    (if f.isCorruption then [("corruption", .bool true)] else []))

/-! ## Notices -/

/-- What an agent is told. -/
def agentNotice : AgentNotice → Document
  | .bind mode => .texts ["bind", mode.name]
  | .backup nonIncremental => .list [.text "backup", .bool nonIncremental]
  | .fullBackup => .texts ["full_backup"]
  | .restore t => .list [.text "restore", token t]
  | .unbind => .texts ["unbind"]
  | .kill => .texts ["kill"]

/-- What a call hands to a transport. -/
def callContent : TransportCall → List Document
  | .performBackup package nonIncremental => [.text package, .bool nonIncremental]
  | .performFullBackup package | .clearBackupData package => [.text package]
  | .startRestore t packages => [token t, .texts packages]
  | .currentRestoreSet | .restoreSets | .initializeDevice | .finishBackup | .finishRestore => []

/-- A notice: the sort of collaborator, which one of them, and what it was told. -/
def notice : Device.Notice → String × String × Document
  | .agent package told => ("agents", package, agentNotice told)
  | .clearPending => ("agents", "*", .texts ["clear_pending"])
  | .transport name call =>
    ("transports", name, .list (.text call.method.name :: callContent call))
  | .keyValueJob delay => ("jobs", "key_value", .nat delay)
  | .keyValueJobCanceled => ("jobs", "key_value", .text "cancel")
  | .fullJob delay => ("jobs", "full", .nat delay)
  | .result observer package status => ("observers", observer, .texts [package, status.name])
  | .finished observer status => ("observers", observer, .texts ["finished", status.name])
  | .installed t launched => ("installer", "finished", .list [.int t, .bool launched])

/-- Add an item to the list that is a field of an object. -/
def addItem (key : String) (item : Document) (fields : List (String × Document)) :
    List (String × Document) :=
  let items := match fields.lookup key with
    | some (.list items) => items
    | _ => []
  (key, .list (items ++ [item])) :: fields.filter (fun field => field.1 ≠ key)

/-- Notices, grouped by collaborator. -/
def grouped (notices : List (String × String × Document)) : Document :=
  .object (notices.foldl (fun sorts told =>
    let fields := match sorts.lookup told.1 with
      | some (.object fields) => fields
      | _ => []
    (told.1, .object (addItem told.2.1 told.2.2 fields)) ::
      sorts.filter (fun field => field.1 ≠ told.1)) [])

/-! ## Scripts -/

/-- A transport's reply, by its spelling. -/
def reply? (d : Document) : Option Device.Reply :=
  match d with
  | .text "disconnected" => some (.error (.disconnected "gone"))
  | .text "remote" => some (.error (.remote "boom"))
  | d => (transportStatus? d).map .ok

/-- A reply that is a value or, by its spelling, a fault. -/
def valueReply? {α : Type} (read : Document → Option α) (d : Document) :
    Option (Except TransportFault α) :=
  match reply? d with
  | some (.error e) => some (.error e)
  | _ => (read d).map .ok

/-- Read several datasets on offer. -/
def restoreSets? : Document → Option (List RestoreSet)
  | .list items => items.mapM restoreSet?
  | _ => none

/-- Change the usual reply to a method, or what a transport has on offer. -/
def setUsual (s : Device.Station) (key : String) (d : Document) : Device.Station :=
  match key with
  | "restore_set" => { s with restoreSet := (valueReply? token? d).getD s.restoreSet }
  | "restore_sets" => { s with restoreSets := (valueReply? restoreSets? d).getD s.restoreSets }
  | key =>
    match TransportMethod.ofName? key, reply? d with
    | some method, some r => { s with usual := Device.setKey method r s.usual }
    | _, _ => s

/-- Change the replies to a method that are used first. -/
def setOnce (s : Device.Station) (key : String) (d : Document) : Device.Station :=
  match TransportMethod.ofName? key, d with
  | some method, .list items =>
    { s with once := Device.setKey method (items.filterMap reply?) s.once }
  | _, _ => s

/-- Change the reply to calls for a package. -/
def setPackage (s : Device.Station) (key : String) (d : Document) : Device.Station :=
  match reply? d with
  | some r => { s with packages := Device.setKey key r s.packages }
  | none => s

/-- The methods that a field lists; other names in it are ignored. -/
def methods (d : Document) (field : String) : List TransportMethod :=
  match d.field? field with
  | some (.list items) => items.filterMap (name? TransportMethod.ofName?)
  | _ => []

/-- The entries of a field that is an object. -/
def entriesOf (d : Document) (field : String) : List (String × Document) :=
  match d.field? field with
  | some (.object fields) => fields
  | _ => []

/-- Change the script of a transport: the usual replies, those to use first, those to single
packages, and the methods whose calls do not come back. Questions for datasets always do. -/
def script (s : Device.Station) (d : Document) : Device.Station :=
  let s := (entriesOf d "set").foldl (fun s e => setUsual s e.1 e.2) s
  let s := (entriesOf d "once").foldl (fun s e => setOnce s e.1 e.2) s
  let s := (entriesOf d "packages").foldl (fun s e => setPackage s e.1 e.2) s
  let lasting (method : TransportMethod) : Bool :=
    method != .currentRestoreSet && method != .restoreSets
  { s with held := s.held ++ (methods d "hold").filter lasting }

/-! ## Settings -/

/-- Settings as a document. -/
def settings (s : Settings) : Document :=
  .object [("base_state_dir", .text s.baseStateDir),
    ("key_value_backup_interval_ms", .nat s.keyValueInterval),
    ("key_value_backup_fuzz_ms", .nat s.keyValueFuzz),
    ("full_backup_interval_ms", .nat s.fullInterval),
    ("busy_backoff_min_ms", .nat s.busyMin),
    ("busy_backoff_fuzz_ms", .nat s.busyFuzz),
    ("agent_bind_timeout_ms", .nat s.bindTimeout),
    ("key_value_agent_timeout_ms", .nat s.keyValueTimeout),
    ("full_backup_agent_timeout_ms", .nat s.fullTimeout),
    ("restore_agent_timeout_ms", .nat s.restoreTimeout),
    ("transport_retry_interval_ms", .nat s.transportRetry),
    ("initialization_delay_ms", .nat s.initDelay),
    ("transport_init_delay_ms", .nat s.transportInitDelay),
    ("confirmation_ui_package", .text s.confirmationUi)]

/-- The names of the fields of settings. -/
def settingsFields : List String :=
  ["base_state_dir", "key_value_backup_interval_ms", "key_value_backup_fuzz_ms",
    "full_backup_interval_ms", "busy_backoff_min_ms", "busy_backoff_fuzz_ms",
    "agent_bind_timeout_ms", "key_value_agent_timeout_ms", "full_backup_agent_timeout_ms",
    "restore_agent_timeout_ms", "transport_retry_interval_ms", "initialization_delay_ms",
    "transport_init_delay_ms", "confirmation_ui_package"]

/-- Read a field that keeps its value when it is missing. -/
def overriding {α : Type} (read : Document → Option α) (value : α) : Option Document → Option α
  | some d => read d
  | none => some value

/-- The fields of settings: an object, or a list of the first fields in order. -/
def settingsSlots : Document → Option (String → Option Document)
  | .object fields => some fun name => fields.lookup name
  | .list items =>
    if items.length ≤ settingsFields.length then
      some fun name => (settingsFields.zip items).lookup name
    else none
  | _ => none

/-- Read settings over given ones, which keep their values where a field is missing. -/
def settingsOver? (s : Settings) (d : Document) : Option Settings := do
  let get ← settingsSlots d
  s.override? (fun name value => overriding Document.text? value (get name))
    (fun name value => overriding nat64? value (get name))

/-- Read settings over the defaults. -/
def settings? (d : Document) : Option Settings := settingsOver? {} d

end Holdfast.Wire
