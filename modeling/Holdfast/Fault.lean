import Holdfast.Pass
import Holdfast.Utf8

/-!
# Faults

Everything that can go wrong, as causes. The wording of a cause is given once, by the
`message` function of its type; `Fault.kind` groups the causes as callers see them.

* `RecordDefect`: what is wrong with a stored record;
* `Rejection`: why the policy gate turns a request away;
* `TransportFault`: a transport call that did not come back with a status;
* `Denial`: what a caller is not permitted to do;
* `SettingsFault`: what is wrong with a configuration;
* `Fault`: any of these, and the faults of the engine itself.
-/

namespace Holdfast

/-- The parts of a record that can be cut short. -/
inductive RecordPart where
  | int32
  | int64
  | textLength
  | textBody
  deriving DecidableEq, Repr

/-- Name of a part in messages. -/
def RecordPart.name : RecordPart → String
  | .int32 => "i32"
  | .int64 => "i64"
  | .textLength => "string length"
  | .textBody => "string body"

/-- What is wrong with a stored record. -/
inductive RecordDefect where
  /-- A part needs more octets than are left. -/
  | truncated (part : RecordPart) (need left : Nat)
  /-- A text is not well-formed UTF-8. -/
  | badText (defect : Utf8.Defect)
  /-- The record is of another version than the one understood. -/
  | version (found : Int)
  /-- A list announces a negative length. -/
  | negativeCount (found : Int)
  deriving DecidableEq, Repr

/-- Wording of a defect. -/
def RecordDefect.message : RecordDefect → String
  | .truncated part need left => s!"truncated {part.name}: need {need} bytes, have {left}"
  | .badText defect => s!"invalid utf-8: {defect.message}"
  | .version found => s!"unsupported version {found}"
  | .negativeCount found => s!"negative count {found}"

/-- Why the policy gate turns a request away. -/
inductive Rejection where
  | disabled
  | notProvisioned
  | batterySaver
  | notPrivileged
  /-- A transport prescribed by an administrator forbids the change. -/
  | mandatoryTransport (required : String)
  deriving DecidableEq, Repr

/-- Wording of a rejection. -/
def Rejection.message : Rejection → String
  | .disabled => "backup is disabled"
  | .notProvisioned => "device setup has not completed"
  | .batterySaver => "battery saver is on"
  | .notPrivileged => "caller lacks the backup capability"
  | .mandatoryTransport required => s!"mandatory transport {required} is in force"

/-- A transport call that came back without a status. -/
inductive TransportFault where
  | disconnected (reason : String)
  | remote (reason : String)
  deriving DecidableEq, Repr

/-- Wording of a transport fault. -/
def TransportFault.message : TransportFault → String
  | .disconnected reason => s!"Transport disconnected: {reason}"
  | .remote reason => s!"Transport call failed: {reason}"

/-- What a caller is not permitted to do. -/
inductive Denial where
  | clearData (uid : Nat) (package : String)
  | openSession (uid : Nat)
  /-- A session for one package was asked to restore another one. -/
  | otherPackage (limitedTo : String)
  /-- A session for one package was asked to restore everything. -/
  | wholeDataset
  | restoreAtInstall
  | reportConnection
  | reportDisconnection
  deriving DecidableEq, Repr

/-- Wording of a denial. -/
def Denial.message : Denial → String
  | .clearData uid package => s!"uid {uid} may not clear data of {package}"
  | .openSession uid => s!"uid {uid} may not open this restore session"
  | .otherPackage limitedTo => s!"session is limited to {limitedTo}"
  | .wholeDataset => "single-package session cannot restore everything"
  | .restoreAtInstall => "restore at install requires the backup capability"
  | .reportConnection => "only the system may report agent connections"
  | .reportDisconnection => "only the system may report agent disconnections"

/-- What is wrong with a configuration. -/
inductive SettingsFault where
  /-- A source cannot be read or is not well-formed. -/
  | load (source detail : String)
  /-- A value is not of the type of its field. -/
  | typeMismatch
  /-- A field that may not be empty is empty. -/
  | missing (field : String)
  /-- A value is out of its field's range. -/
  | invalid (field value : String) (rule : String)
  deriving DecidableEq, Repr

/-- Spelling of the sort of a configuration fault. -/
def SettingsFault.name : SettingsFault → String
  | .load _ _ => "LoadError"
  | .typeMismatch => "TypeMismatch"
  | .missing _ => "MissingRequiredField"
  | .invalid _ _ _ => "InvalidValue"

/-- Wording of a configuration fault. -/
def SettingsFault.message : SettingsFault → String
  | .load source detail => s!"Failed to load configuration from '{source}': {detail}"
  | .typeMismatch => "Type mismatch in configuration"
  | .missing field =>
    s!"Missing required configuration field '{field}' in backup configuration"
  | .invalid field value rule => s!"Invalid value '{value}' for field '{field}': {rule}"

/-- Anything that can go wrong. -/
inductive Fault where
  /-- A text is too long for the length field of a record. -/
  | textTooLong (size : Nat)
  /-- A list is too long for the count field of a record. -/
  | tooMany (what : String)
  /-- A file operation failed. -/
  | io
  /-- A stored record cannot be read. -/
  | corrupt (file : String) (defect : RecordDefect)
  | unknownTransport (name : String)
  | noTransportSelected
  | transport (fault : TransportFault)
  | rejected (rejection : Rejection)
  | denied (denial : Denial)
  | unknownPackage (name : String)
  /-- A pass in this state does not take this event. -/
  | illegalEvent (event : Pass.Event) (state : Pass.State)
  /-- A restore session was used after it ended. -/
  | sessionEnded (session : String)
  /-- The control loop has stopped. -/
  | loopStopped
  /-- The engine behind a restore session is gone. -/
  | engineGone
  /-- No dataset holds the package. -/
  | noDataset (package : String)
  | settings (fault : SettingsFault)
  deriving DecidableEq, Repr

/-- Groups of faults as callers see them. -/
inductive FaultKind where
  | persistence
  | io
  | corruptRecord
  | transportNotRegistered
  | transport
  | policyRejected
  | permissionDenied
  | packageNotFound
  | stateTransition
  | orchestration
  | configuration
  deriving DecidableEq, Repr

/-- Spelling of a group. -/
def FaultKind.name : FaultKind → String
  | .persistence => "Persistence"
  | .io => "Io"
  | .corruptRecord => "CorruptRecord"
  | .transportNotRegistered => "TransportNotRegistered"
  | .transport => "Transport"
  | .policyRejected => "PolicyRejected"
  | .permissionDenied => "PermissionDenied"
  | .packageNotFound => "PackageNotFound"
  | .stateTransition => "StateTransitionError"
  | .orchestration => "OrchestrationError"
  | .configuration => "ConfigurationError"

namespace Fault

/-- The group of a fault. -/
def kind : Fault → FaultKind
  | .textTooLong _ | .tooMany _ => .persistence
  | .io => .io
  | .corrupt _ _ => .corruptRecord
  | .unknownTransport _ | .noTransportSelected => .transportNotRegistered
  | .transport _ => .transport
  | .rejected _ => .policyRejected
  | .denied _ => .permissionDenied
  | .unknownPackage _ => .packageNotFound
  | .illegalEvent _ _ | .sessionEnded _ => .stateTransition
  | .loopStopped | .engineGone | .noDataset _ => .orchestration
  | .settings _ => .configuration

/-- Whether a stored record should be treated as absent because of the fault. -/
def isCorruption : Fault → Bool
  | .corrupt _ _ => true
  | _ => false

/-- Wording of a fault. -/
def message : Fault → String
  | .textTooLong size => s!"Persistence error: string of {size} bytes does not fit a record"
  | .tooMany what => s!"Persistence error: {what}"
  | .io => "I/O error"
  | .corrupt file defect => s!"Corrupt record in {file}: {defect.message}"
  | .unknownTransport name => s!"Transport not registered: {name}"
  | .noTransportSelected => "Transport not registered: no transport selected"
  | .transport fault => s!"Transport error: {fault.message}"
  | .rejected rejection => s!"Backup not allowed: {rejection.message}"
  | .denied denial => s!"Permission denied: {denial.message}"
  | .unknownPackage name => s!"Package not found: {name}"
  | .illegalEvent event state =>
    s!"State transition error: cannot apply {event.name} to pass in state {state.name}"
  | .sessionEnded session => s!"State transition error: restore session {session} has ended"
  | .loopStopped => "Orchestration error: control loop is not running"
  | .engineGone => "Orchestration error: orchestrator has shut down"
  | .noDataset package => s!"Orchestration error: no restore set available for {package}"
  | .settings fault => s!"Configuration error: {fault.message}"

end Fault

end Holdfast
