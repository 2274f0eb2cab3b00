import Holdfast.Bytes

/-!
# Packages and callers

* `Package` is what the engine knows about an installed package; `Package.getsFullBackup`
  and `Package.isParticipant` say how it is backed up;
* `Caller` is whoever calls into the engine;
* `Status` is what an observer of a backup is told;
* `AgentMode` says what a package's agent is brought up for.
-/

namespace Holdfast

/-- Pseudo-package under which the list of installed packages is backed up. It is always
backed up as key-value data and never counts as processed. -/
def metadataPackage : String := "@pm@"

/-- The identity of the system itself. -/
def systemUid : Nat := 1000

/-- The first identity of an ordinary application. Processes below it are never killed. -/
def firstApplicationUid : Nat := 10000

/-- Whoever calls into the engine. -/
structure Caller where
  uid : Nat
  /-- Holds the backup capability and may act on every package. -/
  privileged : Bool
  deriving DecidableEq, Repr

namespace Caller

/-- The system itself. -/
def system : Caller := ⟨systemUid, true⟩

/-- An ordinary application. -/
def app (uid : Nat) : Caller := ⟨uid, false⟩

/-- Whether the caller has the system's identity. -/
def isSystem (c : Caller) : Bool := c.uid == systemUid

end Caller

/-- What the engine knows about an installed package. -/
structure Package where
  name : String
  uid : Nat
  /-- The package opted in to backup at all. -/
  allowsBackup : Bool := true
  /-- The package brings its own key-value backup agent. -/
  hasAgent : Bool := false
  /-- The package wants its full data backed up even though it has an agent. -/
  fullOnly : Bool := false
  /-- Full backup may run while the package is in the foreground. -/
  inForeground : Bool := false
  deriving DecidableEq, Repr

namespace Package

/-- Whether the package is backed up in some way. -/
def isEligible (p : Package) : Bool := p.allowsBackup

/-- Whether the full data of the package is backed up. -/
def getsFullBackup (p : Package) : Bool := p.isEligible && (!p.hasAgent || p.fullOnly)

/-- Whether the package is backed up by its own key-value agent. -/
def isParticipant (p : Package) : Bool := p.isEligible && p.hasAgent && !p.fullOnly

end Package

/-- What an agent is brought up for. -/
inductive AgentMode where
  | incremental
  | full
  | restore
  deriving DecidableEq, Repr

/-- Spelling of a mode. -/
def AgentMode.name : AgentMode → String
  | .incremental => "incremental"
  | .full => "full"
  | .restore => "restore"

/-- Every mode. -/
def AgentMode.all : List AgentMode := [.incremental, .full, .restore]

/-- The mode of a given spelling. -/
def AgentMode.ofName? (s : String) : Option AgentMode := AgentMode.all.find? (·.name == s)

/-- What an observer of a backup is told about a package or about the whole pass. -/
inductive Status where
  | success
  | notAllowed
  | transportAborted
  | noPackages
  | packageNotFound
  | packageNotEligible
  | agentFailure
  | packageRejected
  | quotaExceeded
  | cancelled
  deriving DecidableEq, Repr

/-- Spelling of a status. -/
def Status.name : Status → String
  | .success => "success"
  | .notAllowed => "not_allowed"
  | .transportAborted => "transport_aborted"
  | .noPackages => "no_packages"
  | .packageNotFound => "package_not_found"
  | .packageNotEligible => "package_not_eligible"
  | .agentFailure => "agent_failure"
  | .packageRejected => "transport_package_rejected"
  | .quotaExceeded => "quota_exceeded"
  | .cancelled => "cancelled"

/-- Every status. -/
def Status.all : List Status :=
  [.success, .notAllowed, .transportAborted, .noPackages, .packageNotFound,
    .packageNotEligible, .agentFailure, .packageRejected, .quotaExceeded, .cancelled]

/-- The status of a given spelling. -/
def Status.ofName? (s : String) : Option Status := Status.all.find? (·.name == s)

end Holdfast
