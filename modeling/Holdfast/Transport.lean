import Holdfast.Fault

/-!
# Transports

A transport is a remote store for backup data.

* `TransportStatus` is what a call that moves data answers;
* `TransportDescription` is who a transport is;
* `RestoreSet` is a dataset that a transport offers;
* `Lease` is the right to use a transport, to be given back exactly once.
-/

namespace Holdfast

/-- What a transport answers to a call that moves data. -/
inductive TransportStatus where
  | ok
  | error
  /-- The transport wants to be wiped first. -/
  | notInitialized
  | packageRejected
  | quotaExceeded
  deriving DecidableEq, Repr

namespace TransportStatus

/-- Spelling of a status. -/
def name : TransportStatus → String
  | .ok => "ok"
  | .error => "error"
  | .notInitialized => "not_initialized"
  | .packageRejected => "package_rejected"
  | .quotaExceeded => "quota_exceeded"

/-- Every status. -/
def all : List TransportStatus :=
  [.ok, .error, .notInitialized, .packageRejected, .quotaExceeded]

/-- The status of a given spelling. -/
def ofName? (s : String) : Option TransportStatus := all.find? (·.name == s)

/-- Whether the call succeeded. -/
def isOk : TransportStatus → Bool
  | .ok => true
  | .error | .notInitialized | .packageRejected | .quotaExceeded => false

end TransportStatus

/-- A dataset that a transport offers for restore. -/
structure RestoreSet where
  name : String
  device : String
  token : UInt64
  deriving DecidableEq, Repr

/-- Who a transport is. -/
structure TransportDescription where
  /-- The name by which it is selected. -/
  name : String
  /-- The component that hosts it, written `package/class`. -/
  component : String
  /-- Name of its own folder inside the state folder. -/
  folderName : String
  deriving DecidableEq, Repr

/-- The package that hosts the transport: its component up to the first slash. -/
def TransportDescription.hostPackage (t : TransportDescription) : String :=
  String.ofList (t.component.toList.takeWhile (· ≠ '/'))

/-- The right to use a transport. -/
structure Lease where
  number : Nat
  transport : String
  /-- Who asked for it. -/
  caller : String
  deriving DecidableEq, Repr

end Holdfast
