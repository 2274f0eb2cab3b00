import Holdfast.Engine.Calls

/-!
# Restores

Restores are asked for through a session, of which at most one is open, or by the installer
for a package that was just installed.

* `System.restoreToken` is the dataset from which a package would be restored;
* `System.beginSession` opens a session;
* `System.availableSets`, `System.restorePackage`, `System.restoreAll` and
  `System.endSession` use one through its `Session` handle;
* `System.restoreAtInstall` is the installer's call.
-/

namespace Holdfast

/-- The handle of a restore session. -/
structure Session where
  number : Nat
  /-- The one package that the session may restore, if it is limited to one. -/
  package : Option String
  transport : String
  deriving DecidableEq, Repr

namespace System

/-- The dataset from which a package would be restored, zero for none: the current one if it
holds the package, else the ancestral one unless that is known not to. -/
def restoreToken (s : System) (package : String) : UInt64 :=
  let known := s.engine.datasets
  if known.current ≠ 0 ∧ s.engine.processed.has package then known.current
  else match known.packages with
    | none => known.ancestral
    | some packages => if package ∈ packages then known.ancestral else 0

/-- Whether a caller needs privilege to open a session: not for its own package on the
selected transport. -/
def needsPrivilege (s : System) (caller : Caller) (package : Option Package)
    (transport : String) : Bool :=
  match package with
  | some p => !(p.uid == caller.uid && s.engine.transports.selected == some transport)
  | none => true

/-- Open a session on a transport, for one package or for all. The tests and the opening are one
step. The call makes them without waiting for anything and without calling anybody in between, so
that only what others do at the same time can fall between them, such as the start of a pass. That
neither looks at the session nor changes what the opening looks at: it might as well come after
it. -/
def openSession (s : System) (caller : Caller) (package : Option Package) (transport : String) :
    Except Fault (Option Session) × System :=
  if s.needsPrivilege caller package transport && !caller.privileged then
    (.error (.denied (.openSession caller.uid)), s)
  else if s.isBackupRunning || s.engine.ops.isBackupInProgress then (.ok none, s)
  else if s.engine.session.isSome then (.ok none, s)
  else
    let (number, s) := s.freshNumber
    let s := s.onEngine fun e => { e with session := some ⟨number, none⟩ }
    (.ok (some ⟨number, package.map (·.name), transport⟩), s.armSession number)

/-- Open a restore session, or `none` while another one is open or a backup runs. -/
def beginSession (s : System) (caller : Caller) (package transport : Option String) :
    Except Fault (Option Session) × System :=
  match transport <|> s.engine.transports.selected with
  | none => (.error .noTransportSelected, s)
  | some transport =>
    match package with
    | none => s.openSession caller none transport
    | some package =>
      match s.device.package? package with
      | none => (.error (.unknownPackage package), s)
      | some p => s.openSession caller (some p) transport

/-- Lease the transport of a session. -/
def leaseFor (s : System) (session : Session) : Except Fault Lease × System :=
  match s.engine.transports.lease session.transport "restore-session" with
  | (some lease, transports) => (.ok lease, s.onEngine fun e => { e with transports })
  | (none, _) => (.error (.unknownTransport session.transport), s)

/-- The fault of a session that has ended. -/
def ended (session : Session) : Fault := .sessionEnded (toString session.number)

/-- Ask the transport of a session for its datasets, under a lease for as long as that
takes. -/
def beginSets (s : System) (session : Session) : Except Fault Lease × System :=
  if !s.isSession session.number then (.error (ended session), s)
  else match s.leaseFor session with
    | (.error e, s) => (.error e, s)
    | (.ok lease, s) => (.ok lease, s.note (.transport session.transport .restoreSets))

/-- The transport of a session answered which datasets it offers. -/
def endSets (s : System) (session : Session) (lease : Lease) :
    Except Fault (List RestoreSet) × System :=
  let sets := (s.device.station session.transport).restoreSets
  let s := (s.dispose (some lease)).armSession session.number
  match sets with
  | .ok sets => (.ok sets, s)
  | .error fault => (.error (.transport fault), s)

/-- The datasets that the transport of a session offers. -/
def availableSets (s : System) (session : Session) : Except Fault (List RestoreSet) × System :=
  match s.beginSets session with
  | (.error e, s) => (.error e, s)
  | (.ok lease, s) => s.endSets session lease

/-- Hand a restore of a session to the control loop. -/
def submit (s : System) (session : Session) (token : UInt64) (packages : List String)
    (recordAncestral : Bool) : Except Fault Unit × System :=
  match s.leaseFor session with
  | (.error e, s) => (.error e, s)
  | (.ok lease, s) =>
    s.send (.startRestore ⟨lease, token, packages, none, recordAncestral, some session.number⟩)

/-- Restore a package that the session may restore from the dataset that holds it. -/
def restoreKnown (s : System) (session : Session) (package : String) :
    Except Fault Unit × System :=
  let token := s.restoreToken package
  if token = 0 then (.error (.noDataset package), s)
  else s.submit session token [package] false

/-- Restore one package through a session. -/
def restorePackage (s : System) (session : Session) (package : String) :
    Except Fault Unit × System :=
  if !s.isSession session.number then (.error (ended session), s)
  else match session.package with
    | some limit =>
      if limit = package then s.restoreKnown session package
      else (.error (.denied (.otherPackage limit)), s)
    | none => s.restoreKnown session package

/-- Every eligible package, after the metadata. -/
def everyPackage (s : System) : List String :=
  metadataPackage ::
    sortBy (fun a b => decide (a ≤ b)) ((s.device.catalog.filter (·.isEligible)).map (·.name))

/-- Restore packages from a dataset, which becomes the ancestral one. No packages stand for
all of them. -/
def restoreAll (s : System) (session : Session) (token : UInt64) (packages : List String) :
    Except Fault Unit × System :=
  if !s.isSession session.number then (.error (ended session), s)
  else if session.package.isSome then (.error (.denied .wholeDataset), s)
  else
    s.submit session token (if packages.isEmpty then s.everyPackage else packages) true

/-- Close a session. -/
def endSession (s : System) (session : Session) : System := s.closeSession session.number

/-- The lease for a restore at install, unless that is skipped. -/
def leaseAtInstall (s : System) (token : UInt64) : Option Lease × System :=
  if token = 0 ∨ !s.engine.policy.autoRestore ∨ !s.engine.policy.provisioned then (none, s)
  else
    let (lease, transports) := s.engine.transports.leaseCurrent "restore-at-install"
    (lease, s.onEngine fun e => { e with transports })

/-- Restore the data of a package that was just installed. The installer is always told
whether a restore was launched. -/
def restoreAtInstall (s : System) (caller : Caller) (package : String) (installToken : Int) :
    Except Fault Unit × System :=
  if !caller.privileged then (.error (.denied .restoreAtInstall), s)
  else
    let token := s.restoreToken package
    match s.leaseAtInstall token with
    | (none, s) => (.ok (), s.note (.installed installToken false))
    | (some lease, s) =>
      match s.send
          (.startRestore ⟨lease, token, [package], some installToken, false, none⟩) with
      -- the installer is told when the restore has ended
      | (.ok (), s) => (.ok (), s)
      | (.error e, s) => (.error e, s.note (.installed installToken false))

end System

end Holdfast
