import Holdfast.Transport.Registry

/-!
# The policy gate

The switches of the device that every pass consults: whether backup is enabled, whether the
device is set up, battery saver, automatic restore, and a transport that an administrator
may prescribe. Only the enable switch survives a restart.

* `Policy.load` reads the enable switch, everything else starts from its default;
* `Policy.setEnabled` flips the switch, unless a prescribed transport forbids it;
* `Policy.check` says whether a backup may run.
-/

namespace Holdfast

/-- The switches of the device. -/
structure Policy where
  /-- The file of the enable switch. -/
  file : Path
  enabled : Bool := false
  provisioned : Bool := false
  autoRestore : Bool := true
  batterySaver : Bool := false
  /-- Component of the transport that an administrator prescribes. -/
  mandatory : Option String := none
  deriving Repr

namespace Policy

/-- Name of the file of the enable switch inside the state folder. -/
def fileName : String := "backup_enabled"

/-- The policy of a state folder. The switch is on when its file begins with the octet 1. -/
def load (folder : Path) (d : Disk) : Policy :=
  let file := folder.child fileName
  let enabled := match Store.read d file with
    | .ok (some (first :: _)) => first == 1
    | .ok (some []) | .ok none | .error _ => false
  { file, enabled }

/-- Flip the enable switch; its earlier position. The file may fail to be written. -/
def setEnabled (p : Policy) (on : Bool) (d : Disk) : Except Rejection Bool × Policy × Disk :=
  match on, p.mandatory with
  | false, some required => (.error (.mandatoryTransport required), p, d)
  | _, _ =>
    let (_, d) := Store.replace d p.file (.ok [if on then 1 else 0])
    (.ok p.enabled, { p with enabled := on }, d)

/-- Whether a backup may run, and if not why. -/
def check (p : Policy) : Except Rejection Unit :=
  if !p.enabled then .error .disabled
  else if !p.provisioned then .error .notProvisioned
  else .ok ()

/-- Whether a backup may run. -/
def allows (p : Policy) : Bool := p.enabled && p.provisioned

/-- Whether a transport may be selected: any when none is prescribed, else only the one
registered for the prescribed component. -/
def isTransportAllowed (p : Policy) (name : String) (transports : TransportRegistry) : Bool :=
  match p.mandatory with
  | none => true
  | some component => transports.nameOfComponent? component == some name

end Policy

end Holdfast
