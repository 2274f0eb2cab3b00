import Holdfast.Bytes

/-!
# Operations

An operation is a piece of work whose end is reported later under a token: an agent working
on a backup or a restore, or a whole pass that can be canceled.

* `OpToken` names an operation; `TokenSource` issues tokens of which any 256 in a row differ;
* `OpState` and `OpKind` describe an operation;
* `OperationTable` (in `Holdfast.Operation.Table`) keeps the operations in flight.
-/

namespace Holdfast

/-- The name of an operation. -/
structure OpToken where
  value : UInt32
  deriving DecidableEq, Repr

namespace OpToken

/-- A token in writing: eight hexadecimal digits. -/
def text (t : OpToken) : String := String.ofList (hexDigits 8 t.value.toNat)

end OpToken

/-- Where tokens come from. -/
structure TokenSource where
  /-- How many tokens were issued, modulo the word size. -/
  counter : UInt32 := 0
  deriving Repr

namespace TokenSource

/-- Issue a token. Its low octet counts the tokens, the bits above come from `noise`, and
the top bit is clear. -/
def next (s : TokenSource) (noise : UInt32) : OpToken × TokenSource :=
  (⟨(noise &&& 0x7fffff00) ||| (s.counter &&& 0xff)⟩, ⟨s.counter + 1⟩)

/-- Issue a token for each of several noise words. -/
def issue (s : TokenSource) : List UInt32 → List OpToken
  | [] => []
  | noise :: rest =>
    let (token, s) := s.next noise
    token :: s.issue rest

end TokenSource

/-- How far an operation has come. -/
inductive OpState where
  /-- Waiting for a result, a cancel or the deadline. -/
  | pending
  /-- A result arrived in time. -/
  | acknowledged
  /-- Canceled by a caller or by the deadline. -/
  | timeout
  deriving DecidableEq, Repr

/-- A new operation is pending. -/
instance : Inhabited OpState := ⟨.pending⟩

/-- Spelling of a state. -/
def OpState.name : OpState → String
  | .pending => "pending"
  | .acknowledged => "acknowledged"
  | .timeout => "timeout"

/-- Every state. -/
def OpState.all : List OpState := [.pending, .acknowledged, .timeout]

/-- The state of a given spelling. -/
def OpState.ofName? (s : String) : Option OpState := OpState.all.find? (·.name == s)

/-- Whether the outcome is decided. -/
def OpState.isTerminal : OpState → Bool
  | .pending => false
  | .acknowledged | .timeout => true

/-- What an operation stands for. -/
inductive OpKind where
  /-- An agent is producing backup data. -/
  | backupWait
  /-- An agent is consuming restore data. -/
  | restoreWait
  /-- A whole backup pass, listed so that it can be canceled. -/
  | backupTask
  deriving DecidableEq, Repr

/-- Spelling of a kind. -/
def OpKind.name : OpKind → String
  | .backupWait => "backup_wait"
  | .restoreWait => "restore_wait"
  | .backupTask => "backup_task"

/-- Every kind. -/
def OpKind.all : List OpKind := [.backupWait, .restoreWait, .backupTask]

/-- The kind of a given spelling. -/
def OpKind.ofName? (s : String) : Option OpKind := OpKind.all.find? (·.name == s)

/-- Whether an operation of this kind is waited for and has a deadline. -/
def OpKind.isWaitable : OpKind → Bool
  | .backupWait | .restoreWait => true
  | .backupTask => false

end Holdfast
