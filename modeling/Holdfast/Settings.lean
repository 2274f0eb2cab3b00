import Holdfast.Disk.Route
import Holdfast.Fault
import Holdfast.Text.Blank

/-!
# Settings

The timings of the engine and the folder of its state. All times are milliseconds.

* `Settings` has the built-in defaults as its default values;
* `Settings.validate` says whether the engine can run with them, and if not, which rule is
  broken first.
-/

namespace Holdfast

/-- A minute, in milliseconds. -/
def minuteMs : Nat := 60000

/-- An hour, in milliseconds. -/
def hourMs : Nat := 60 * minuteMs

/-- How the engine is set up. -/
structure Settings where
  /-- The folder of all state, as written. -/
  baseStateDir : String := "backup-state"
  keyValueInterval : Nat := 4 * hourMs
  /-- Random spread added to the key-value interval. -/
  keyValueFuzz : Nat := 10 * minuteMs
  fullInterval : Nat := 24 * hourMs
  /-- Least delay after a cancel and for a package that is busy. -/
  busyMin : Nat := hourMs
  /-- Random spread added to the least delay. -/
  busyFuzz : Nat := 2 * hourMs
  bindTimeout : Nat := 10000
  keyValueTimeout : Nat := 30000
  fullTimeout : Nat := 5 * minuteMs
  /-- Also how long an idle restore session stays open. -/
  restoreTimeout : Nat := minuteMs
  /-- Delay before work that found its transport missing is tried again. -/
  transportRetry : Nat := hourMs
  /-- Delay before transports are wiped after backup was switched off. -/
  initDelay : Nat := 3000
  /-- Delay before a transport that registers with a mark is wiped. -/
  transportInitDelay : Nat := minuteMs
  /-- The package of the confirmation dialog, whose process is never killed. -/
  confirmationUi : String := "com.android.backupconfirm"
  deriving DecidableEq, Repr

namespace Settings

instance : Inhabited Settings := ⟨{}⟩

/-- The settings with each field passed through a function that is given the name and the
value of the field. -/
def override? (s : Settings) (text? : String → String → Option String)
    (time? : String → Nat → Option Nat) : Option Settings := do
  return {
    baseStateDir := ← text? "base_state_dir" s.baseStateDir
    keyValueInterval := ← time? "key_value_backup_interval_ms" s.keyValueInterval
    keyValueFuzz := ← time? "key_value_backup_fuzz_ms" s.keyValueFuzz
    fullInterval := ← time? "full_backup_interval_ms" s.fullInterval
    busyMin := ← time? "busy_backoff_min_ms" s.busyMin
    busyFuzz := ← time? "busy_backoff_fuzz_ms" s.busyFuzz
    bindTimeout := ← time? "agent_bind_timeout_ms" s.bindTimeout
    keyValueTimeout := ← time? "key_value_agent_timeout_ms" s.keyValueTimeout
    fullTimeout := ← time? "full_backup_agent_timeout_ms" s.fullTimeout
    restoreTimeout := ← time? "restore_agent_timeout_ms" s.restoreTimeout
    transportRetry := ← time? "transport_retry_interval_ms" s.transportRetry
    initDelay := ← time? "initialization_delay_ms" s.initDelay
    transportInitDelay := ← time? "transport_init_delay_ms" s.transportInitDelay
    confirmationUi := ← text? "confirmation_ui_package" s.confirmationUi }

/-- The times that may not be zero, with the names of their fields, in the order in which
they are checked. -/
def positiveTimes (s : Settings) : List (String × Nat) :=
  [("key_value_backup_interval_ms", s.keyValueInterval),
    ("full_backup_interval_ms", s.fullInterval),
    ("busy_backoff_min_ms", s.busyMin),
    ("agent_bind_timeout_ms", s.bindTimeout),
    ("key_value_agent_timeout_ms", s.keyValueTimeout),
    ("full_backup_agent_timeout_ms", s.fullTimeout),
    ("restore_agent_timeout_ms", s.restoreTimeout),
    ("transport_retry_interval_ms", s.transportRetry)]

/-- The longest full-backup interval, so that due times stay in range. -/
def maxFullInterval : Nat := 4611686018427387903

/-- Whether the engine can run with these settings, and if not, the first broken rule. -/
def validate (s : Settings) : Except SettingsFault Unit :=
  if s.baseStateDir = "" then .error (.missing "base_state_dir")
  else match s.positiveTimes.find? (·.2 == 0) with
    | some (field, _) => .error (.invalid field "0" "must be greater than zero")
    | none =>
      if s.fullInterval > maxFullInterval then
        .error (.invalid "full_backup_interval_ms" (toString s.fullInterval)
          "interval is out of range")
      else if Text.allBlank s.confirmationUi then .error (.missing "confirmation_ui_package")
      else .ok ()

/-- The journal folder, as written. -/
def journalDir (s : Settings) : String := Path.joinText s.baseStateDir "pending"

/-- The state folder. -/
def folder (s : Settings) : Path := (Route.ofText s.baseStateDir).place

/-- The times that callers ask for most: binding, the three sorts of agents, and retries. -/
def timeouts (s : Settings) : List Nat :=
  [s.bindTimeout, s.keyValueTimeout, s.fullTimeout, s.restoreTimeout, s.transportRetry]

end Settings

end Holdfast
