import Holdfast.Cli.Arguments
import Holdfast.Document.Printer
import Holdfast.Settings.Load
import Holdfast.Wire

/-!
# The validator of settings

A tool that loads settings and reports on them.

* `Cli.run` answers a command line with an `Outcome`: what is written to the two channels,
  and the exit code;
* `Cli.wanted` lists the files that an answer may depend on.

A failure is written to the error channel. The output also has records, which begin with an
escape character: a failure closes it with one, and a verbose run has one of the settings that
were loaded and, if more is asked for, of the file before it is read.
-/

namespace Holdfast.Cli

/-- What a run of the tool leaves behind. -/
structure Outcome where
  code : Nat
  output : String
  errors : String
  deriving DecidableEq, Repr

/-! ## Reports -/

/-- A text, filled up with blanks on the right. -/
def padRight (width : Nat) (s : String) : String :=
  s ++ String.ofList (List.replicate (width - s.length) ' ')

/-- A text, filled up with blanks on the left. -/
def padLeft (width : Nat) (s : String) : String :=
  String.ofList (List.replicate (width - s.length) ' ') ++ s

/-- The times of settings, with their names. -/
def timings (s : Settings) : List (String × Nat) :=
  [("key-value interval", s.keyValueInterval),
    ("key-value fuzz", s.keyValueFuzz),
    ("full backup interval", s.fullInterval),
    ("busy backoff min", s.busyMin),
    ("busy backoff fuzz", s.busyFuzz),
    ("agent bind timeout", s.bindTimeout),
    ("key-value agent timeout", s.keyValueTimeout),
    ("full backup agent timeout", s.fullTimeout),
    ("restore agent timeout", s.restoreTimeout),
    ("transport retry interval", s.transportRetry),
    ("initialization delay", s.initDelay),
    ("transport init delay", s.transportInitDelay)]

/-- Lines of text. -/
def lines (ls : List String) : String := String.join (ls.map (· ++ "\n"))

/-- The times of settings as a table. -/
def timingTable (s : Settings) : String :=
  lines (["", "⏱️ Timing"] ++ (timings s).map fun (name, ms) =>
    "  " ++ padRight 28 name ++ " " ++ padLeft 12 (toString ms) ++ " ms")

/-- Settings in the format that was asked for. -/
def settingsReport (o : Options) (s : Settings) : String :=
  if o.format = some "json" then lines [(Wire.settings s).pretty]
  else
    lines ["base_state_dir: " ++ s.baseStateDir,
      "confirmation_ui_package: " ++ s.confirmationUi] ++ timingTable s

/-! ## Actions -/

/-- The outcome of a run that succeeded. -/
def success (output : String) : Outcome := ⟨0, output, ""⟩

/-- The record of a failure. A message has no power over a terminal. -/
def record (message : String) : String :=
  lines ["\x1b[31mERROR\x1b[0m Configuration validation failed: " ++ Text.tamed message]

/-- A value with its name, in a record. The value is given as it is. -/
def recordField (name value : String) : String :=
  " \x1b[3m" ++ name ++ "\x1b[0m\x1b[2m=\x1b[0m" ++ value

/-- The record of settings that were loaded. -/
def loadedRecord (s : Settings) : String :=
  lines ["\x1b[32m INFO\x1b[0m ⚙️ Backup configuration loaded" ++
    recordField "base_state_dir" s.baseStateDir ++
    recordField "full_backup_interval_ms" (toString s.fullInterval) ++
    recordField "key_value_backup_interval_ms" (toString s.keyValueInterval)]

/-- The record of a file that is about to be read. -/
def readingRecord (path : String) : String :=
  lines ["\x1b[34mDEBUG\x1b[0m Loading backup configuration file" ++ recordField "path" path]

/-- Load the settings that a command line names; a fault comes with what was being done. -/
def load (around : Surroundings) (o : Options) : Except String Settings :=
  let failed (doing : String) (fault : SettingsFault) : String := doing ++ ": " ++ fault.message
  match o.config, o.noEnv with
  | some path, true => (Settings.loadFile around path).mapError (failed s!"loading {path}")
  | path, _ => (Settings.load around path).mapError (failed "loading configuration")

/-- What is recorded while settings are loaded. A file on its own is not read if it is not
there, and its settings have no record. -/
def loadRecords (around : Surroundings) (o : Options) : String :=
  let alone := o.config.isSome && o.noEnv
  let path := o.config <|> around.environment.lookup Settings.pathVariable
  let read := path.filter fun path => !alone || (around.file path).isSome
  let reading := if o.verbose < 2 then "" else String.join (read.toList.map readingRecord)
  match load around o with
  | .error _ => reading
  | .ok s => if o.verbose = 0 || alone then reading else reading ++ loadedRecord s

/-- The outcome of a run that failed after some output. -/
def failure (output message : String) : Outcome :=
  ⟨1, output ++ record message, lines ["❌ " ++ message]⟩

/-- Load and check settings. -/
def validate (around : Surroundings) (o : Options) : Outcome :=
  let file := o.config.toList.map fun path => "Config File: " ++ path
  let opening :=
    lines (["🔧 Validating Backup Configuration"] ++ file ++ [""]) ++ loadRecords around o
  match load around o with
  | .error message => failure opening message
  | .ok s =>
    success (opening ++ lines ["✅ Configuration loaded and validated"] ++
      timingTable s ++ lines ["", "🎉 All configuration validation checks passed!"])

/-- Do what well-formed options ask for. -/
def perform (around : Surroundings) (o : Options) : Outcome :=
  match o.action with
  | some .validate | none => validate around o
  | some .display =>
    match load around o with
    | .error message => failure (loadRecords around o) message
    | .ok s => success (loadRecords around o ++ settingsReport o s)
  | some .defaults => success (settingsReport o {})

/-! ## Help -/

/-- Name and version of the tool. -/
def versionLine : String := "backup-config-validator 0.1.0"

/-- What a command does, in a line. -/
def about : Action → String
  | .validate => "Load and validate the configuration"
  | .display => "Print the effective configuration"
  | .defaults => "Print the built-in defaults"

/-- What the command that asks for help does, in a line. -/
def aboutHelp : String := "Print this message or the help of the given subcommand(s)"

/-- Help on the tool or on a command. -/
def helpText : Topic → String
  | .command action =>
    lines [about action, "", "Usage: backup-config-validator " ++ action.name, "", "Options:",
      "  -h, --help  Print help"]
  | .help =>
    lines [aboutHelp, "", "Usage: backup-config-validator help [COMMAND]...", "", "Arguments:",
      "  [COMMAND]...  Print help for the subcommand(s)"]
  | .tool =>
    lines (["Validate backup engine configuration files", "",
      "Usage: backup-config-validator [OPTIONS] [COMMAND]", "", "Commands:"] ++
      Action.all.map (fun action => "  " ++ padRight 10 action.name ++ about action) ++
      ["  help      " ++ aboutHelp, "", "Options:",
        "  -c, --config <CONFIG>  Configuration file (TOML). Falls back to " ++
          "$BACKUP_CONFIG_PATH, then defaults",
        "      --no-env           Ignore BACKUP__* environment overrides",
        "  -v, --verbose...       Verbose output level (use multiple times for more verbosity)",
        "      --format <FORMAT>  Output format (table, json) [default: table]",
        "  -h, --help             Print help",
        "  -V, --version          Print version"])

/-- The outcome of a command line that runs nothing. -/
def stopped : Stop → Outcome
  | .help topic => success (helpText topic)
  | .version => success (lines [versionLine])
  | .usage =>
    ⟨2, "", lines ["error: unexpected argument", "",
      "Usage: backup-config-validator [OPTIONS] [COMMAND]", "",
      "For more information, try '--help'."]⟩

/-- Answer a command line. -/
def run (around : Surroundings) (args : List String) : Outcome :=
  match parse args with
  | .error stop => stopped stop
  | .ok o => perform around o

/-- The files that the answer to a command line may depend on. -/
def wanted (environment : List (String × String)) (args : List String) : List String :=
  match parse args with
  | .error _ => []
  | .ok o =>
    let path := o.config <|> environment.lookup Settings.pathVariable
    path.toList.flatMap Settings.candidates

end Holdfast.Cli
