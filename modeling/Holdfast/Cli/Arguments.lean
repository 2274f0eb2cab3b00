/-!
# Arguments of the validator

The command line of the tool that checks settings: options, then at most one command.

* `Options` is what a well-formed command line asks for;
* `Stop` is why a command line asks for nothing to be run: help, the version, or a mistake;
* `parse` reads a command line.

A short option may share its dash with others; the value of an option is the rest of its
argument or the next argument. No option but the one for verbosity may be given twice. A value
in an argument of its own is judged late: if a command follows that asks for help, help is
given whatever the value is.
-/

namespace Holdfast.Cli

/-- What the tool does. -/
inductive Action where
  /-- Load the settings and check them. -/
  | validate
  /-- Print the settings in force. -/
  | display
  /-- Print the built-in settings. -/
  | defaults
  deriving DecidableEq, Repr

/-- Name of a command. -/
def Action.name : Action → String
  | .validate => "validate"
  | .display => "show"
  | .defaults => "defaults"

/-- Every command. -/
def Action.all : List Action := [.validate, .display, .defaults]

/-- The command of a name. -/
def Action.ofName? (s : String) : Option Action := Action.all.find? (·.name == s)

/-- What a command line asks for. -/
structure Options where
  config : Option String := none
  noEnv : Bool := false
  verbose : Nat := 0
  format : Option String := none
  action : Option Action := none
  deriving DecidableEq, Repr

/-- What help can be about. -/
inductive Topic where
  | tool
  | command (action : Action)
  /-- The command that asks for help. -/
  | help
  deriving DecidableEq, Repr

/-- Why nothing is run. -/
inductive Stop where
  /-- Help is asked for. -/
  | help (topic : Topic)
  | version
  /-- The command line is not well-formed. -/
  | usage
  deriving DecidableEq, Repr

/-- The options that have a value. -/
inductive Valued where
  | config
  | format
  deriving DecidableEq, Repr

/-- Set an option with a value. A path is not empty. -/
def Options.set (o : Options) (option : Valued) (value : String) : Except Stop Options :=
  match option with
  | .config =>
    if o.config.isSome || value = "" then .error .usage else .ok { o with config := some value }
  | .format => if o.format.isSome then .error .usage else .ok { o with format := some value }

/-- What one argument amounts to. -/
inductive Reading where
  /-- It is complete. -/
  | done (o : Options)
  /-- The next argument is the value of an option. -/
  | needs (o : Options) (option : Valued)

/-- Read the letters after a single dash. -/
def readLetters (o : Options) : List Char → Except Stop Reading
  | [] => .ok (.done o)
  | c :: rest =>
    if c = 'v' then readLetters { o with verbose := o.verbose + 1 } rest
    else if c = 'c' then
      match rest with
      | [] => .ok (.needs o .config)
      | '=' :: value => (o.set .config (String.ofList value)).map .done
      | value => (o.set .config (String.ofList value)).map .done
    else if c = 'h' then .error (.help .tool)
    else if c = 'V' then .error .version
    else .error .usage

/-- Read an option with a value, which may be attached. -/
def readValued (o : Options) (option : Valued) : Option String → Except Stop Reading
  | some value => (o.set option value).map .done
  | none => .ok (.needs o option)

/-- Read an option by its name, with what is attached to it by a sign of equality. -/
def readLong (o : Options) (name : String) (attached : Option String) : Except Stop Reading :=
  match name, attached with
  | "config", value => readValued o .config value
  | "format", value => readValued o .format value
  | "no-env", none => if o.noEnv then .error .usage else .ok (.done { o with noEnv := true })
  | "verbose", none => .ok (.done { o with verbose := o.verbose + 1 })
  | "help", none => .error (.help .tool)
  | "version", none => .error .version
  | _, _ => .error .usage

/-- Whether an argument is an option rather than a value. -/
def isOption (arg : String) : Bool :=
  match arg.toList with
  | '-' :: _ :: _ => true
  | _ => false

/-- Read an argument that is an option. -/
def readOption (o : Options) (arg : String) : Except Stop Reading :=
  match arg.toList with
  | '-' :: '-' :: name =>
    let attached := match name.dropWhile (· ≠ '=') with
      | '=' :: value => some (String.ofList value)
      | _ => none
    readLong o (String.ofList (name.takeWhile (· ≠ '='))) attached
  | '-' :: letters => readLetters o letters
  | _ => .error .usage

/-- Read the arguments after a command, of which only a request for help is allowed. -/
def parseAfter (o : Options) (action : Action) : List String → Except Stop Options
  | [] | ["--"] => .ok { o with action := some action }
  | arg :: _ =>
    if arg = "--help" ∨ ['-', 'h'].isPrefixOf arg.toList then .error (.help (.command action))
    else .error .usage

/-- The command line that asks for help by a command of its own. -/
def helpOn : List String → Stop
  | [] => .help .tool
  | ["help"] => .help .help
  | [topic] =>
    match Action.ofName? topic with
    | some action => .help (.command action)
    | none => .usage
  | _ => .usage

/-- Why nothing is run after a value that cannot be taken: a command that asks for help comes
first, anything else leaves the mistake. -/
def afterMistake : List String → Stop
  | [] => .usage
  | arg :: rest =>
    match Action.ofName? arg with
    | some action =>
      match parseAfter {} action rest with
      | .error stop => stop
      | .ok _ => .usage
    | none => if arg = "help" then helpOn rest else .usage

/-- Read a command line onto the options read before. -/
def parseOnto (o : Options) : List String → Except Stop Options
  | [] => .ok o
  | arg :: rest =>
    if arg = "--" then if rest.isEmpty then .ok o else .error .usage
    else if isOption arg then
      match readOption o arg with
      | .error stop => .error stop
      | .ok (.done o) => parseOnto o rest
      | .ok (.needs o option) =>
        match rest with
        | [] => .error .usage
        -- what looks like an option is never taken for a value
        | value :: rest =>
          if isOption value then .error .usage
          else match o.set option value with
            | .ok o => parseOnto o rest
            | .error _ => .error (afterMistake rest)
    else match Action.ofName? arg with
      | some action => parseAfter o action rest
      | none => if arg = "help" then .error (helpOn rest) else .error .usage

/-- Read a command line. -/
def parse (args : List String) : Except Stop Options := parseOnto {} args

end Holdfast.Cli
