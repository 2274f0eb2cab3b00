import Holdfast.Disk.Route
import Holdfast.Settings.Layer

/-!
# Loading settings

Where settings come from: a file that the caller or a variable names, and the environment.

* `Settings.ofToml` takes a text;
* `Settings.load` takes a file, if one is named, and the environment;
* `Settings.loadFile` takes a file alone.
-/

namespace Holdfast

/-- What settings are loaded from. -/
structure Surroundings where
  /-- The text of the file at a path, if there is one. -/
  file : String → Option String
  /-- The folder in which paths begin, as written. -/
  folder : String
  /-- The variables of the process, by name. -/
  environment : List (String × String)

namespace Settings

/-- The variable that names the file when the caller does not. -/
def pathVariable : String := "BACKUP_CONFIG_PATH"

/-- Wording of the refusal of a document that is no table. Dates and times count as texts. -/
def notTable (value : Toml.Value) : String :=
  let found := match value with
    | .scalar _ (.moment t) => (Toml.Scalar.text t.text).described
    | value => value.described
  "invalid type: " ++ found ++ ", expected a map"

/-- The layer of a text, which has to be a table; `suffix` follows the cause of a refusal. -/
def layerOf (source suffix text : String) : Except SettingsFault Layer :=
  match Toml.read text with
  | .ok (.table _ _ entries) => .ok (Layer.ofToml entries)
  | .ok value => .error (.load source (notTable value ++ suffix))
  | .error d => .error (.load source (d.report text ++ suffix))

/-- The settings of a text. -/
def ofToml (text : String) : Except SettingsFault Settings := do
  (← layerOf "inline" "" text).settings

/-- A path whose last name has the usual ending; slashes and points after the name go. -/
def withEnding? (path : String) : Option String :=
  match ((Path.splitSlash path.toList).map String.ofList).reverse.dropWhile Route.isIdle with
  | [] => none
  | name :: up =>
    if name = ".." then none else some ("/".intercalate ((name ++ ".toml") :: up).reverse)

/-- The places at which a file is looked for: the path, and the path with the usual
ending. -/
def candidates (path : String) : List String := path :: (withEnding? path).toList

/-- A path as seen from the folder in which paths begin. -/
def relativePath (folder path : String) : String :=
  let start := (Route.ofText folder).names
  let names := (Route.ofText (Path.joinText folder path)).names
  if start.isSuffixOf names then Path.text (names.take (names.length - start.length)) else path

/-- The layer of a file. -/
def layerOfFile (around : Surroundings) (path : String) : Except SettingsFault Layer :=
  match (candidates path).find? (fun p => (around.file p).isSome) with
  | none => .error (.load path s!"configuration file \"{path}\" not found")
  | some found =>
    layerOf path (" in " ++ relativePath around.folder found) ((around.file found).getD "")

/-- The settings of a file, if one is named by the caller or by a variable, with the
environment on top. -/
def load (around : Surroundings) (path : Option String) : Except SettingsFault Settings := do
  let path := path <|> around.environment.lookup pathVariable
  let file ← match path with
    | some path => layerOfFile around path
    | none => .ok []
  Layer.settings (file ++ Layer.ofEnvironment around.environment)

/-- The settings of a file alone. -/
def loadFile (around : Surroundings) (path : String) : Except SettingsFault Settings := do
  if (around.file path).isNone then .error (.load path "not a regular file")
  else (← layerOfFile around path).settings

end Settings

end Holdfast
