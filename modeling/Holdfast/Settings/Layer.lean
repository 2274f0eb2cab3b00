import Holdfast.Decimal.Shortest
import Holdfast.Settings
import Holdfast.Toml.Reader

/-!
# Layers of settings

Settings are given in layers: a file, and the environment on top of it. A layer lists values
by the names of their fields, in small letters; what it says about other names is ignored.

* `Given` is a value as it is written, `Given.toTime?` and `Given.toText?` convert it to the
  sort of its field;
* `Layer.ofToml` and `Layer.ofEnvironment` are the two sorts of layers;
* `Layer.settings` are the settings that layers describe.
-/

namespace Holdfast

/-- A value as it is written. -/
inductive Given where
  | text (value : String)
  | int (value : Int)
  | real (value : Binary64)
  | bool (value : Bool)
  /-- A table without entries, which gives way to any other value. -/
  | emptyTable
  /-- A list or any other table, which is the value of no field. -/
  | compound
  deriving DecidableEq, Repr

namespace Given

/-- A value of a file. Dates and times count as texts. -/
def ofToml : Toml.Value → Given
  | .scalar _ (.text s) => .text s
  | .scalar _ (.int i) => .int i
  | .scalar _ (.real x) => .real x
  | .scalar _ (.bool b) => .bool b
  | .scalar _ (.moment t) => .text t.text
  | .table _ _ [] => .emptyTable
  | .list _ _ | .table _ _ _ | .tables _ _ => .compound

/-- A value of the environment, as which it makes sense first: a truth value, an integer, a
number, a text. -/
def ofVariable (s : String) : Given :=
  let word := s.toLower
  if word = "true" then .bool true
  else if word = "false" then .bool false
  else
    let integer := (decimalInt? s.toList).filter fun i => minI64 ≤ i && i ≤ maxI64
    match integer, Binary64.ofText? s with
    | some i, _ => .int i
    | none, some x => .real x
    | none, none => .text s

/-- Words that stand for one. -/
def wordsForOne : List String := ["true", "on", "yes"]

/-- Words that stand for zero. -/
def wordsForZero : List String := ["false", "off", "no"]

/-- The time that a text stands for: a word, or digits with a plus sign allowed. -/
def timeOfText? (s : String) : Option Nat :=
  if wordsForOne.contains s.toLower then some 1
  else if wordsForZero.contains s.toLower then some 0
  else
    let digits := match s.toList with
      | '+' :: rest => rest
      | cs => cs
    if isDecimal digits && decimalNat digits ≤ maxU64 then some (decimalNat digits) else none

/-- A value as a time. -/
def toTime? : Given → Option Nat
  | .text s => timeOfText? s
  | .int i => if 0 ≤ i then some i.toNat else none
  | .real x => some x.toWord
  | .bool b => some (if b then 1 else 0)
  | .emptyTable | .compound => none

/-- A value as a text. -/
def toText? : Given → Option String
  | .text s => some s
  | .int i => some (toString i)
  | .real x => some x.text
  | .bool b => some (if b then "true" else "false")
  | .emptyTable | .compound => none

end Given

/-- Values by the names of their fields. -/
abbrev Layer := List (String × Given)

namespace Layer

/-- The small letter of a character. Of the characters outside ASCII only the Kelvin sign has
an ASCII letter as its small letter, so all others may stay as they are: no name of a field
has them. -/
def smallLetter (c : Char) : Char := if c = '\u212a' then 'k' else c.toLower

/-- Whether a character may stand in a name. -/
def isNameChar (c : Char) : Bool := Toml.isKeyChar c || c = ' '

/-- Whether a text is the number of an item: an integer without a plus sign, with blanks around
it. -/
def isIndex (cs : List Char) : Bool :=
  let inner := (Toml.skipBlanks (Toml.skipBlanks cs).reverse).reverse
  inner.head? != some '+' && (decimalInt? inner).any fun i => minI64 ≤ i && i ≤ maxI64

/-- Whether a text goes on from a name to a part of its value: by a point and a name, or by
the number of an item in brackets. -/
def isPart (cs : List Char) : Nat → Bool
  | 0 => cs.isEmpty
  | fuel + 1 =>
    match cs with
    | [] => true
    | '.' :: rest =>
      !(rest.takeWhile isNameChar).isEmpty && isPart (rest.dropWhile isNameChar) fuel
    | '[' :: rest =>
      let after := rest.dropWhile (· ≠ ']')
      isIndex (rest.takeWhile (· ≠ ']')) && !after.isEmpty && isPart after.tail fuel
    | _ => false

/-- The field that a name is about, with what it says about the field. A name that goes on to
a part of the value makes a compound of it. -/
def entry (name : String) (value : Given) : String × Given :=
  let cs := name.toList.map smallLetter
  let field := cs.takeWhile isNameChar
  let rest := cs.dropWhile isNameChar
  -- a plain name, and one of any other form, is taken as it stands
  if !field.isEmpty && !rest.isEmpty && isPart rest rest.length then
    (String.ofList field, .compound)
  else (String.ofList cs, value)

/-- The layer of a file. -/
def ofToml (entries : Toml.Entries) : Layer :=
  entries.map fun e => entry e.1 (Given.ofToml e.2)

/-- What the name of a variable that gives a setting begins with, in small letters. -/
def variableLead : String := "backup__"

/-- A text with a point for each pair of underscores. -/
def pointed : List Char → List Char
  | '_' :: '_' :: rest => '.' :: pointed rest
  | c :: rest => c :: pointed rest
  | [] => []

/-- What a variable gives, if its name begins as it should. -/
def ofVariable? (name value : String) : Option (String × Given) :=
  let cs := name.toList.map smallLetter
  if variableLead.toList.isPrefixOf cs then
    let field := pointed (cs.drop variableLead.length)
    some (entry (String.ofList field) (Given.ofVariable value))
  else none

/-- The layer of the environment. -/
def ofEnvironment (environment : List (String × String)) : Layer :=
  environment.filterMap fun v => ofVariable? v.1 v.2

/-- What a layer says about a field: of several values the last counts. -/
def get? (layer : Layer) (field : String) : Option Given :=
  let said := (layer.filter (·.1 == field)).map (·.2)
  (said.filter (· ≠ .emptyTable)).getLast? <|> said.getLast?

/-- The settings that a layer describes, the others having their defaults. -/
def settings (layer : Layer) : Except SettingsFault Settings :=
  let described := ({} : Settings).override?
    (fun field value => match layer.get? field with
      | some given => given.toText?
      | none => some value)
    (fun field value => match layer.get? field with
      | some given => given.toTime?
      | none => some value)
  match described with
  | none => .error .typeMismatch
  | some s =>
    match s.validate with
    | .ok () => .ok s
    | .error fault => .error fault

end Layer

end Holdfast
