import Holdfast.Bytes
import Holdfast.Document

/-!
# Documents in writing

The notation of JSON. Texts are quoted, with escapes for quotes, backslashes and control
characters only.

* `Document.compact` writes a document on one line, without blanks;
* `Document.pretty` puts every item on a line of its own, two blanks deeper than its
  surroundings.
-/

namespace Holdfast.Document

/-- A character inside a quoted text. -/
def escapeChar (c : Char) : List Char :=
  if c = '"' then ['\\', '"']
  else if c = '\\' then ['\\', '\\']
  else if c = '\n' then ['\\', 'n']
  else if c = '\r' then ['\\', 'r']
  else if c = '\t' then ['\\', 't']
  else if c.toNat = 8 then ['\\', 'b']
  else if c.toNat = 12 then ['\\', 'f']
  else if c.toNat < 32 then ['\\', 'u'] ++ hexDigits 4 c.toNat
  else [c]

/-- A quoted text. -/
def quote (s : String) : String :=
  String.ofList ('"' :: s.toList.flatMap escapeChar ++ ['"'])

/-- Texts with a separator between them. -/
def joinWith (separator : String) : List String → String
  | [] => ""
  | [s] => s
  | s :: rest => s ++ separator ++ joinWith separator rest

mutual

/-- A document on one line. -/
def compact : Document → String
  | .null => "null"
  | .bool true => "true"
  | .bool false => "false"
  | .int i => toString i
  | .real => "0.0"
  | .text s => quote s
  | .list items => "[" ++ joinWith "," (compactItems items) ++ "]"
  | .object fields => "\x7b" ++ joinWith "," (compactFields fields) ++ "\x7d"

/-- Items of a list, each on one line. -/
def compactItems : List Document → List String
  | [] => []
  | d :: rest => compact d :: compactItems rest

/-- Fields of an object, each on one line. -/
def compactFields : List (String × Document) → List String
  | [] => []
  | (name, d) :: rest => (quote name ++ ":" ++ compact d) :: compactFields rest

end

/-- Blanks at the beginning of a line. -/
def indent (depth : Nat) : String := String.ofList (List.replicate (2 * depth) ' ')

/-- Items between brackets, each on a line of its own. -/
def block (depth : Nat) (left right : String) (items : List String) : String :=
  if items.isEmpty then left ++ right
  else
    let lines := items.map fun item => "\n" ++ indent (depth + 1) ++ item
    left ++ joinWith "," lines ++ "\n" ++ indent depth ++ right

mutual

/-- A document over several lines, whose surroundings are `depth` deep. -/
def prettyAt (depth : Nat) : Document → String
  | .list items => block depth "[" "]" (prettyItems depth items)
  | .object fields => block depth "\x7b" "\x7d" (prettyFields depth fields)
  | .null => "null"
  | .bool true => "true"
  | .bool false => "false"
  | .int i => toString i
  | .real => "0.0"
  | .text s => quote s

/-- Items of a list over several lines. -/
def prettyItems (depth : Nat) : List Document → List String
  | [] => []
  | d :: rest => prettyAt (depth + 1) d :: prettyItems depth rest

/-- Fields of an object over several lines. -/
def prettyFields (depth : Nat) : List (String × Document) → List String
  | [] => []
  | (name, d) :: rest => (quote name ++ ": " ++ prettyAt (depth + 1) d) :: prettyFields depth rest

end

/-- A document over several lines. -/
def pretty (d : Document) : String := prettyAt 0 d

end Holdfast.Document
