import Holdfast.Utf8

/-!
# Defects of a TOML text

A reader of a part of the text answers a value and the text that is left, or a `Defect`: how
much was left where it stopped, and what is known about the cause.

* `Span` is a stretch of the text;
* `Defect.final` says that no other reading of the same place may be tried;
* `named`, `expecting` and `settled` add to what is known;
* `Defect.report` shows the line of the defect with a mark under the place.
-/

namespace Holdfast.Toml

/-- A stretch of the text: how many characters are left at its two ends. -/
structure Span where
  start : Nat
  stop : Nat
  deriving DecidableEq, Repr

/-- Why a text cannot be read. -/
structure Defect where
  /-- How many characters were left at the place of the defect. -/
  left : Nat
  /-- How many characters the defect covers. -/
  extent : Nat := 1
  /-- Whether the text can only be wrong, however one reads it. -/
  final : Bool := false
  /-- What was being read. -/
  label : Option String := none
  /-- What could have stood at the place. -/
  expected : List String := []
  /-- What is wrong with something well-formed. -/
  cause : Option String := none
  deriving DecidableEq, Repr

/-- A reader of a part of the text. -/
abbrev Scan (α : Type) := List Char → Except Defect (α × List Char)

/-- A defect at a place of which nothing is known. -/
def stop {α : Type} (cs : List Char) : Except Defect α := .error { left := cs.length }

/-- A defect at a place with a cause. -/
def refuse {α : Type} (cs : List Char) (cause : String) : Except Defect α :=
  .error { left := cs.length, cause := some cause }

/-- The stretch between two places. -/
def Span.between (cs rest : List Char) : Span := ⟨cs.length, rest.length⟩

/-- A defect that covers a stretch, with a cause. -/
def Span.refuse {α : Type} (span : Span) (cause : String) : Except Defect α :=
  .error { left := span.start, extent := span.start - span.stop, cause := some cause }

/-- Say what was being read, unless that is known more exactly. -/
def named {α : Type} (label : String) : Except Defect α → Except Defect α
  | .ok a => .ok a
  | .error d => .error { d with label := d.label <|> some label }

/-- Say what could have stood at the place. -/
def expecting {α : Type} (what : String) : Except Defect α → Except Defect α
  | .ok a => .ok a
  | .error d => .error { d with expected := d.expected ++ [what] }

/-- Let no other reading be tried. -/
def settled {α : Type} : Except Defect α → Except Defect α
  | .ok a => .ok a
  | .error d => .error { d with final := true }

/-- Try another reading of the same place, unless the first one is settled. -/
def orElse {α : Type} (first : Except Defect α) (second : Unit → Except Defect α) :
    Except Defect α :=
  match first with
  | .ok a => .ok a
  | .error d => if d.final then .error d else second ()

/-- Read something that may be missing. -/
def optional {α : Type} (cs : List Char) (read : Scan α) : Except Defect (Option α × List Char) :=
  match read cs with
  | .ok (a, rest) => .ok (some a, rest)
  | .error d => if d.final then .error d else .ok (none, cs)

/-- Read one given character. -/
def char (c : Char) : Scan Unit
  | [] => stop []
  | d :: rest => if d = c then .ok ((), rest) else stop (d :: rest)

/-- Read a given word. -/
def word (w : String) (cs : List Char) : Except Defect (Unit × List Char) :=
  if w.toList.isPrefixOf cs then .ok ((), cs.drop w.length) else stop cs

namespace Defect

/-- Wording of a defect. -/
def message (d : Defect) : String :=
  let label := d.label.toList.map fun l => "invalid " ++ l
  let expected :=
    if d.expected.isEmpty then [] else ["expected " ++ ", ".intercalate d.expected]
  "\n".intercalate (label ++ expected ++ d.cause.toList)

/-- Where a defect is: the number of its line, the line, its column there, and the width of
its mark. A defect at the end stands behind the last character. Columns count characters, but
octets where the character at the defect has several; widths count octets, and no mark is
wider than its line. -/
def place (d : Defect) (cs : List Char) : Nat × List Char × Nat × Nat :=
  let offset := cs.length - d.left
  let anchor := min offset (cs.length - 1)
  let before := cs.take anchor
  let line := before.count '\n'
  let lead := (before.reverse.takeWhile (· ≠ '\n')).reverse
  let content := lead ++ (cs.drop anchor).takeWhile (· ≠ '\n')
  let octets (cs : List Char) := (cs.flatMap Utf8.encodeChar).length
  let first := octets ((cs.drop offset).take 1)
  let column := if 1 < first then octets lead else lead.length + (offset - anchor)
  (line + 1, content, column, min (octets ((cs.drop offset).take d.extent)) (octets content))

/-- The defect of a text for a reader: its line and column, the line itself, a mark under the
place, and the wording. -/
def report (d : Defect) (s : String) : String :=
  let (line, content, column, width) := d.place s.toList
  let gutter := String.ofList (List.replicate ((toString line).length + 1) ' ')
  let blanks := String.ofList (List.replicate (column + 1) ' ')
  let mark := String.ofList (List.replicate (max 1 width) '^')
  s!"TOML parse error at line {line}, column {column + 1}\n{gutter}|\n" ++
    s!"{line} | {String.ofList content}\n{gutter}|{blanks}{mark}\n{d.message}\n"

end Defect

end Holdfast.Toml
