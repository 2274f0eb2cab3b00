import Holdfast.Decimal.Shortest
import Holdfast.Text.Shown
import Holdfast.Toml.DateTime

/-!
# Tables

The tree that a TOML text describes, and how its parts are put together. A table may be
given in several places, but each part of it only once; who may add to a table depends on
how it came about.

* `Value` is the tree, each part with the stretch of the text it comes from; `Form` says how a
  table came about;
* `extend` walks along a path of keys and changes the table at its end;
* `putKey` gives a key of a table its value;
* `Building` is a document on its way, with the table to which keys are added now.
-/

namespace Holdfast.Toml

/-- How a table came about. -/
inductive Form where
  /-- By a header of its own, or as the document itself. -/
  | header
  /-- On the way of a header to a table inside it. -/
  | implied
  /-- On the way of a dotted key. -/
  | dotted
  /-- In braces. -/
  | inline
  deriving DecidableEq, Repr

/-- A value without parts. -/
inductive Scalar where
  | text (value : String)
  | int (value : Int)
  | real (value : Binary64)
  | bool (value : Bool)
  | moment (value : DateTime)
  deriving DecidableEq, Repr

/-- A value of a document. -/
inductive Value where
  | scalar (span : Span) (value : Scalar)
  | list (span : Span) (items : List Value)
  /-- A table that was made on the way of a key has the stretch of that key. -/
  | table (form : Form) (span : Span) (entries : List (String × Value))
  /-- The tables of the headers in double brackets of one name. -/
  | tables (span : Span) (elements : List (List (String × Value)))

/-- The keys of a table with their values. -/
abbrev Entries := List (String × Value)

/-- A key where it is written. -/
structure Key where
  name : String
  span : Span
  deriving DecidableEq, Repr

namespace Scalar

/-- The sort of a value, in writing. -/
def sort : Scalar → String
  | .text _ => "string"
  | .int _ => "integer"
  | .real _ => "float"
  | .bool _ => "boolean"
  | .moment _ => "datetime"

/-- A number with a point in it, if it is finite. -/
def pointedText (x : Binary64) : String :=
  match x with
  | .finite _ _ _ => if x.text.toList.contains '.' then x.text else x.text ++ ".0"
  | x => x.text

/-- What a value is, for one who wanted something else. -/
def described : Scalar → String
  | .text s => "string " ++ Text.quoted s
  | .int i => s!"integer `{i}`"
  | .real x => "floating point `" ++ pointedText x ++ "`"
  | .bool b => if b then "boolean `true`" else "boolean `false`"
  -- a date or a time has the form of a table with a mark
  | .moment _ => "map"

end Scalar

namespace Value

/-- Where a value is written. -/
def span : Value → Span
  | .scalar span _ | .list span _ | .table _ span _ | .tables span _ => span

/-- The sort of a value, in writing. -/
def sort : Value → String
  | .scalar _ value => value.sort
  | .list _ _ | .tables _ _ => "array"
  | .table .inline _ _ => "inline table"
  | .table _ _ _ => "table"

/-- What a value is, for one who wanted something else. -/
def described : Value → String
  | .scalar _ value => value.described
  | .list _ _ | .tables _ _ => "sequence"
  | .table _ _ _ => "map"

end Value

/-- Why a part cannot be put where it belongs. -/
inductive Clash where
  /-- The key has a value already; its table is given where it is known. -/
  | duplicate (key : String) (table : Option (List String))
  /-- A header names something that may not be given again. -/
  | reopened (key : String) (table : List String)
  /-- A dotted key leads through a value that is no table. -/
  | notTable (path : List String) (sort : String)
  deriving DecidableEq, Repr

/-- A table that a clash is about, in writing. -/
def Clash.tableText : List String → String
  | [] => "document root"
  | path => "table `" ++ ".".intercalate path ++ "`"

/-- Wording of a clash. -/
def Clash.message : Clash → String
  | .duplicate key none => s!"duplicate key `{key}`"
  | .duplicate key (some path) => s!"duplicate key `{key}` in " ++ tableText path
  | .reopened key path => "duplicate key `" ++ Text.quoted key ++ "` in " ++ tableText path
  | .notTable path sort =>
    let key := ".".intercalate path
    s!"dotted key `{key}` attempted to extend non-table type ({sort})"

/-- Give a key a value, in place of an earlier one. -/
def setEntry (entries : Entries) (key : String) (value : Value) : Entries :=
  match entries with
  | [] => [(key, value)]
  | entry :: rest =>
    if entry.1 = key then (key, value) :: rest else entry :: setEntry rest key value

/-- Change the table at the end of a path. Tables that are missing on the way are made, in
the given form. `walked` are the keys on the way so far (in reverse). -/
def extend (made form : Form) (walked : List String) (entries : Entries) :
    List Key → (Form → Entries → Except Clash Entries) → Except Clash Entries
  | [], change => change form entries
  | key :: path, change =>
    let into (form : Form) (inner : Entries) : Except Clash Entries :=
      extend made form (key.name :: walked) inner path change
    let noTable (value : Value) : Except Clash Entries :=
      .error (.notTable (key.name :: walked).reverse value.sort)
    match entries.lookup key.name with
    | none => do
      let inner ← into made []
      return setEntry entries key.name (.table made key.span inner)
    | some (.table .inline span inner) =>
      if form = .inline then .error (.duplicate key.name none)
      else noTable (.table .inline span inner)
    | some (.table form span inner) =>
      -- a dotted key does not add to a table with a header of its own
      if made = .dotted ∧ form = .header then .error (.duplicate key.name none)
      else do
        let inner ← into form inner
        return setEntry entries key.name (.table form span inner)
    | some (.tables span elements) =>
      -- a path through several tables of one name leads to the last of them
      match elements.reverse with
      | last :: others => do
        let last ← into .header last
        return setEntry entries key.name (.tables span (last :: others).reverse)
      | [] => .error (.duplicate key.name none)
    | some value => noTable value

/-- Give a key at the end of a path a value. A dotted key only adds to tables that dotted
keys have made. -/
def putKey (form : Form) (table : Option (List String)) (entries : Entries)
    (path : List Key) (key : Key) (value : Value) : Except Clash Entries :=
  extend .dotted form [] entries path fun last inner =>
    if (last == .dotted) == path.isEmpty then .error (.duplicate key.name none)
    else match inner.lookup key.name with
      | some _ => .error (.duplicate key.name table)
      | none => .ok (inner ++ [(key.name, value)])

/-! ## Documents -/

/-- A document on its way. -/
structure Building where
  /-- The tables that are complete. -/
  root : Entries := []
  /-- The table to which keys are added now. -/
  current : Entries := []
  /-- Its path. -/
  path : List Key := []
  /-- Its stretch: from its header to the last value added. -/
  span : Span
  /-- Whether it is one of several tables of its name. -/
  isElement : Bool := false

namespace Building

/-- Add a key to the current table. -/
def addKey (b : Building) (path : List Key) (key : Key) (value : Value) :
    Except Clash Building := do
  let current ← putKey .header (some (b.path.map Key.name)) b.current path key value
  return { b with current, span := ⟨b.span.start, value.span.stop⟩ }

/-- Complete the current table. -/
def close (b : Building) : Except Clash Entries :=
  match b.path.reverse with
  | [] => .ok b.current
  | key :: up =>
    extend .implied .header [] b.root up.reverse fun _ entries =>
      if b.isElement then
        match entries.lookup key.name with
        | some (.tables span elements) =>
          .ok (setEntry entries key.name
            (.tables ⟨span.start, b.span.stop⟩ (elements ++ [b.current])))
        | some _ => .error (.reopened key.name (up.reverse.map Key.name))
        | none => .ok (setEntry entries key.name (.tables b.span [b.current]))
      else .ok (setEntry entries key.name (.table .header b.span b.current))

/-- Take a table out of its surroundings, to add keys to it. Only a table that was implied
may be taken up again. -/
def takeTable (up : List Key) (key : Key) (entries : Entries) :
    Except Clash (Entries × Entries) :=
  match entries.lookup key.name with
  | none => .ok ([], entries)
  | some (.table .implied _ inner) => .ok (inner, entries.filter fun entry => entry.1 ≠ key.name)
  | some _ => .error (.reopened key.name (up.map Key.name))

/-- The table at a path that begins at a table. -/
def inner? (entries : Entries) : List Key → Option Entries
  | [] => some entries
  | key :: path =>
    match entries.lookup key.name with
    | some (.table _ _ inner) => inner? inner path
    | some (.tables _ elements) =>
      match elements.getLast? with
      | some last => inner? last path
      | none => none
    | _ => none

/-- Begin a table of its own, whose header is written at `span`. -/
def openTable (b : Building) (span : Span) (up : List Key) (key : Key) :
    Except Clash Building := do
  let root ← b.close
  let root ← extend .implied .header [] root up fun _ entries => .ok entries
  let (current, _) ← takeTable up key ((inner? root up).getD [])
  let root ← extend .implied .header [] root up fun _ entries => do
    return (← takeTable up key entries).2
  return { root, current, path := up ++ [key], span, isElement := false }

/-- Begin one of several tables of a name, whose header is written at `span`. -/
def openElement (b : Building) (span : Span) (up : List Key) (key : Key) :
    Except Clash Building := do
  let root ← b.close
  let root ← extend .implied .header [] root up fun _ entries =>
    match entries.lookup key.name with
    | none | some (.tables _ _) => .ok entries
    | some _ => .error (.reopened key.name (up.map Key.name))
  return { root, current := [], path := up ++ [key], span, isElement := true }

end Building

end Holdfast.Toml
