/-!
# Documents

Values as they are exchanged with other programs: a tree of numbers, texts, lists and
objects.

* `Document` is the tree;
* `Document.nat?`, `Document.int?`, `Document.text?`, `Document.bool?` read its leaves, and
  accept nothing but a leaf of the right kind and range;
* `Document.slots` gives access to the fields of a record, which is written as an object or
  as the list of its fields in order.
-/

namespace Holdfast

/-- A tree of values. -/
inductive Document where
  | null
  | bool (value : Bool)
  | int (value : Int)
  /-- A number that is not written as an integer. -/
  | real
  | text (value : String)
  | list (items : List Document)
  /-- Fields with their names; no name occurs twice. -/
  | object (fields : List (String × Document))
  deriving Inhabited

namespace Document

/-- A natural number as a document. -/
def nat (n : Nat) : Document := .int n

/-- A list of texts as a document. -/
def texts (xs : List String) : Document := .list (xs.map .text)

/-- A value that may be absent. -/
def opt {α : Type} (f : α → Document) : Option α → Document
  | some a => f a
  | none => .null

/-- The truth value of a leaf. -/
def bool? : Document → Option Bool
  | .bool b => some b
  | _ => none

/-- The text of a leaf. -/
def text? : Document → Option String
  | .text s => some s
  | _ => none

/-- The integer of a leaf, if it lies in a range. -/
def int? (least most : Int) : Document → Option Int
  | .int i => if least ≤ i ∧ i ≤ most then some i else none
  | _ => none

/-- The natural number of a leaf, if it is not too large. -/
def nat? (most : Nat) (d : Document) : Option Nat := (d.int? 0 most).map Int.toNat

/-- The texts of a list. -/
def texts? : Document → Option (List String)
  | .list items => items.mapM text?
  | _ => none

/-- A field of an object. -/
def field? (d : Document) (name : String) : Option Document :=
  match d with
  | .object fields => fields.lookup name
  | _ => none

/-- The fields of a record with the given names: an object, in which other fields are
ignored, or the list of all fields in order. -/
def slots (names : List String) : Document → Option (String → Option Document)
  | .object fields => some fun name => fields.lookup name
  | .list items =>
    if items.length = names.length then some fun name => (names.zip items).lookup name
    else none
  | _ => none

/-- Read a field that has to be there. -/
def required {α : Type} (read : Document → Option α) : Option Document → Option α
  | some d => read d
  | none => none

/-- Read a field that may be missing or null. -/
def optional {α : Type} (read : Document → Option α) : Option Document → Option (Option α)
  | none | some .null => some none
  | some d => (read d).map some

end Document

end Holdfast
