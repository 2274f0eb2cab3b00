import Holdfast.Toml.Moment
import Holdfast.Toml.Table

/-!
# Marked tables

A table whose first key is a mark is not a table but a date or a time, given as a text. Other
keys of such a table do not count, and the mark is a key like any other where it is not the
first.

* `mark` is the key;
* `Value.unmark` puts dates and times in the place of marked tables.
-/

namespace Holdfast.Toml

/-- The key that makes a date or a time of its table. -/
def mark : String := "$__toml_private_datetime"

/-- The value of the mark, if a table is marked. -/
def marked? : Entries → Option Value
  | [] => none
  | (key, value) :: _ => if key = mark then some value else none

/-- The date or time that the value of a mark gives. -/
def momentOf : Value → Except Defect DateTime
  | .scalar span (.text s) =>
    match DateTime.ofText s with
    | .ok moment => .ok moment
    | .error misfit => span.refuse misfit.message
  | value =>
    value.span.refuse
      ("invalid type: " ++ value.described ++ ", expected string containing a datetime")

/-- The date or time that a table stands for, or the table with its keys without marks. -/
def tableOrMoment (form : Form) (span : Span) (entries : Entries)
    (unmarked : Except Defect Entries) : Except Defect Value :=
  match marked? entries with
  | some value => (momentOf value).map fun moment => .scalar span (.moment moment)
  | none => unmarked.map (.table form span)

mutual

/-- A value with dates and times in the place of marked tables. -/
def Value.unmark : Value → Except Defect Value
  | .scalar span value => .ok (.scalar span value)
  | .list span items => (unmarkItems items).map (.list span)
  | .table form span entries => tableOrMoment form span entries (unmarkPairs entries)
  | .tables span elements => (unmarkElements span elements).map (.list span)

/-- The items of a list, each without marks. -/
def unmarkItems : List Value → Except Defect (List Value)
  | [] => .ok []
  | item :: rest => do
    let item ← item.unmark
    return item :: (← unmarkItems rest)

/-- The keys of a table, each with a value without marks. -/
def unmarkPairs : List (String × Value) → Except Defect (List (String × Value))
  | [] => .ok []
  | (key, value) :: rest => do
    let value ← value.unmark
    return (key, value) :: (← unmarkPairs rest)

/-- The tables of one name, each without marks. -/
def unmarkElements (span : Span) : List (List (String × Value)) → Except Defect (List Value)
  | [] => .ok []
  | entries :: rest => do
    let first ← tableOrMoment .header span entries (unmarkPairs entries)
    return first :: (← unmarkElements span rest)

end

end Holdfast.Toml
