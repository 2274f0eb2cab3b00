import Holdfast.Record

/-!
# Fields

A record is a run of fields: they are put into a buffer one after the other, and read in the same
order from what was written.

* `Field` is a value that a record can hold, `Field.Kind` is its type;
* `Record.put`, `Record.putAll` write into a buffer;
* `Record.Reader.field`, `Record.Reader.fields` read.
-/

namespace Holdfast.Record

/-- A value that a record can hold. -/
inductive Field where
  | int32 (value : Int)
  | int64 (value : Int)
  | text (value : String)
  deriving DecidableEq, Repr

namespace Field

/-- The type of a field. -/
inductive Kind where
  | int32
  | int64
  | text
  deriving DecidableEq, Repr

/-- The type of a field. -/
def kind : Field → Kind
  | .int32 _ => .int32
  | .int64 _ => .int64
  | .text _ => .text

end Field

/-- Add a field to a buffer. A text that does not fit a record leaves the buffer alone. -/
def put (buffer : Bytes) : Field → Except Fault Unit × Bytes
  | .int32 i => (.ok (), buffer ++ putInt32 i)
  | .int64 i => (.ok (), buffer ++ putInt64 i)
  | .text s =>
    match putText s with
    | .ok record => (.ok (), buffer ++ record)
    | .error e => (.error e, buffer)

/-- Add fields to a buffer, up to the first one that does not fit. -/
def putAll (buffer : Bytes) : List Field → Except Fault Unit × Bytes
  | [] => (.ok (), buffer)
  | f :: fields =>
    match put buffer f with
    | (.ok (), buffer) => putAll buffer fields
    | (.error e, buffer) => (.error e, buffer)

namespace Reader

/-- Read a field. -/
def field (r : Reader) : Field.Kind → Except Fault Field × Reader
  | .int32 =>
    let (answer, r) := r.int32
    (answer.map .int32, r)
  | .int64 =>
    let (answer, r) := r.int64
    (answer.map .int64, r)
  | .text =>
    let (answer, r) := r.text
    (answer.map .text, r)

/-- Read fields one after the other. A read that fails does not end the row. -/
def fields (r : Reader) : List Field.Kind → List (Except Fault Field) × Reader
  | [] => ([], r)
  | kind :: kinds =>
    let (answer, r) := r.field kind
    let (answers, r) := r.fields kinds
    (answer :: answers, r)

end Reader

end Holdfast.Record
