import Holdfast.Fault

/-!
# Records

The encoding shared by every stored file: big-endian 32- and 64-bit integers, and texts
written as a 16-bit octet count followed by UTF-8.

* `Record.putInt32`, `Record.putInt64`, `Record.putText` write single parts;
* `Record.Reader` reads them back one after the other. A read answers the value or the
  fault together with the reader that is left: a failed integer consumes nothing, a failed
  text may have consumed its length or its whole body;
* `Record.Reader.texts` reads texts until the end or the first torn record.
-/

namespace Holdfast.Record

/-- The longest text that a record can hold, in octets. -/
def maxText : Nat := 65535

/-- A signed 32-bit integer. -/
def putInt32 (i : Int) : Bytes := beBytes 4 (wordOfInt 4 i)

/-- A signed 64-bit integer. -/
def putInt64 (i : Int) : Bytes := beBytes 8 (wordOfInt 8 i)

/-- A text, if it is short enough for its length field. -/
def putText (s : String) : Except Fault Bytes :=
  let body := Utf8.encode s
  if body.length ≤ maxText then .ok (beBytes 2 body.length ++ body)
  else .error (.textTooLong body.length)

/-- Several texts, one after the other. -/
def putTexts : List String → Except Fault Bytes
  | [] => .ok []
  | s :: rest => do
    let first ← putText s
    let others ← putTexts rest
    return first ++ others

/-- What is left to read of a file. -/
structure Reader where
  /-- Name of the file, for messages. -/
  file : String
  rest : Bytes
  deriving Repr

namespace Reader

/-- Whether anything is left. -/
def hasRemaining (r : Reader) : Bool := !r.rest.isEmpty

/-- The fault of a record of this file. -/
def fault (r : Reader) (defect : RecordDefect) : Fault := .corrupt r.file defect

/-- The reader after `n` octets. -/
def skip (r : Reader) (n : Nat) : Reader := { r with rest := r.rest.drop n }

/-- Read `n` octets of a part, or consume nothing. -/
def take (r : Reader) (part : RecordPart) (n : Nat) : Except Fault Bytes × Reader :=
  if r.rest.length < n then (.error (r.fault (.truncated part n r.rest.length)), r)
  else (.ok (r.rest.take n), r.skip n)

/-- Read a signed 32-bit integer. -/
def int32 (r : Reader) : Except Fault Int × Reader :=
  match r.take .int32 4 with
  | (.ok word, r) => (.ok (intOfWord 4 (beNat word)), r)
  | (.error e, r) => (.error e, r)

/-- Read a signed 64-bit integer. -/
def int64 (r : Reader) : Except Fault Int × Reader :=
  match r.take .int64 8 with
  | (.ok word, r) => (.ok (intOfWord 8 (beNat word)), r)
  | (.error e, r) => (.error e, r)

/-- Read a text. -/
def text (r : Reader) : Except Fault String × Reader :=
  match r.take .textLength 2 with
  | (.error e, r) => (.error e, r)
  | (.ok word, r) =>
    match r.take .textBody (beNat word) with
    | (.error e, r) => (.error e, r)
    | (.ok body, r) =>
      match Utf8.decode body with
      | .ok s => (.ok s, r)
      -- the octets of the text are consumed all the same
      | .error defect => (.error (r.fault (.badText defect)), r)

/-- Read texts until the end or the first one that fails, adding to those read before
(in reverse). Each text takes two octets at least, so `fuel` need not exceed the number
of octets left. -/
def textsOnto (done : List String) (r : Reader) : Nat → List String × Reader
  | 0 => (done.reverse, r)
  | fuel + 1 =>
    if r.hasRemaining then
      match r.text with
      | (.ok s, r) => textsOnto (s :: done) r fuel
      | (.error _, r) => (done.reverse, r)
    else (done.reverse, r)

/-- Read texts until the end or the first torn record. -/
def texts (r : Reader) : List String × Reader := textsOnto [] r r.rest.length

/-- Read exactly `count` texts. -/
def textList (r : Reader) : Nat → Except Fault (List String) × Reader
  | 0 => (.ok [], r)
  | count + 1 =>
    match r.text with
    | (.error e, r) => (.error e, r)
    | (.ok s, r) =>
      match textList r count with
      | (.error e, r) => (.error e, r)
      | (.ok rest, r) => (.ok (s :: rest), r)

end Reader

/-- The texts of a file of texts, up to the first torn record. -/
def textsOf (bytes : Bytes) : List String := (Reader.texts ⟨"", bytes⟩).1

end Holdfast.Record
