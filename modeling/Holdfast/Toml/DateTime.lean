import Holdfast.Decimal.Digits
import Holdfast.Toml.Defect

/-!
# Dates and times

A date, a time of day, or both, with an offset if it is an instant.

* `DateTime.scan` reads one; every part has to be in its range;
* `DateTime.text` writes one.
-/

namespace Holdfast.Toml

/-- A day. -/
structure Date where
  year : Nat
  month : Nat
  day : Nat
  deriving DecidableEq, Repr

/-- A time of day. -/
structure Time where
  hour : Nat
  minute : Nat
  second : Nat
  nanosecond : Nat
  deriving DecidableEq, Repr

/-- A distance from universal time. -/
inductive Offset where
  | zulu
  | minutes (value : Int)
  deriving DecidableEq, Repr

/-- A date, a time of day, or both. -/
inductive DateTime where
  | ofDate (date : Date)
  | ofTime (time : Time)
  | ofBoth (date : Date) (time : Time) (offset : Option Offset)
  deriving DecidableEq, Repr

namespace DateTime

/-! ## Writing -/

/-- A number with leading zeros. -/
def padded (width n : Nat) : String :=
  let digits := Nat.toDigits 10 n
  String.ofList (List.replicate (width - digits.length) '0' ++ digits)

/-- A date in writing. -/
def dateText (d : Date) : String :=
  padded 4 d.year ++ "-" ++ padded 2 d.month ++ "-" ++ padded 2 d.day

/-- A fraction of a second in writing, nothing when it is zero. -/
def fractionText (nanosecond : Nat) : String :=
  if nanosecond = 0 then ""
  else
    let digits := (padded 9 nanosecond).toList.reverse.dropWhile (· = '0')
    "." ++ String.ofList digits.reverse

/-- A time in writing. -/
def timeText (t : Time) : String :=
  padded 2 t.hour ++ ":" ++ padded 2 t.minute ++ ":" ++ padded 2 t.second ++
    fractionText t.nanosecond

/-- An offset in writing. -/
def offsetText : Offset → String
  | .zulu => "Z"
  | .minutes value =>
    (if value < 0 then "-" else "+") ++ padded 2 (value.natAbs / 60) ++ ":" ++
      padded 2 (value.natAbs % 60)

/-- A date or time in writing. -/
def text : DateTime → String
  | .ofDate d => dateText d
  | .ofTime t => timeText t
  | .ofBoth d t offset =>
    dateText d ++ "T" ++ timeText t ++ (offset.map offsetText).getD ""

/-! ## Reading -/

/-- Read a number of a fixed width in a range. -/
def number (width least most : Nat) (cs : List Char) : Except Defect (Nat × List Char) :=
  let digits := cs.take width
  if digits.length = width ∧ digits.all Char.isDigit then
    let n := decimalNat digits
    if least ≤ n ∧ n ≤ most then .ok (n, cs.drop width)
    else refuse cs "value is out of range"
  else stop cs

/-- The days of a month. -/
def daysOf (year month : Nat) : Nat :=
  if month = 2 then
    if year % 4 = 0 ∧ (year % 100 ≠ 0 ∨ year % 400 = 0) then 29 else 28
  else if month ∈ [4, 6, 9, 11] then 30
  else 31

/-- Read a date. -/
def scanDate (cs : List Char) : Except Defect (Date × List Char) := do
  let (year, cs) ← number 4 0 9999 cs
  let ((), cs) ← char '-' cs
  let (month, cs) ← settled (number 2 1 12 cs)
  let ((), cs) ← settled (char '-' cs)
  let (day, rest) ← settled (number 2 1 31 cs)
  if daysOf year month < day then settled (refuse cs "value is out of range")
  else return (⟨year, month, day⟩, rest)

/-- Read a fraction of a second; digits after the ninth are dropped. -/
def scanFraction (cs : List Char) : Except Defect (Nat × List Char) := do
  let ((), cs) ← char '.' cs
  let digits := cs.takeWhile Char.isDigit
  if digits.isEmpty then stop cs
  else
    let kept := digits.take 9
    return (decimalNat kept * Nat.pow 10 (9 - kept.length), cs.dropWhile Char.isDigit)

/-- Read a time of day. -/
def scanTime (cs : List Char) : Except Defect (Time × List Char) := do
  let (hour, cs) ← number 2 0 23 cs
  let ((), cs) ← char ':' cs
  let (minute, cs) ← settled (number 2 0 59 cs)
  let ((), cs) ← settled (char ':' cs)
  let (second, cs) ← settled (number 2 0 60 cs)
  let (nanosecond, cs) ← settled (optional cs scanFraction)
  return (⟨hour, minute, second, nanosecond.getD 0⟩, cs)

/-- Read an offset. -/
def scanOffset (cs : List Char) : Except Defect (Offset × List Char) :=
  named "time offset" <|
    match cs with
    | [] => stop []
    | c :: rest =>
      if c = 'Z' ∨ c = 'z' then .ok (.zulu, rest)
      else if c = '+' ∨ c = '-' then settled do
        let (hour, rest) ← number 2 0 23 rest
        let ((), rest) ← char ':' rest
        let (minute, rest) ← number 2 0 59 rest
        let minutes : Int := hour * 60 + minute
        return (.minutes (if c = '-' then -minutes else minutes), rest)
      else stop cs

/-- Read a time after a date, with its offset. -/
def scanTail (cs : List Char) : Except Defect ((Time × Option Offset) × List Char) :=
  match cs with
  | [] => stop []
  | c :: rest =>
    if c = 'T' ∨ c = 't' ∨ c = ' ' then do
      let (time, rest) ← scanTime rest
      let (offset, rest) ← optional rest scanOffset
      return ((time, offset), rest)
    else stop cs

/-- Read a date, with a time if one follows. -/
def scanFromDate (cs : List Char) : Except Defect (DateTime × List Char) :=
  named "date-time" do
    let (date, cs) ← scanDate cs
    let (tail, cs) ← optional cs scanTail
    match tail with
    | some (time, offset) => return (.ofBoth date time offset, cs)
    | none => return (.ofDate date, cs)

/-- Read a date or a time. -/
def scan (cs : List Char) : Except Defect (DateTime × List Char) :=
  orElse (scanFromDate cs) fun () =>
    named "time" do
      let (time, cs) ← scanTime cs
      return (.ofTime time, cs)

end DateTime

end Holdfast.Toml
