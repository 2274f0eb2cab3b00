import Holdfast.Toml.DateTime

/-!
# Texts that are dates and times

A date or a time that is given as a text rather than written in a document. The text is cut
into tokens, and the first token that does not fit is refused, then the first number of a wrong
width, then the first number out of its range.

* `Token` is a part of such a text;
* `DateTime.ofText` takes a whole text for a date or a time, or says in a `Misfit` why not.
-/

namespace Holdfast.Toml

/-- A part of a text that may be a date or a time. -/
inductive Token where
  | digits (ds : List Char)
  | dash
  | colon
  | plus
  | point
  | space
  /-- The letter before a time. -/
  | letterT
  /-- The letter of universal time. -/
  | letterZ
  /-- Everything from a character on that has no place in a date or a time. -/
  | other
  deriving DecidableEq, Repr

/-- The tokens with one character. -/
def Token.signs : List (Char × Token) :=
  [('-', .dash), (':', .colon), ('+', .plus), ('.', .point), (' ', .space),
    ('T', .letterT), ('t', .letterT), ('Z', .letterZ), ('z', .letterZ)]

/-- The tokens of a text; a run of digits is one token. -/
def Token.ofText : List Char → List Token
  | [] => []
  | c :: rest =>
    if c.isDigit then
      match Token.ofText rest with
      | .digits ds :: tokens => .digits (c :: ds) :: tokens
      | tokens => .digits [c] :: tokens
    else
      match Token.signs.lookup c with
      | some token => token :: Token.ofText rest
      | none => [.other]

/-- Why a text is no date or time: the part of it that is wrong, and what that should be. -/
structure Misfit where
  part : String := "datetime"
  wanted : Option String := none
  deriving DecidableEq, Repr

/-- Wording of a misfit. -/
def Misfit.message (m : Misfit) : String :=
  "invalid " ++ m.part ++ ((m.wanted.map (", expected " ++ ·)).getD "")

namespace DateTime

/-- The digits that come next. -/
def nextDigits (part wanted : String) : List Token → Except Misfit (List Char × List Token)
  | .digits ds :: rest => .ok (ds, rest)
  | _ => .error { part, wanted }

/-- The tokens after a given one. -/
def nextSign (sign : Token) (part wanted : String) : List Token → Except Misfit (List Token)
  | token :: rest => if token = sign then .ok rest else .error { part, wanted }
  | [] => .error { part, wanted }

/-- Refuse a number of another width. -/
def checkWidth (width : Nat) (part wanted : String) (ds : List Char) : Except Misfit Unit :=
  if ds.length = width then .ok () else .error { part, wanted }

/-- Refuse a number out of a range. -/
def checkRange (least most : Nat) (part wanted : String) (n : Nat) : Except Misfit Unit :=
  if least ≤ n ∧ n ≤ most then .ok () else .error { part, wanted }

/-- The date whose year has been read, with the dash after it. -/
def dateOf (year : List Char) (tokens : List Token) : Except Misfit (Date × List Token) := do
  let (month, tokens) ← nextDigits "date" "month" tokens
  let tokens ← nextSign .dash "date" "`-` (MM-DD)" tokens
  let (day, tokens) ← nextDigits "date" "day" tokens
  checkWidth 4 "date" "a four-digit year (YYYY)" year
  checkWidth 2 "date" "a two-digit month (MM)" month
  checkWidth 2 "date" "a two-digit day (DD)" day
  let date : Date := ⟨decimalNat year, decimalNat month, decimalNat day⟩
  checkRange 1 12 "date" "month between 01 and 12" date.month
  let last := daysOf date.year date.month
  checkRange 1 last "date" s!"day between 01 and {last}" date.day
  return (date, tokens)

/-- The fraction of a second that comes next, if any; digits after the ninth are dropped. -/
def fractionOf : List Token → Except Misfit (Nat × List Token)
  | .point :: tokens => do
    let (ds, tokens) ← nextDigits "time" "nanosecond" tokens
    let kept := ds.take 9
    return (decimalNat kept * Nat.pow 10 (9 - kept.length), tokens)
  | tokens => .ok (0, tokens)

/-- The time of day that comes next. -/
def timeOf (tokens : List Token) : Except Misfit (Time × List Token) := do
  let (hour, tokens) ← nextDigits "time" "hour" tokens
  let tokens ← nextSign .colon "time" "`:` (HH:MM)" tokens
  let (minute, tokens) ← nextDigits "time" "minute" tokens
  let tokens ← nextSign .colon "time" "`:` (MM:SS)" tokens
  let (second, tokens) ← nextDigits "time" "second" tokens
  let (nanosecond, tokens) ← fractionOf tokens
  checkWidth 2 "time" "a two-digit hour (HH)" hour
  checkWidth 2 "time" "a two-digit minute (MM)" minute
  checkWidth 2 "time" "a two-digit second (SS)" second
  let time : Time := ⟨decimalNat hour, decimalNat minute, decimalNat second, nanosecond⟩
  checkRange 0 23 "time" "hour between 00 and 23" time.hour
  checkRange 0 59 "time" "minute between 00 and 59" time.minute
  checkRange 0 60 "time" "second between 00 and 60" time.second
  return (time, tokens)

/-- The distance from universal time that comes after a sign. -/
def distanceOf (tokens : List Token) : Except Misfit (Nat × List Token) := do
  let (hours, tokens) ← nextDigits "offset" "hour" tokens
  let tokens ← nextSign .colon "offset" "`:` (HH:MM)" tokens
  let (minutes, tokens) ← nextDigits "offset" "minute" tokens
  checkWidth 2 "offset" "a two-digit hour (HH)" hours
  checkWidth 2 "offset" "a two-digit minute (MM)" minutes
  checkRange 0 23 "offset" "hours between 00 and 23" (decimalNat hours)
  checkRange 0 59 "offset" "minutes between 00 and 59" (decimalNat minutes)
  return (60 * decimalNat hours + decimalNat minutes, tokens)

/-- The offset that comes next, if any. -/
def offsetOf : List Token → Except Misfit (Option Offset × List Token)
  | [] => .ok (none, [])
  | .letterZ :: tokens => .ok (some .zulu, tokens)
  | .plus :: tokens => do
    let (distance, tokens) ← distanceOf tokens
    return (some (.minutes distance), tokens)
  | .dash :: tokens => do
    let (distance, tokens) ← distanceOf tokens
    return (some (.minutes (-(distance : Int))), tokens)
  | _ => .error { part := "offset", wanted := some "`Z`, +OFFSET, -OFFSET" }

/-- The date, with a time if one follows, whose year has been read with the dash after it. -/
def ofDateTokens (year : List Char) (tokens : List Token) :
    Except Misfit (DateTime × List Token) := do
  let (date, tokens) ← dateOf year tokens
  match tokens with
  | [] => return (.ofDate date, [])
  | token :: tokens =>
    if token = .letterT ∨ token = .space then
      let (time, tokens) ← timeOf tokens
      let (offset, tokens) ← offsetOf tokens
      return (.ofBoth date time offset, tokens)
    else .error { part := "date-time", wanted := some "`T` between date and time" }

/-- The date or time at the beginning of some tokens. The sign after the first number tells
the one from the other. -/
def ofTokens (tokens : List Token) : Except Misfit (DateTime × List Token) := do
  let (number, rest) ← nextDigits "datetime" "year or hour" tokens
  match rest with
  | .dash :: rest => ofDateTokens number rest
  | .colon :: _ =>
    let (time, rest) ← timeOf tokens
    return (.ofTime time, rest)
  | _ => .error { wanted := some "`-` (YYYY-MM) or `:` (HH:MM)" }

/-- The date or time that a text is. -/
def ofText (s : String) : Except Misfit DateTime := do
  let (moment, rest) ← ofTokens (Token.ofText s.toList)
  if rest.isEmpty then return moment else .error {}

end DateTime

end Holdfast.Toml
