import Holdfast.Bytes
import Holdfast.Decimal.Digits
import Holdfast.Document

/-!
# Reading documents

The notation of JSON, read from a text.

* `Document.parse?` reads a whole text; it fails unless the text is one value and blanks;
* a number is an integer only when it is written as one: no point, no exponent, no sign
  before a zero, and a value that fits a 64-bit word;
* of several fields of one name in an object the last one counts.
-/

namespace Holdfast.Document

/-- Whether a character may stand between the parts of a document. -/
def isGap (c : Char) : Bool := c = ' ' || c = '\n' || c = '\r' || c = '\t'

/-- The text after its leading gap. -/
def skipGap (cs : List Char) : List Char := cs.dropWhile isGap

/-! ## Texts -/

/-- The character of a one-letter escape. -/
def unescape? : Char → Option Char
  | '"' => some '"'
  | '\\' => some '\\'
  | '/' => some '/'
  | 'b' => some (Char.ofNat 8)
  | 'f' => some (Char.ofNat 12)
  | 'n' => some '\n'
  | 'r' => some '\r'
  | 't' => some '\t'
  | _ => none

/-- Whether a number is the first half of a pair that stands for one character. -/
def isHighHalf (n : Nat) : Bool := 0xD800 ≤ n && n < 0xDC00

/-- Whether a number is the second half of such a pair. -/
def isLowHalf (n : Nat) : Bool := 0xDC00 ≤ n && n < 0xE000

/-- Read the rest of a quoted text, adding to the characters read before (in reverse).
`high` is the first half of a pair whose second half has to come next. -/
def textOnto (done : List Char) (high : Option Nat) :
    List Char → Option (List Char × List Char)
  | [] => none
  | '\\' :: 'u' :: a :: b :: c :: d :: rest =>
    match hexNat? [a, b, c, d], high with
    | none, _ => none
    | some n, some h =>
      if isLowHalf n then
        textOnto (Char.ofNat (0x10000 + (h - 0xD800) * 0x400 + (n - 0xDC00)) :: done) none rest
      else none
    | some n, none =>
      -- the character is complete with the second half
      if isHighHalf n then textOnto done (some n) rest
      else if isLowHalf n then none
      else textOnto (Char.ofNat n :: done) none rest
  | '\\' :: c :: rest =>
    match high, unescape? c with
    | none, some c => textOnto (c :: done) none rest
    | _, _ => none
  | c :: rest =>
    if high.isSome then none
    else if c = '"' then some (done.reverse, rest)
    else if c = '\\' ∨ c.toNat < 32 then none
    else textOnto (c :: done) none rest

/-! ## Numbers -/

/-- The text after a sequence of digits, unless there are none. -/
def skipDigits? (cs : List Char) : Option (List Char) :=
  match cs with
  | c :: rest => if c.isDigit then some (rest.dropWhile Char.isDigit) else none
  | [] => none

/-- The text after a point and digits, if it begins with a point. -/
def skipFraction? : List Char → Option (List Char)
  | '.' :: rest => skipDigits? rest
  | cs => some cs

/-- The text after an exponent, if it begins with one. -/
def skipExponent? : List Char → Option (List Char)
  | [] => some []
  | c :: rest =>
    if c = 'e' ∨ c = 'E' then
      match rest with
      | sign :: digits =>
        if sign = '+' ∨ sign = '-' then skipDigits? digits else skipDigits? rest
      | [] => none
    else some (c :: rest)

/-- The number written by a sign and digits. -/
def integer (negative : Bool) (digits : List Char) : Document :=
  let n := decimalNat digits
  if negative then if n = 0 ∨ minI64 > -(n : Int) then .real else .int (-n)
  else if n ≤ maxU64 then .int n else .real

/-- Read a number without its sign. -/
def unsigned? (negative : Bool) (cs : List Char) : Option (Document × List Char) := do
  let digits := cs.takeWhile Char.isDigit
  let rest := cs.dropWhile Char.isDigit
  if digits.isEmpty || (digits.head? = some '0' && 1 < digits.length) then none
  else
    let afterPoint ← skipFraction? rest
    let afterAll ← skipExponent? afterPoint
    return (if afterAll.length = rest.length then integer negative digits else .real, afterAll)

/-- Read a number. -/
def number? : List Char → Option (Document × List Char)
  | '-' :: rest => unsigned? true rest
  | cs => unsigned? false cs

/-! ## Values -/

/-- Give a field a value, in place of an earlier one. -/
def setField (fields : List (String × Document)) (name : String) (value : Document) :
    List (String × Document) :=
  fields.filter (fun field => field.1 ≠ name) ++ [(name, value)]

/-- The text after a word. -/
def word? (word : String) (cs : List Char) : Option (List Char) :=
  if word.toList.isPrefixOf cs then some (cs.drop word.length) else none

mutual

/-- Read a value. Every call reads a character at least, so `fuel` need not exceed the
length of the text. -/
def value? (cs : List Char) : Nat → Option (Document × List Char)
  | 0 => none
  | fuel + 1 =>
    match skipGap cs with
    | [] => none
    | '"' :: rest => (textOnto [] none rest).map fun (s, rest) => (.text (String.ofList s), rest)
    | '[' :: rest =>
      match skipGap rest with
      | ']' :: rest => some (.list [], rest)
      | rest => items? [] rest fuel
    | '\x7b' :: rest =>
      match skipGap rest with
      | '\x7d' :: rest => some (.object [], rest)
      | rest => fields? [] rest fuel
    | c :: rest =>
      if c = 'n' then (word? "ull" rest).map (.null, ·)
      else if c = 't' then (word? "rue" rest).map (.bool true, ·)
      else if c = 'f' then (word? "alse" rest).map (.bool false, ·)
      else number? (c :: rest)

/-- Read items up to the closing bracket, adding to those read before (in reverse). -/
def items? (done : List Document) (cs : List Char) : Nat → Option (Document × List Char)
  | 0 => none
  | fuel + 1 =>
    match value? cs fuel with
    | none => none
    | some (item, rest) =>
      match skipGap rest with
      | ',' :: rest => items? (item :: done) rest fuel
      | ']' :: rest => some (.list (item :: done).reverse, rest)
      | _ => none

/-- Read fields up to the closing brace, adding to those read before. -/
def fields? (done : List (String × Document)) (cs : List Char) :
    Nat → Option (Document × List Char)
  | 0 => none
  | fuel + 1 =>
    match skipGap cs with
    | '"' :: rest =>
      match textOnto [] none rest with
      | none => none
      | some (name, rest) =>
        match skipGap rest with
        | ':' :: rest =>
          match value? rest fuel with
          | none => none
          | some (value, rest) =>
            let done := setField done (String.ofList name) value
            match skipGap rest with
            | ',' :: rest => fields? done rest fuel
            | '\x7d' :: rest => some (.object done, rest)
            | _ => none
        | _ => none
    | _ => none

end

/-- Read a whole text. -/
def parse? (s : String) : Option Document :=
  let cs := s.toList
  match value? cs (cs.length + 1) with
  | some (d, rest) => if (skipGap rest).isEmpty then some d else none
  | none => none

end Holdfast.Document
