import Holdfast.Bytes
import Holdfast.Decimal.Binary
import Holdfast.Toml.Defect

/-!
# Numbers of a TOML text

Integers are signed 64-bit words, in decimal or, without a sign, in another base; other
numbers are in double precision. Single underscores may stand between digits.

* `scanInteger` and `scanReal` read them.
-/

namespace Holdfast.Toml

/-- Read digits up to the first character that is none, with single underscores between
them. -/
def scanDigits (isDigit : Char → Bool) : List Char → Except Defect (List Char × List Char)
  | [] => .ok ([], [])
  | c :: rest =>
    if isDigit c then do
      let (digits, rest) ← scanDigits isDigit rest
      return (c :: digits, rest)
    else if c = '_' then
      match rest with
      | d :: others =>
        if isDigit d then scanDigits isDigit (d :: others)
        else settled (expecting "digit" (stop rest))
      | [] => settled (expecting "digit" (stop rest))
    else .ok ([], c :: rest)

/-- Read a digit and the digits after it. -/
def scanDigits1 (isDigit : Char → Bool) : Scan (List Char)
  | [] => stop []
  | c :: rest =>
    if isDigit c then do
      let (digits, rest) ← scanDigits isDigit rest
      return (c :: digits, rest)
    else stop (c :: rest)

/-- Read a decimal integer: its sign and its digits. A zero stands alone. -/
def scanSigned (cs : List Char) : Except Defect ((Bool × List Char) × List Char) :=
  named "integer" <|
    let (negative, rest) := splitSign cs
    match rest with
    -- digits after a zero are left for the line to refuse
    | '0' :: rest => .ok ((negative, ['0']), rest)
    | rest => do
      let (digits, rest) ← scanDigits1 Char.isDigit rest
      return ((negative, digits), rest)

/-- The value of a signed 64-bit word, unless it is out of range. -/
def signedWord (cs : List Char) (i : Int) (rest : List Char) : Except Defect (Int × List Char) :=
  if i < minI64 then settled (refuse cs "number too small to fit in target type")
  else if maxI64 < i then settled (refuse cs "number too large to fit in target type")
  else .ok (i, rest)

/-- Read an integer in another base, after its two leading characters. -/
def scanBased (label : String) (base : Nat) (cs : List Char) : Except Defect (Int × List Char) :=
  settled do
    let isDigit (c : Char) : Bool := match hexValue? c with
      | some v => v < base
      | none => false
    let (digits, rest) ← named label (scanDigits1 isDigit (cs.drop 2))
    let n := digits.foldl (fun acc c => base * acc + (hexValue? c).getD 0) 0
    signedWord cs n rest

/-- Read an integer. -/
def scanInteger (cs : List Char) : Except Defect (Int × List Char) :=
  match cs with
  | '0' :: 'x' :: _ => scanBased "hexadecimal integer" 16 cs
  | '0' :: 'o' :: _ => scanBased "octal integer" 8 cs
  | '0' :: 'b' :: _ => scanBased "binary integer" 2 cs
  | _ => do
    let ((negative, digits), rest) ← scanSigned cs
    let n : Int := decimalNat digits
    signedWord cs (if negative then -n else n) rest

/-- Read an exponent. -/
def scanExponent : Scan Int
  | [] => stop []
  | c :: rest =>
    if c = 'e' ∨ c = 'E' then settled do
      let (negative, rest) := splitSign rest
      let (digits, rest) ← scanDigits1 Char.isDigit rest
      let n : Int := decimalNat digits
      return (if negative then -n else n, rest)
    else stop (c :: rest)

/-- Read a point and the digits after it. -/
def scanPoint (cs : List Char) : Except Defect (List Char × List Char) := do
  let ((), rest) ← char '.' cs
  settled (expecting "digit" (scanDigits1 Char.isDigit rest))

/-- Read what makes a number more than an integer: an exponent, or a point with digits and
perhaps an exponent. -/
def scanTail (cs : List Char) : Except Defect ((List Char × Int) × List Char) :=
  orElse (do let (e, rest) ← scanExponent cs; return (([], e), rest)) fun () => do
    let (fraction, rest) ← scanPoint cs
    let (e, rest) ← optional rest scanExponent
    return ((fraction, e.getD 0), rest)

/-- Read a number that is not an integer. One that is too large for double precision is
refused. -/
def scanDecimal (cs : List Char) : Except Defect (Binary64 × List Char) := do
  let ((negative, whole), rest) ← scanSigned cs
  let ((fraction, e), rest) ← scanTail rest
  let x := Binary64.ofParts negative whole fraction e
  if x = .infinite false then settled (stop cs) else return (x, rest)

/-- Read infinity, or what is no number, with a sign or without. -/
def scanSpecial (cs : List Char) : Except Defect (Binary64 × List Char) :=
  let (negative, rest) := splitSign cs
  orElse (do let ((), rest) ← word "inf" rest; return (.infinite negative, rest)) fun () => do
    let ((), rest) ← word "nan" rest
    return (.nan, rest)

/-- Read a number in double precision. -/
def scanReal (cs : List Char) : Except Defect (Binary64 × List Char) :=
  named "floating-point number" (orElse (scanDecimal cs) fun () => scanSpecial cs)

end Holdfast.Toml
