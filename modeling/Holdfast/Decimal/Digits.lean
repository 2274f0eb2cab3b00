/-!
# Decimal digits

Numbers written with the digits 0 to 9.
-/

namespace Holdfast

/-- The number written by decimal digits. -/
def decimalNat (cs : List Char) : Nat := cs.foldl (fun acc c => 10 * acc + (c.toNat - 48)) 0

/-- Whether a text is a number in decimal digits. -/
def isDecimal (cs : List Char) : Bool := !cs.isEmpty && cs.all Char.isDigit

/-- The sign in front of a number, and the number without it. -/
def splitSign : List Char → Bool × List Char
  | '-' :: rest => (true, rest)
  | '+' :: rest => (false, rest)
  | cs => (false, cs)

/-- The integer written by a sign, which may be missing, and digits. -/
def decimalInt? (cs : List Char) : Option Int :=
  let (negative, digits) := splitSign cs
  if isDecimal digits then
    let n := decimalNat digits
    some (if negative then -(n : Int) else n)
  else none

end Holdfast
