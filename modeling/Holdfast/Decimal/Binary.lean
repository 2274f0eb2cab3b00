import Holdfast.Bytes
import Holdfast.Decimal.Digits

/-!
# Numbers in double precision

A finite number is `mantissa * 2 ^ exponent` with a mantissa below `2 ^ 53` and an exponent
from -1074 to 971. The sign is kept apart, so that zero has one too.

* `Binary64.ofDecimal` is the number nearest to a decimal, a tie going to the even mantissa;
* `Binary64.toWord` is the nearest unsigned 64-bit word, a half going up.
-/

namespace Holdfast

/-- A number in double precision. -/
inductive Binary64 where
  | nan
  | infinite (negative : Bool)
  | finite (negative : Bool) (mantissa : Nat) (exponent : Int)
  deriving DecidableEq, Repr

namespace Binary64

/-- The least exponent. -/
def minExponent : Int := -1074

/-- The largest exponent. -/
def maxExponent : Int := 971

/-- A quotient rounded to the nearest integer, a tie going to the even one. -/
def roundQuotient (num den : Nat) : Nat :=
  let q := num / den
  let twice := 2 * (num % den)
  if den < twice ∨ (twice = den ∧ q % 2 = 1) then q + 1 else q

/-- The quotient `num / (den * 2 ^ e)` as a pair. -/
def scaled (num den : Nat) (e : Int) : Nat × Nat :=
  if 0 ≤ e then (num, den * Nat.pow 2 e.toNat) else (num * Nat.pow 2 (-e).toNat, den)

/-- A positive quotient at a given exponent; the next exponent is taken when the mantissa
would be too large. -/
def atExponent (negative : Bool) (num den : Nat) (e : Int) : Binary64 :=
  let (n, d) := scaled num den e
  let m := roundQuotient n d
  -- rounding may carry into a new binary place
  let (m, e) := if m = Nat.pow 2 53 then (Nat.pow 2 52, e + 1) else (m, e)
  if maxExponent < e then .infinite negative else .finite negative m e

/-- The number nearest to a quotient. -/
def ofQuotient (negative : Bool) (num den : Nat) : Binary64 :=
  if num = 0 then .finite negative 0 minExponent
  else
    -- the logarithms fix the exponent up to one
    let e := max minExponent ((Nat.log2 num : Int) - Nat.log2 den - 53)
    let (n, d) := scaled num den e
    atExponent negative num den (if n / d < Nat.pow 2 53 then e else e + 1)

/-- The number nearest to `digits * 10 ^ power`. -/
def ofDecimal (negative : Bool) (digits : Nat) (power : Int) : Binary64 :=
  if digits = 0 then .finite negative 0 minExponent
  else if 310 < power then .infinite negative
  else if (Nat.log2 digits / 3 : Int) + power < -330 then .finite negative 0 minExponent
  else if 0 ≤ power then ofQuotient negative (digits * Nat.pow 10 power.toNat) 1
  else ofQuotient negative digits (Nat.pow 10 (-power).toNat)

/-- The number nearest to a decimal given by its digits before and after the point and by
its power of ten. -/
def ofParts (negative : Bool) (whole fraction : List Char) (power : Int) : Binary64 :=
  ofDecimal negative (decimalNat (whole ++ fraction)) (power - fraction.length)

/-- The nearest unsigned 64-bit word, a half going up. What is too small becomes zero, what
is too large the largest word, and what is no number zero. -/
def toWord : Binary64 → Nat
  | .nan => 0
  | .infinite negative => if negative then 0 else maxU64
  | .finite negative m e =>
    if negative then 0
    else
      let (n, d) := scaled m 1 (-e)
      min maxU64 ((2 * n + d) / (2 * d))

/-! ## Reading -/

/-- The exponent after the letter that announces it, or zero when the text ends. -/
def exponent? : List Char → Option Int
  | [] => some 0
  | c :: rest => if c = 'e' ∨ c = 'E' then decimalInt? rest else none

/-- Read a number without its sign: digits with a point somewhere, then an exponent. -/
def unsigned? (negative : Bool) (cs : List Char) : Option Binary64 :=
  let whole := cs.takeWhile Char.isDigit
  let afterWhole := cs.dropWhile Char.isDigit
  let (fraction, rest) := match afterWhole with
    | '.' :: rest => (rest.takeWhile Char.isDigit, rest.dropWhile Char.isDigit)
    | rest => ([], rest)
  if whole.isEmpty && fraction.isEmpty then none
  else (exponent? rest).map (ofParts negative whole fraction)

/-- Read a number; the words for infinity and for no number may have capitals. -/
def ofText? (s : String) : Option Binary64 :=
  let (negative, cs) := splitSign s.toList
  let word := String.ofList (cs.map Char.toLower)
  if word = "inf" ∨ word = "infinity" then some (.infinite negative)
  else if word = "nan" then some .nan
  else unsigned? negative cs

end Binary64

end Holdfast
