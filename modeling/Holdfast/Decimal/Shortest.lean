import Holdfast.Decimal.Binary

/-!
# The shortest decimal

The decimal with the fewest digits that reads back as a given number; among several, the one
nearest to it.

* `Binary64.shortest` finds it;
* `Binary64.text` writes it out, without an exponent.
-/

namespace Holdfast.Binary64

/-- Whether a positive quotient is at least `10 ^ k`. -/
def atLeastPower (num den : Nat) (k : Int) : Bool :=
  if 0 ≤ k then den * Nat.pow 10 k.toNat ≤ num else den ≤ num * Nat.pow 10 (-k).toNat

/-- The `k` with `10 ^ k ≤ num / den < 10 ^ (k + 1)`, given a guess that is off by one at
most. -/
def decade (num den : Nat) (guess : Int) : Int :=
  if !atLeastPower num den guess then guess - 1
  else if atLeastPower num den (guess + 1) then guess + 1
  else guess

/-- The greatest multiple of `10 ^ power` that is not above a quotient, in such multiples,
and whether the next one is nearer or equally near. -/
def below (num den : Nat) (power : Int) : Nat × Bool :=
  let (n, d) :=
    if 0 ≤ power then (num, den * Nat.pow 10 power.toNat)
    else (num * Nat.pow 10 (-power).toNat, den)
  (n / d, d ≤ 2 * (n % d))

/-- A decimal `digits * 10 ^ power`. -/
structure Digits where
  digits : Nat
  power : Int
  deriving DecidableEq, Repr

/-- The decimal of a given number of digits that reads back as `x`, if there is one. -/
def withDigits? (x : Binary64) (num den : Nat) (k : Int) (count : Nat) : Option Digits :=
  let power := k - count + 1
  let (low, nearerUp) := below num den power
  let lowHits : Bool := ofDecimal false low power = x
  let highHits : Bool := ofDecimal false (low + 1) power = x
  if highHits && (nearerUp || !lowHits) then some ⟨low + 1, power⟩
  else if lowHits then some ⟨low, power⟩
  else none

/-- The shortest decimal that reads back as a positive number. -/
def shortest (mantissa : Nat) (exponent : Int) : Digits :=
  let (num, den) := scaled mantissa 1 (-exponent)
  -- the decimal logarithm of two is a little above 0.30102
  let guess := ((Nat.log2 mantissa : Int) + exponent) * 30103 / 100000
  let k := decade num den guess
  let x := Binary64.finite false mantissa exponent
  ((List.range' 1 17).findSome? (withDigits? x num den k)).getD ⟨mantissa, 0⟩

/-- Cut the zeros off the end of a decimal. -/
def trimZeros (d : Digits) : Nat → Digits
  | 0 => d
  | fuel + 1 =>
    if d.digits ≠ 0 ∧ d.digits % 10 = 0 then trimZeros ⟨d.digits / 10, d.power + 1⟩ fuel else d

/-- A decimal without an exponent. -/
def positional (d : Digits) : String :=
  let d := trimZeros d 20
  let digits := Nat.toDigits 10 d.digits
  if 0 ≤ d.power then String.ofList (digits ++ List.replicate d.power.toNat '0')
  else
    let places := (-d.power).toNat
    if places < digits.length then
      String.ofList (digits.take (digits.length - places)) ++ "." ++
        String.ofList (digits.drop (digits.length - places))
    else "0." ++ String.ofList (List.replicate (places - digits.length) '0' ++ digits)

/-- A number in writing. -/
def text : Binary64 → String
  | .nan => "NaN"
  | .infinite negative => if negative then "-inf" else "inf"
  | .finite negative m e =>
    (if negative then "-" else "") ++ (if m = 0 then "0" else positional (shortest m e))

end Holdfast.Binary64
