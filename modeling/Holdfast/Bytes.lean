/-!
# Bytes and big-endian words

File contents are lists of octets. Integers in them are fixed-width words, most
significant octet first; signed ones are in two's complement.

* `beBytes`, `beNat` write and read an unsigned word;
* `wordOfInt`, `intOfWord` pass between a signed value and its word;
* `hexOfBytes`, `bytesOfHex` write and read octets as text;
* `satAdd`, `wrapI64`, `wrapU64` are the arithmetic of 64-bit words.
-/

namespace Holdfast

/-- The content of a file or of a buffer. -/
abbrev Bytes := List UInt8

/-- The last `width` octets of `n`, most significant first. -/
def beBytes : Nat → Nat → Bytes
  | 0, _ => []
  | width + 1, n => UInt8.ofNat (n / Nat.pow 256 width) :: beBytes width n

/-- The number written by octets, most significant first. -/
def beNat (bytes : Bytes) : Nat :=
  bytes.foldl (fun acc b => acc * 256 + b.toNat) 0

@[simp] theorem length_beBytes (width n : Nat) : (beBytes width n).length = width := by
  induction width with
  | zero => rfl
  | succ width ih => simp [beBytes, ih]

/-- The word of `width` octets that stands for `i` in two's complement. -/
def wordOfInt (width : Nat) (i : Int) : Nat := (i % (Nat.pow 256 width : Nat)).toNat

/-- The signed value of a word of `width` octets. -/
def intOfWord (width : Nat) (n : Nat) : Int := Int.bmod n (Nat.pow 256 width)

/-- Hexadecimal digits of a number, at least `width` of them. -/
def hexDigits (width n : Nat) : List Char :=
  let digits := Nat.toDigits 16 n
  List.replicate (width - digits.length) '0' ++ digits

/-- The value of a hexadecimal digit. -/
def hexValue? (c : Char) : Option Nat :=
  if c.isDigit then some (c.toNat - 48)
  else if 'a' ≤ c ∧ c ≤ 'f' then some (c.toNat - 87)
  else if 'A' ≤ c ∧ c ≤ 'F' then some (c.toNat - 55)
  else none

/-- The number written by hexadecimal digits. -/
def hexNat? (cs : List Char) : Option Nat :=
  cs.foldl (fun acc c => do return 16 * (← acc) + (← hexValue? c)) (some 0)

/-- Octets in writing, two digits each. -/
def hexOfBytes (bytes : Bytes) : String :=
  String.ofList (bytes.flatMap fun b => hexDigits 2 b.toNat)

/-- The octets written by pairs of digits, up to the first pair that is none. -/
def bytesOfHex : List Char → Bytes
  | a :: b :: rest =>
    match hexNat? [a, b] with
    | some n => UInt8.ofNat n :: bytesOfHex rest
    | none => []
  | _ => []

/-- Largest value of a signed 64-bit word. -/
def maxI64 : Int := 9223372036854775807

/-- Smallest value of a signed 64-bit word. -/
def minI64 : Int := -9223372036854775808

/-- Largest value of an unsigned 64-bit word. -/
def maxU64 : Nat := 18446744073709551615

/-- Addition of signed 64-bit words, stopping at the ends of the range. -/
def satAdd (a b : Int) : Int := max minI64 (min maxI64 (a + b))

/-- The signed 64-bit word congruent to `i`. -/
def wrapI64 (i : Int) : Int := Int.bmod i (maxU64 + 1)

/-- The unsigned 64-bit word congruent to `n`. -/
def wrapU64 (n : Nat) : Nat := n % (maxU64 + 1)

end Holdfast
