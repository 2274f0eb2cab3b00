import Holdfast.Bytes

/-!
# UTF-8

Encoding of text, and decoding that says where and how badly malformed input goes wrong.

* `Utf8.encode` writes a text as octets;
* `Utf8.decode` reads octets, or reports a `Utf8.Defect`: the length of the longest
  well-formed beginning and, unless the input merely stops inside a so far well-formed
  sequence, the number of octets that form the bad sequence.
-/

namespace Holdfast.Utf8

/-- The octets of one character. -/
def encodeChar (c : Char) : Bytes :=
  let n := c.toNat
  if n < 0x80 then [UInt8.ofNat n]
  else if n < 0x800 then [UInt8.ofNat (0xC0 + n / 64), UInt8.ofNat (0x80 + n % 64)]
  else if n < 0x10000 then
    [UInt8.ofNat (0xE0 + n / 4096), UInt8.ofNat (0x80 + n / 64 % 64),
      UInt8.ofNat (0x80 + n % 64)]
  else
    [UInt8.ofNat (0xF0 + n / 262144), UInt8.ofNat (0x80 + n / 4096 % 64),
      UInt8.ofNat (0x80 + n / 64 % 64), UInt8.ofNat (0x80 + n % 64)]

/-- The octets of a text. -/
def encode (s : String) : Bytes := s.toList.flatMap encodeChar

/-- Number of octets of a text. -/
def size (s : String) : Nat := (encode s).length

/-- What is wrong with octets that are not well-formed. -/
inductive Defect where
  /-- The `length` octets from `index` on begin no character. -/
  | bad (index length : Nat)
  /-- The input ends inside the sequence that starts at `index`. -/
  | cut (index : Nat)
  deriving DecidableEq, Repr

/-- Wording of a defect. -/
def Defect.message : Defect → String
  | .bad index length =>
    s!"invalid utf-8 sequence of {length} bytes from index {index}"
  | .cut index => s!"incomplete utf-8 byte sequence from index {index}"

/-- Whether an octet continues a sequence. -/
def isTail (b : UInt8) : Bool := 0x80 ≤ b.toNat && b.toNat < 0xC0

/-- The six low bits of a continuing octet. -/
def tailBits (b : UInt8) : Nat := b.toNat - 0x80

/-- Range of the second octet of a three-octet sequence, which excludes overlong forms
and surrogates. -/
def secondOfThree (a b : UInt8) : Bool :=
  if a.toNat = 0xE0 then 0xA0 ≤ b.toNat && b.toNat < 0xC0
  else if a.toNat = 0xED then 0x80 ≤ b.toNat && b.toNat < 0xA0
  else isTail b

/-- Range of the second octet of a four-octet sequence, which excludes overlong forms
and numbers above the last code point. -/
def secondOfFour (a b : UInt8) : Bool :=
  if a.toNat = 0xF0 then 0x90 ≤ b.toNat && b.toNat < 0xC0
  else if a.toNat = 0xF4 then 0x80 ≤ b.toNat && b.toNat < 0x90
  else isTail b

/-- Decode the octets that stand at `index`, adding to the characters read before
(in reverse). -/
def decodeOnto (done : List Char) (index : Nat) : Bytes → Except Defect (List Char)
  | [] => .ok done.reverse
  | a :: rest =>
    if a.toNat < 0x80 then decodeOnto (Char.ofNat a.toNat :: done) (index + 1) rest
    -- a continuing octet, or the beginning of an overlong form
    else if a.toNat < 0xC2 then .error (.bad index 1)
    else if a.toNat < 0xE0 then
      match rest with
      | [] => .error (.cut index)
      | b :: rest =>
        if isTail b then
          decodeOnto (Char.ofNat ((a.toNat - 0xC0) * 64 + tailBits b) :: done) (index + 2) rest
        else .error (.bad index 1)
    else if a.toNat < 0xF0 then
      match rest with
      | [] => .error (.cut index)
      | b :: rest =>
        if secondOfThree a b then
          match rest with
          | [] => .error (.cut index)
          | c :: rest =>
            if isTail c then
              decodeOnto
                (Char.ofNat (((a.toNat - 0xE0) * 64 + tailBits b) * 64 + tailBits c) :: done)
                (index + 3) rest
            else .error (.bad index 2)
        else .error (.bad index 1)
    else if a.toNat < 0xF5 then
      match rest with
      | [] => .error (.cut index)
      | b :: rest =>
        if secondOfFour a b then
          match rest with
          | [] => .error (.cut index)
          | c :: rest =>
            if isTail c then
              match rest with
              | [] => .error (.cut index)
              | d :: rest =>
                if isTail d then
                  decodeOnto
                    (Char.ofNat ((((a.toNat - 0xF0) * 64 + tailBits b) * 64 + tailBits c) * 64
                      + tailBits d) :: done)
                    (index + 4) rest
                else .error (.bad index 3)
            else .error (.bad index 2)
        else .error (.bad index 1)
    else .error (.bad index 1)

/-- The text written by well-formed octets. -/
def decode (bytes : Bytes) : Except Defect String :=
  (decodeOnto [] 0 bytes).map String.ofList

end Holdfast.Utf8
