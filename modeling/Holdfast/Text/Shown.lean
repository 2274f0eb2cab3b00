import Holdfast.Text.Unseen

/-!
# Texts for a reader

How a text is shown where it is named rather than used.

* `quoted` puts it in double quotes, so that every character can be told from its look;
* `tamed` takes the power over a terminal from it.
-/

namespace Holdfast.Text

/-- The number of a character in braces. -/
def numbered (c : Char) : String :=
  "\\u\x7b" ++ String.ofList (Nat.toDigits 16 c.toNat) ++ "\x7d"

/-- The characters that have an escape with one letter inside quotes. -/
def letterEscapes : List (Char × String) :=
  [(Char.ofNat 0, "\\0"), ('\t', "\\t"), ('\n', "\\n"), ('\r', "\\r"), ('"', "\\\""),
    ('\\', "\\\\")]

/-- A character inside quotes; what does not show by itself is given by its number. -/
def quotedChar (c : Char) : String :=
  match letterEscapes.lookup c with
  | some escape => escape
  | none => if isUnseen c then numbered c else String.singleton c

/-- A text in double quotes. -/
def quoted (s : String) : String := "\"" ++ String.join (s.toList.map quotedChar) ++ "\""

/-- The controls of a terminal that have one octet, with what stands for them. -/
def controlEscapes : List (Char × String) :=
  [('\x1b', "\\x1b"), ('\x07', "\\x07"), ('\x08', "\\x08"), ('\x0c', "\\x0c"), ('\x7f', "\\x7f")]

/-- A character without power over a terminal. -/
def tamedChar (c : Char) : String :=
  match controlEscapes.lookup c with
  | some escape => escape
  | none => if 0x80 ≤ c.toNat && c.toNat ≤ 0x9F then numbered c else String.singleton c

/-- A text with the controls of a terminal in writing. Line ends and tabs stay. -/
def tamed (s : String) : String := String.join (s.toList.map tamedChar)

end Holdfast.Text
