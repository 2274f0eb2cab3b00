import Holdfast.Bytes
import Holdfast.Toml.Defect

/-!
# Quoted texts

Four sorts: with or without escapes, on one line or over several lines.

* `scanBasic` and `scanLiteral` read the sorts that stand on one line;
* `scanText` reads any of them.
-/

namespace Holdfast.Toml

/-- Whether a character is a blank inside a line. -/
def isBlankChar (c : Char) : Bool := c = ' ' || c = '\t'

/-- The text after its leading blanks. -/
def skipBlanks (cs : List Char) : List Char := cs.dropWhile isBlankChar

/-- The text after a line end, if it begins with one. -/
def lineEnd? : List Char → Option (List Char)
  | '\n' :: rest => some rest
  | '\r' :: '\n' :: rest => some rest
  | _ => none

/-- Whether a character may stand in a line: no control character but the tab. -/
def isLineChar (c : Char) : Bool := c = '\t' || (32 ≤ c.toNat && c.toNat ≠ 127)

/-- Whether a character stands for itself between two quotes. -/
def isPlain (quote : Char) (escapes : Bool) (c : Char) : Bool :=
  isLineChar c && c ≠ quote && !(escapes && c = '\\')

/-! ## Escapes -/

/-- The characters of the escapes with one letter. -/
def escapes : List (Char × Char) :=
  [('b', Char.ofNat 8), ('f', Char.ofNat 12), ('n', '\n'), ('r', '\r'), ('t', '\t'),
    ('\\', '\\'), ('"', '"')]

/-- What may follow a backslash, in writing. -/
def escapeNames : List String :=
  ["`b`", "`f`", "`n`", "`r`", "`t`", "`u`", "`U`", "`\\`", "`\"`"]

/-- Whether a number is the number of a character. -/
def isScalar (n : Nat) : Bool := n < 0xD800 || (0xE000 ≤ n && n < 0x110000)

/-- Read a character by its number in hexadecimal digits. -/
def scanCode (count : Nat) (cs : List Char) : Except Defect (Char × List Char) :=
  let digits := cs.take count
  match hexNat? digits with
  | some n =>
    if digits.length < count then stop cs
    else if isScalar n then .ok (Char.ofNat n, cs.drop count)
    else refuse cs "value is out of range"
  | none => stop cs

/-- The place one octet after the beginning of a text: behind its first character, or still
before it if it has more octets than one. -/
def octetOn : List Char → List Char
  | [] => []
  | c :: rest => if c.toNat < 0x80 then rest else c :: rest

/-- Read what follows a backslash. -/
def scanEscape : Scan Char
  | [] => stop []
  | c :: rest =>
    match escapes.lookup c with
    | some plain => .ok (plain, rest)
    | none =>
      settled <|
        if c = 'u' then named "unicode 4-digit hex code" (scanCode 4 rest)
        else if c = 'U' then named "unicode 8-digit hex code" (scanCode 8 rest)
        else escapeNames.foldl (fun outcome name => expecting name outcome)
          (named "escape sequence" (stop (octetOn (c :: rest))))

/-! ## On one line -/

/-- Read up to the closing quote, adding to the characters read before (in reverse). Every
step reads a character, so `fuel` need not exceed the length of the text. -/
def scanLine (quote : Char) (escaping : Bool) (done : List Char) (cs : List Char) :
    Nat → Except Defect (String × List Char)
  | 0 => settled (stop cs)
  | fuel + 1 =>
    match cs with
    | [] => settled (stop [])
    | c :: rest =>
      if c = quote then .ok (String.ofList done.reverse, rest)
      else if isPlain quote escaping c then scanLine quote escaping (c :: done) rest fuel
      else if escaping && c = '\\' then
        match scanEscape rest with
        | .ok (d, rest) => scanLine quote escaping (d :: done) rest fuel
        | .error d => if d.final then .error d else settled (stop cs)
      else settled (stop cs)

/-- Read a text with escapes on one line. -/
def scanBasic (cs : List Char) : Except Defect (String × List Char) := do
  let ((), rest) ← char '"' cs
  named "basic string" (scanLine '"' true [] rest (rest.length + 1))

/-- Read a text without escapes on one line. -/
def scanLiteral (cs : List Char) : Except Defect (String × List Char) :=
  named "literal string" do
    let ((), rest) ← char '\'' cs
    scanLine '\'' false [] rest (rest.length + 1)

/-! ## Over several lines -/

/-- The text after blanks and line ends. -/
def skipLines (cs : List Char) : Nat → List Char
  | 0 => cs
  | fuel + 1 =>
    match cs with
    | [] => []
    | c :: rest =>
      if isBlankChar c then skipLines rest fuel
      else match lineEnd? cs with
        | some rest => skipLines rest fuel
        | none => cs

/-- The text after a line end hidden by a backslash and the blanks after it, if what follows
the backslash is that. -/
def hiddenLineEnd? (cs : List Char) : Option (List Char) :=
  (lineEnd? (skipBlanks cs)).map fun rest => skipLines rest rest.length

/-- Whether nothing of a text can follow a quote inside it. Where there are escapes, any
character is tried. -/
def endsBlock (quote : Char) (escaping : Bool) (cs : List Char) : Bool :=
  match cs with
  | [] => true
  | c :: _ => !escaping && !isPlain quote escaping c && (lineEnd? cs).isNone

/-- Read up to the closing quotes, adding to the characters read before (in reverse). One or
two quotes may stand inside, also right before the closing ones; if what follows them cannot,
they are not taken either. -/
def scanBlock (quote : Char) (escaping : Bool) (done : List Char) (cs : List Char) :
    Nat → Except Defect (String × List Char)
  | 0 => settled (stop cs)
  | fuel + 1 =>
    match cs with
    | [] => settled (stop [])
    | c :: rest =>
      if c = quote then
        let run := cs.takeWhile (· = quote)
        if 3 ≤ run.length then
          let inside := min 2 (run.length - 3)
          .ok (String.ofList (List.replicate inside quote ++ done).reverse,
            cs.drop (inside + 3))
        else
          let rest := cs.drop run.length
          if endsBlock quote escaping rest then settled (stop cs)
          else scanBlock quote escaping (run ++ done) rest fuel
      else if isPlain quote escaping c then scanBlock quote escaping (c :: done) rest fuel
      else match lineEnd? cs with
        | some rest => scanBlock quote escaping ('\n' :: done) rest fuel
        | none =>
          if escaping && c = '\\' then
            match hiddenLineEnd? rest with
            | some rest => scanBlock quote escaping done rest fuel
            | none =>
              match scanEscape rest with
              | .ok (d, rest) => scanBlock quote escaping (d :: done) rest fuel
              | .error d => if d.final then .error d else settled (stop cs)
          else settled (stop cs)

/-- Read a text over several lines; a line end right after the opening quotes is dropped. -/
def scanMultiline (quote : Char) (escaping : Bool) (label : String) (cs : List Char) :
    Except Defect (String × List Char) :=
  named label do
    let ((), rest) ← word (String.ofList [quote, quote, quote]) cs
    let rest := (lineEnd? rest).getD rest
    scanBlock quote escaping [] rest (rest.length + 1)

/-- Read a quoted text of any sort. -/
def scanText (cs : List Char) : Except Defect (String × List Char) :=
  orElse (scanMultiline '"' true "multiline basic string" cs) fun () =>
    orElse (scanBasic cs) fun () =>
      orElse (scanMultiline '\'' false "multiline literal string" cs) fun () =>
        scanLiteral cs

end Holdfast.Toml
