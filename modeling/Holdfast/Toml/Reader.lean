import Holdfast.Toml.Marked
import Holdfast.Toml.Number
import Holdfast.Toml.Quoted
import Holdfast.Toml.Table

/-!
# Reading TOML

A document is a sequence of lines: keys with values, headers of tables, comments.

* `scanValue` reads a value, `scanKey` a key;
* `read` reads a whole document.

Tables and lists may not be nested too deep, and keys not have too many parts; `maxDepth`
is the bound for both.
-/

namespace Holdfast.Toml

/-- The depth at which nesting is refused. -/
def maxDepth : Nat := 80

/-- Wording of the refusal. -/
def tooDeep : String := "recursion limit exceeded"

/-- A character in quotes, for a list of what could have stood at a place. -/
def ticked (s : String) : String := "`" ++ s ++ "`"

/-! ## Between the parts -/

/-- The text after a comment, if it begins with one. -/
def skipComment (cs : List Char) : List Char :=
  match cs with
  | '#' :: rest => rest.dropWhile isLineChar
  | cs => cs

/-- Read the rest of a line: blanks and a comment. -/
def scanLineRest (cs : List Char) : Except Defect (Unit × List Char) :=
  match skipComment (skipBlanks cs) with
  | [] => .ok ((), [])
  | cs =>
    match lineEnd? cs with
    | some rest => .ok ((), rest)
    | none => stop cs

/-- Read the rest of a line that has to end here. -/
def scanLineEnd (cs : List Char) : Except Defect (Unit × List Char) :=
  expecting (ticked "#") (expecting "newline" (scanLineRest cs))

/-- Read blanks, line ends and comments. Every step reads a character, so `fuel` need not
exceed the length of the text. -/
def scanGap (cs : List Char) : Nat → Except Defect (Unit × List Char)
  | 0 => .ok ((), cs)
  | fuel + 1 =>
    let cs := skipBlanks cs
    match cs with
    | [] => .ok ((), [])
    | c :: _ =>
      if c = '#' ∨ c = '\n' ∨ c = '\r' then
        match skipComment cs with
        | '\r' :: rest =>
          match rest with
          | '\n' :: rest => scanGap rest fuel
          | rest => stop rest
        | '\n' :: rest => scanGap rest fuel
        | rest => stop rest
      else .ok ((), cs)

/-! ## Keys -/

/-- Whether a character may stand in a key without quotes. -/
def isKeyChar (c : Char) : Bool :=
  c.isDigit || ('a' ≤ c && c ≤ 'z') || ('A' ≤ c && c ≤ 'Z') || c = '-' || c = '_'

/-- Read one part of a key. -/
def scanSimpleKey (cs : List Char) : Except Defect (String × List Char) :=
  match cs with
  | [] => stop []
  | c :: _ =>
    if c = '"' then scanBasic cs
    else if c = '\'' then scanLiteral cs
    else if isKeyChar c then
      .ok (String.ofList (cs.takeWhile isKeyChar), cs.dropWhile isKeyChar)
    else stop cs

/-- Read one part of a key with the blanks around it. -/
def scanKeyPart (cs : List Char) : Except Defect (Key × List Char) := do
  let cs := skipBlanks cs
  let (name, rest) ← scanSimpleKey cs
  return (⟨name, .between cs rest⟩, skipBlanks rest)

/-- Read the parts of a key that follow a point. A point that no part follows is left. -/
def scanKeyParts (cs : List Char) : Nat → Except Defect (List Key × List Char)
  | 0 => .ok ([], cs)
  | fuel + 1 =>
    match cs with
    | '.' :: rest =>
      match scanKeyPart rest with
      | .ok (part, rest) => do
        let (parts, rest) ← scanKeyParts rest fuel
        return (part :: parts, rest)
      | .error d => if d.final then .error d else .ok ([], cs)
    | cs => .ok ([], cs)

/-- Read a key: the parts before its last one, and that. -/
def scanKey (cs : List Char) : Except Defect ((List Key × Key) × List Char) := do
  let ((first, others), rest) ← named "key" do
    let (first, rest) ← scanKeyPart cs
    let (others, rest) ← scanKeyParts rest rest.length
    return ((first, others), rest)
  if maxDepth ≤ others.length + 1 then refuse cs tooDeep
  else return (((first :: others).dropLast, others.getLastD first), rest)

/-- Read the sign between a key and its value. -/
def scanEquals (cs : List Char) : Except Defect (Unit × List Char) :=
  expecting (ticked "=") (expecting (ticked ".") (char '=' cs))

/-! ## Values -/

/-- Say that a value should have been a text in quotes. -/
def wantText {α : Type} (outcome : Except Defect α) : Except Defect α :=
  expecting (ticked "'") (expecting (ticked "\"") (named "string" outcome))

/-- Read a word that is a value. -/
def scanWord (w : String) (value : Scalar) (cs : List Char) :
    Except Defect (Scalar × List Char) :=
  wantText do
    let ((), rest) ← word w cs
    return (value, rest)

/-- Read a date, a time or a number. -/
def scanNumber (cs : List Char) : Except Defect (Scalar × List Char) :=
  orElse (do let (t, rest) ← DateTime.scan cs; return (.moment t, rest)) fun () =>
    orElse (do let (x, rest) ← scanReal cs; return (.real x, rest)) fun () => do
      let (i, rest) ← scanInteger cs
      return (.int i, rest)

/-- Read a value that is neither a list nor a table. Only the words for truth values let no
other reading be tried. -/
def scanScalar (cs : List Char) : Except Defect (Scalar × List Char) :=
  match cs with
  | [] => stop []
  | c :: _ =>
    if c = '"' ∨ c = '\'' then do
      let (s, rest) ← scanText cs
      return (.text s, rest)
    else if c = '+' ∨ c = '-' ∨ c.isDigit then scanNumber cs
    else if c = '_' then
      expecting "leading digit" do
        let (i, rest) ← scanInteger cs
        return (.int i, rest)
    else if c = '.' then
      expecting "leading digit" do
        let (x, rest) ← scanReal cs
        return (.real x, rest)
    else if c = 't' then settled (scanWord "true" (.bool true) cs)
    else if c = 'f' then settled (scanWord "false" (.bool false) cs)
    else if c = 'i' then scanWord "inf" (.real (.infinite false)) cs
    else if c = 'n' then scanWord "nan" (.real .nan) cs
    else wantText (stop cs)

/-- Read the end of a list that begins at `start`. -/
def endList (start : List Char) (done : List Value) (cs : List Char) :
    Except Defect (Value × List Char) :=
  settled do
    let ((), cs) ← scanGap cs cs.length
    let ((), rest) ← expecting (ticked "]") (named "array" (char ']' cs))
    return (.list (.between start rest) done.reverse, rest)

/-- Read the end of a table in braces that begins at `start`. -/
def endTable (start : List Char) (done : List ((List Key × Key) × Value))
    (cs : List Char) : Except Defect (Value × List Char) :=
  settled do
    let entries ←
      match done.reverse.foldlM (fun entries pair =>
          putKey .inline none entries pair.1.1 pair.1.2 pair.2) [] with
      | .ok entries => .ok entries
      | .error clash => refuse start.tail clash.message
    let ((), rest) ← expecting (ticked "\x7d") (named "inline table" (char '\x7d' (skipBlanks cs)))
    return (.table .inline (.between start rest) entries, rest)

mutual

/-- Read a value, `depth` levels deep. Every call but those that end at once reads a
character, so `fuel` need not exceed twice the length of the text. -/
def scanValue (depth : Nat) (cs : List Char) : Nat → Except Defect (Value × List Char)
  | 0 => stop cs
  | fuel + 1 =>
    match cs with
    | '[' :: rest =>
      if maxDepth ≤ depth + 1 then settled (refuse cs tooDeep)
      else scanItems (depth + 1) cs [] rest fuel
    | '\x7b' :: rest =>
      if maxDepth ≤ depth + 1 then settled (refuse cs tooDeep)
      else scanPairs (depth + 1) cs [] rest fuel
    | cs => do
      let (value, rest) ← scanScalar cs
      return (.scalar (.between cs rest) value, rest)

/-- Read the items and the end of a list that begins at `start`, adding to the items read
before (in reverse). -/
def scanItems (depth : Nat) (start : List Char) (done : List Value) (cs : List Char) :
    Nat → Except Defect (Value × List Char)
  | 0 => stop cs
  | fuel + 1 =>
    let item : Except Defect (Value × List Char) := do
      let ((), rest) ← scanGap cs cs.length
      let (value, rest) ← scanValue depth rest fuel
      let ((), rest) ← scanGap rest rest.length
      return (value, rest)
    match item with
    | .ok (value, ',' :: rest) => scanItems depth start (value :: done) rest fuel
    | .ok (value, rest) => endList start (value :: done) rest
    -- no item follows, as after the last comma
    | .error d => if d.final then .error d else endList start done cs

/-- Read the keys and the end of a table in braces that begins at `start`, adding to the keys
read before (in reverse). -/
def scanPairs (depth : Nat) (start : List Char) (done : List ((List Key × Key) × Value))
    (cs : List Char) : Nat → Except Defect (Value × List Char)
  | 0 => stop cs
  | fuel + 1 =>
    match scanKey cs with
    | .error d =>
      if d.final then .error d
      -- unlike in a list, the last comma may not stand before the end
      else endTable start done (if done.isEmpty then cs else ',' :: cs)
    | .ok (key, rest) => do
      let ((), rest) ← settled (scanEquals rest)
      let (value, rest) ← settled (scanValue depth (skipBlanks rest) fuel)
      match skipBlanks rest with
      | ',' :: rest => scanPairs depth start ((key, value) :: done) rest fuel
      | rest => endTable start ((key, value) :: done) rest

end

/-! ## Documents -/

/-- Read a key with its value and add it. -/
def scanEntry (b : Building) (cs : List Char) : Except Defect (Building × List Char) :=
  settled do
    let ((path, key), rest) ← scanKey cs
    let ((), rest) ← scanEquals rest
    let (value, rest) ← scanValue 0 (skipBlanks rest) (2 * rest.length + 2)
    let ((), rest) ← scanLineEnd rest
    match b.addKey path key value with
    | .ok b => return (b, rest)
    | .error clash => refuse cs clash.message

/-- Read a header between brackets and begin its table. -/
def scanHeader (b : Building) (left right : String)
    (begin_ : Building → Span → List Key → Key → Except Clash Building) (cs : List Char) :
    Except Defect (Building × List Char) := do
  let ((), rest) ← word left cs
  let ((up, key), rest) ← scanKey rest
  let ((), rest) ← expecting (ticked right) (expecting (ticked ".") (word right rest))
  let span := Span.between cs rest
  let ((), rest) ← scanLineEnd rest
  match begin_ b span up key with
  | .ok b => return (b, rest)
  | .error clash => refuse cs clash.message

/-- Read the header of a table. -/
def scanTable (b : Building) (cs : List Char) : Except Defect (Building × List Char) :=
  settled <| named "table header" <|
    match cs with
    | '[' :: '[' :: _ => scanHeader b "[[" "]]" Building.openElement cs
    | '[' :: _ :: _ => scanHeader b "[" "]" Building.openTable cs
    | cs => stop cs

/-- Read the lines of a document. Every step reads a character. -/
def scanLines (b : Building) (cs : List Char) : Nat → Except Defect Building
  | 0 => stop cs
  | fuel + 1 =>
    match skipBlanks cs with
    | [] => .ok b
    | c :: rest =>
      if c = '#' then do
        let ((), rest) ← scanLineRest (c :: rest)
        scanLines b rest fuel
      else if c = '[' then do
        let (b, rest) ← scanTable b (c :: rest)
        scanLines b rest fuel
      else if c = '\n' ∨ c = '\r' then
        match lineEnd? (c :: rest) with
        | some rest => scanLines b rest fuel
        | none => stop (c :: rest)
      else do
        let (b, rest) ← scanEntry b (c :: rest)
        scanLines b rest fuel

/-- The text after a byte-order mark. -/
def skipMark (cs : List Char) : List Char :=
  match cs with
  | c :: rest => if c.toNat = 0xFEFF then rest else c :: rest
  | [] => []

/-- Read a document: a table, unless a mark makes a date or a time of it. -/
def read (s : String) : Except Defect Value := do
  let cs := skipMark s.toList
  let span := Span.between cs []
  let b ← scanLines { span } cs (cs.length + 1)
  match b.close with
  | .error clash => refuse [] clash.message
  | .ok entries => Value.unmark (.table .header span entries)

end Holdfast.Toml
