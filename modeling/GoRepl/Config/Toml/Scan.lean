import GoRepl.Text.Lines
import GoRepl.Token.Number

/-! # Reading TOML text: blanks, strings and keys

A scanner takes characters from the front of a text, or fails.

* `Scan`: scanners.
* `Scan.lineEnd`, `Scan.gap`: what may stand behind and between values.
* `Scan.string`: strings in their four notations.
* `Scan.key`: dotted keys.
-/

namespace GoRepl.Toml

/-- Scanners of values of type `α`. -/
abbrev Scan (α : Type) : Type := StateT (List Char) Option α

namespace Scan

/-! ## Characters -/

/-- Takes the text `s`. -/
def text (s : List Char) : Scan Unit := fun cs =>
  if s.isPrefixOf cs then some ((), cs.drop s.length) else none

/-- Takes the character `c`. -/
def char (c : Char) : Scan Unit := text [c]

/-- Takes a character that `p` holds for. -/
def one (p : Char → Bool) : Scan Char
  | c :: r => if p c then some (c, r) else none
  | [] => none

/-- Takes all characters up to the first that `p` does not hold for. -/
def many (p : Char → Bool) : Scan (List Char) := fun cs =>
  some (cs.takeWhile p, cs.dropWhile p)

/-- The next character. -/
def peek : Scan (Option Char) := fun cs => some (cs.head?, cs)

/-- How many characters are left. -/
def left : Scan Nat := fun cs => some (cs.length, cs)

/-- What `p` takes, or nothing if it fails. -/
def opt {α : Type} (p : Scan α) : Scan (Option α) := fun cs =>
  match p cs with
  | some (a, r) => some (some a, r)
  | none => some (none, cs)

/-- A space or a tab. -/
def isSpace (c : Char) : Bool := c == ' ' || c == '\t'

/-- A character that may stand in a comment or string: a tab, or no control character. -/
def isShown (c : Char) : Bool := c == '\t' || (0x20 ≤ c.toNat && c.toNat ≠ 0x7f)

/-! ## Blanks and line ends -/

/-- Takes spaces and tabs. -/
def spaces : Scan Unit := do let _ ← many isSpace

/-- Takes a line end. -/
def newline : Scan Unit := char '\n' <|> text ['\r', '\n']

/-- Takes a comment, up to the end of its line. -/
def comment : Scan Unit := do
  char '#'
  let _ ← many isShown

/-- Takes a line end or the end of the text. -/
def newlineOrEnd : Scan Unit := do
  if (← peek).isSome then newline

/-- Takes the rest of a line that may hold a comment. -/
def lineEnd : Scan Unit := do
  spaces
  if (← peek) == some '#' then comment
  newlineOrEnd

/-- Takes blanks, comments and line ends, at most `n` lines of them. -/
def gapUpTo : Nat → Scan Unit
  | 0 => spaces
  | n + 1 => do
    spaces
    match ← peek with
    | some '#' => do
      comment
      newline
      gapUpTo n
    | some '\n' | some '\r' => do
      newline
      gapUpTo n
    | _ => pure ()

/-- Takes blanks, comments and line ends. -/
def gap : Scan Unit := do gapUpTo (← left)

/-! ## Strings -/

/-- The number that hexadecimal digits spell. -/
def hexValue (ds : List Char) : Nat :=
  ds.foldl (fun n d =>
    16 * n + (if d.isDigit then d.toNat - '0'.toNat else d.toLower.toNat - 'a'.toNat + 10)) 0

/-- Takes the `n` hexadecimal digits of a code point. -/
def codePoint (n : Nat) : Scan Char := fun cs =>
  let ds := cs.take n
  let v := hexValue ds
  if ds.length = n ∧ ds.all Number.isHexDigit ∧ v.isValidChar then
    some (Char.ofNat v, cs.drop n)
  else none

/-- Takes what follows a backslash. -/
def escaped : Scan Char := do
  match ← one fun _ => true with
  | 'b' => return '\x08'
  | 't' => return '\t'
  | 'n' => return '\n'
  | 'f' => return '\x0c'
  | 'r' => return '\r'
  | '"' => return '"'
  | '\\' => return '\\'
  | 'u' => codePoint 4
  | 'U' => codePoint 8
  | _ => failure

/-- Takes the rest of a string in double quotes; `n` bounds its length. -/
def basicTail : Nat → Scan (List Char)
  | 0 => failure
  | n + 1 => do
    let c ← one isShown
    if c == '"' then return []
    let c ← if c == '\\' then escaped else pure c
    let r ← basicTail n
    return c :: r

/-- Takes a string in double quotes. -/
def basicString : Scan String := do
  char '"'
  let cs ← basicTail (← left)
  return String.ofList cs

/-- Takes a string in single quotes, where nothing is escaped. -/
def literalString : Scan String := do
  char '\''
  let cs ← many fun c => isShown c && c ≠ '\''
  char '\''
  return String.ofList cs

/-- Takes a line end behind a backslash and blanks, and all blanks and line ends that follow. -/
def joinLine : Scan Unit := do
  spaces
  newline
  let n ← left
  blanks n
where
  /-- Takes blanks and line ends. -/
  blanks : Nat → Scan Unit
    | 0 => pure ()
    | n + 1 => do
      spaces
      match ← opt newline with
      | some () => blanks n
      | none => pure ()

/-- Takes `n` quotes. -/
def quotes (q : Char) (n : Nat) : Scan Unit := text (List.replicate n q)

/-- The number of quotes `q` that come next. -/
def quoteRun (q : Char) : Scan Nat := fun cs => some ((cs.takeWhile (· == q)).length, cs)

/-- Takes the end of a string in triple quotes, where the next `k` characters are quotes: three
quotes close it, and up to two before them belong to it. -/
def closing (q : Char) (k : Nat) : Scan (List Char) := do
  quotes q k
  if k ≤ 5 then return List.replicate (k - 3) q else failure

/-- Takes the rest of a string in triple quotes `q`, with escapes if `escapes` is set; `n` bounds
its length. -/
def longTail (q : Char) (escapes : Bool) : Nat → Scan (List Char)
  | 0 => failure
  | n + 1 => do
    let k ← quoteRun q
    if 3 ≤ k then closing q k
    else if 0 < k then
      quotes q k
      let r ← longTail q escapes n
      return List.replicate k q ++ r
    else
      match ← peek with
      | some '\\' =>
        if escapes then
          char '\\'
          match ← opt joinLine with
          | some () => longTail q escapes n
          | none => do
            let c ← escaped
            let r ← longTail q escapes n
            return c :: r
        else
          char '\\'
          let r ← longTail q escapes n
          return '\\' :: r
      | some '\n' | some '\r' => do
        newline
        let r ← longTail q escapes n
        return '\n' :: r
      | _ => do
        let c ← one isShown
        let r ← longTail q escapes n
        return c :: r

/-- Takes a string in triple quotes; a line end at its start does not count. -/
def longString (q : Char) (escapes : Bool) : Scan String := do
  quotes q 3
  let _ ← opt newline
  let cs ← longTail q escapes ((← left) + 1)
  return String.ofList cs

/-- Takes a string in any notation. -/
def string : Scan String := do
  match ← peek with
  | some '"' => if 3 ≤ (← quoteRun '"') then longString '"' true else basicString
  | _ => if 3 ≤ (← quoteRun '\'') then longString '\'' false else literalString

/-! ## Keys -/

/-- A character of a key without quotes. -/
def isBareKey (c : Char) : Bool := c.isAlphanum || c == '-' || c == '_'

/-- Takes one part of a key. -/
def simpleKey : Scan String := do
  match ← peek with
  | some '"' => basicString
  | some '\'' => literalString
  | _ => do
    let cs ← many isBareKey
    if cs.isEmpty then failure
    return String.ofList cs

/-- Takes the parts of a key, separated by points; `n` bounds their number. -/
def keyParts : Nat → Scan (List String)
  | 0 => failure
  | n + 1 => do
    spaces
    let k ← simpleKey
    spaces
    if (← peek) == some '.' then
      char '.'
      let ks ← keyParts n
      return k :: ks
    else return [k]

/-- How deep keys and values may nest. -/
def maxDepth : Nat := 80

/-- Takes a dotted key: the path of the table and the key in it. -/
def key : Scan (List String × String) := do
  let ks ← keyParts ((← left) + 1)
  if maxDepth ≤ ks.length then failure
  return (ks.dropLast, ks.getLast?.getD "")

end Scan

end GoRepl.Toml
