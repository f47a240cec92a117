import GoRepl.Text.Quoted
import GoRepl.Token.Number

/-! # Cutting a source into pieces

A source is cut from left to right into line ends, blanks, comments and written tokens.  Nothing is
lost: the texts of the pieces, one after another, are the source.

* `Piece`: one piece, with its text.
* `Piece.first`: the piece at the front of a source, or the reason why there is none.
* `Piece.cut`: all pieces of a source, or those before the first fault.
-/

namespace GoRepl

/-- Why a source cannot be cut into tokens. -/
inductive LexFault where
  | unexpectedChar (c : Char)
  | unterminatedString
  | unterminatedRawString
  | unterminatedRune
  | unterminatedComment
  | invalidNumber (text : String)
  deriving Repr, DecidableEq, Inhabited

namespace LexFault

/-- The wording of the fault, without its place. -/
def message : LexFault → String
  | unexpectedChar c => "invalid character " ++ Text.quoteChar c
  | unterminatedString => "string literal not terminated"
  | unterminatedRawString => "raw string literal not terminated"
  | unterminatedRune => "rune literal not terminated"
  | unterminatedComment => "comment not terminated"
  | invalidNumber text => "invalid number literal " ++ Text.quoteString text

/-- The construct that a fault is about is still open, and more text could close it. -/
def isOpen : LexFault → Bool
  | unterminatedRawString | unterminatedComment => true
  | _ => false

end LexFault

/-- A piece of a source. -/
inductive Piece where
  | newline
  /-- A space, a tab or a carriage return. -/
  | blank (c : Char)
  /-- A comment to the end of its line. -/
  | lineComment (text : List Char)
  /-- A comment between `/*` and `*/`. -/
  | blockComment (text : List Char)
  /-- A token as written. -/
  | written (kind : Kind) (text : List Char)
  deriving Repr, DecidableEq

namespace Piece

/-- The source text of the piece. -/
def text : Piece → List Char
  | newline => ['\n']
  | blank c => [c]
  | lineComment t | blockComment t | written _ t => t

/-- The text up to and including the first `*/`. -/
def throughCommentEnd : List Char → Option (List Char)
  | '*' :: '/' :: _ => some ['*', '/']
  | c :: r => (throughCommentEnd r).map (c :: ·)
  | [] => none

/-- The text up to and including the first `quote` on the line that no backslash precedes. -/
def throughQuote (quote : Char) : List Char → Option (List Char)
  | [] => none
  | c :: r =>
    if c = '\n' then none
    else if c = '\\' then
      match r with
      | [] => none
      | e :: r' => if e = '\n' then none else (throughQuote quote r').map (fun t => c :: e :: t)
    else if c = quote then some [c]
    else (throughQuote quote r).map (c :: ·)

/-- The text up to and including the first back quote. -/
def throughBackQuote : List Char → Option (List Char)
  | [] => none
  | c :: r => if c = '\x60' then some [c] else (throughBackQuote r).map (c :: ·)

/-- Whether a number starts with `c` before `r`. -/
def startsNumber (c : Char) (r : List Char) : Bool :=
  c.isDigit || (c == '.' && Number.startsWithDigit r)

/-- Whether a word may start with `c`. -/
def startsWord (c : Char) : Bool := Text.isLetter c || c == '_'

/-- The literal of class `cls` that opens with `c` and is closed by `close?`. -/
def quoted (cls : LiteralClass) (c : Char) (close? : Option (List Char)) (fault : LexFault) :
    Except LexFault Piece :=
  match close? with
  | some t => .ok (written (.literal cls (String.ofList (c :: t))) (c :: t))
  | none => .error fault

/-- The piece at the front of the source `c :: r`. -/
def first (c : Char) (r : List Char) : Except LexFault Piece :=
  if c = '\n' then .ok newline
  else if c = ' ' ∨ c = '\t' ∨ c = '\r' then .ok (blank c)
  else if c = '/' ∧ r.head? = some '/' then .ok (lineComment (c :: r.takeWhile (· ≠ '\n')))
  else if c = '/' ∧ r.head? = some '*' then
    match throughCommentEnd r.tail with
    | some t => .ok (blockComment (c :: '*' :: t))
    | none => .error .unterminatedComment
  else if c = '"' then quoted .string c (throughQuote c r) .unterminatedString
  else if c = '\'' then quoted .rune c (throughQuote c r) .unterminatedRune
  else if c = '\x60' then quoted .string c (throughBackQuote r) .unterminatedRawString
  else if startsNumber c r then
    match Number.read (c :: r) with
    | .ok (cls, t) => .ok (written (.literal cls (String.ofList t)) t)
    | .error t => .error (.invalidNumber (String.ofList t))
  else if startsWord c then
    let t := c :: r.takeWhile Number.isWordChar
    .ok (written (Kind.ofWord (String.ofList t)) t)
  else
    match Symbol.read? (c :: r) with
    | some s => .ok (written (.symbol s) s.chars)
    | none => .error (.unexpectedChar c)

/-- All pieces of a source; or the pieces before the first fault, and the fault. -/
def cut : List Char → Except (List Piece × LexFault) (List Piece)
  | [] => .ok []
  | c :: r =>
    match first c r with
    | .error e => .error ([], e)
    | .ok p =>
      match cut (r.drop (p.text.length - 1)) with
      | .ok ps => .ok (p :: ps)
      | .error (ps, e) => .error (p :: ps, e)
termination_by cs => cs.length
decreasing_by simp only [List.length_drop, List.length_cons]; omega

end Piece

end GoRepl
