import GoRepl.Source.Position
import GoRepl.Token.Keyword
import GoRepl.Token.Symbol

/-! # Tokens

* `Kind`: what a token is.  Literals and names keep their text as written.
* `Kind.display`: how messages name a token.
* `Kind.endsStatement`: whether a line end behind the token ends the statement.
* `Token`: a kind and the span it was read from.
-/

namespace GoRepl

/-- The classes of literals. -/
inductive LiteralClass where
  | int | float | imaginary | rune | string
  deriving Repr, DecidableEq, Inhabited

/-- What a token is. -/
inductive Kind where
  /-- A literal, kept as written. -/
  | literal (cls : LiteralClass) (text : String)
  | name (text : String)
  | keyword (word : Keyword)
  | symbol (sym : Symbol)
  /-- A semicolon inserted at the end of a line or of the source. -/
  | newline
  /-- The end of the source. -/
  | eof
  deriving Repr, DecidableEq, Inhabited

/-- A kind and the stretch of source it was read from. -/
structure Token where
  kind : Kind
  span : Span
  deriving Repr, DecidableEq, Inhabited

namespace Kind

/-- The kind of a word: a keyword if it spells one, else a name. -/
def ofWord (word : String) : Kind :=
  match Keyword.ofString? word with
  | some k => .keyword k
  | none => .name word

/-- How messages name the token. -/
def display : Kind → String
  | literal _ text => "literal " ++ text
  | name text => "identifier " ++ text
  | keyword k => "'" ++ k.spelling ++ "'"
  | symbol s => "'" ++ s.spelling ++ "'"
  | newline => "newline"
  | eof => "EOF"

/-- How tightly the token binds between two operands; 0 when it cannot stand there. -/
def precedence : Kind → Nat
  | symbol s => s.precedence
  | _ => 0

/-- Whether a line end behind the token ends the statement: after names, literals, closing
brackets, `++`, `--` and four keywords. -/
def endsStatement : Kind → Bool
  | name _ | literal .. => true
  | keyword k => k.endsStatement
  | symbol .inc | symbol .dec | symbol .rparen | symbol .rbrack | symbol .rbrace => true
  | _ => false

/-- A semicolon, written or inserted. -/
def isSemicolon : Kind → Bool
  | newline | symbol .semicolon => true
  | _ => false

end Kind

end GoRepl
