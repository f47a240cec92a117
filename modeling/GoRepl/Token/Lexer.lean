import GoRepl.Token.Piece

/-! # From source text to tokens

The tokens of a source are its written pieces, placed, with semicolons inserted: where a line ends
behind a token that may end a statement, and likewise at the end of the source.  A comment that
runs over a line end counts as a line end at the comment's start.

* `Token.place`: places pieces and inserts semicolons.
* `Token.ofSource`: the tokens of a source text, closed by the end mark, or the first fault.
-/

namespace GoRepl

/-- A fault and the line and column where the construct at fault starts. -/
structure LexError where
  fault : LexFault
  line : Nat
  col : Nat
  deriving Repr, DecidableEq, Inhabited

/-- The place, then what is wrong there. -/
def LexError.message (e : LexError) : String :=
  toString e.line ++ ":" ++ toString e.col ++ ": " ++ e.fault.message

namespace Token

/-- A semicolon inserted at `p` if a statement may end there. -/
def inserted (ends : Bool) (p : Position) : List Token :=
  if ends then [⟨.newline, Span.at p⟩] else []

/-- The tokens of the pieces that follow place `p`; `ends` says whether the token before them may
end a statement. -/
def place (p : Position) (ends : Bool) : List Piece → List Token
  | [] => inserted ends p ++ [⟨.eof, Span.at p⟩]
  | .written kind text :: ps =>
    ⟨kind, Span.reading p text⟩ :: place (p.after text) kind.endsStatement ps
  | .newline :: ps => inserted ends p ++ place (p.next '\n') false ps
  | .blank c :: ps => place (p.next c) ends ps
  | .lineComment text :: ps => place (p.after text) ends ps
  | .blockComment text :: ps =>
    if '\n' ∈ text then inserted ends p ++ place (p.after text) false ps
    else place (p.after text) ends ps

/-- The tokens of a source text, the last of which marks its end. -/
def ofSource (source : String) : Except LexError (List Token) :=
  match Piece.cut source.toList with
  | .ok ps => .ok (place {} false ps)
  | .error (ps, fault) =>
    let p := Position.after {} (ps.flatMap Piece.text)
    .error ⟨fault, p.line, p.col⟩

end Token

end GoRepl
