import GoRepl.Text.Blank
import GoRepl.Token.Lexer

/-! # From lines to fragments

Input arrives line by line.  A fragment goes on with the next line while it has more opening than
closing brackets, or an open raw string or comment.

* `Kind.depth`, `Framing.depth`: how far a token, or a token list, changes the bracket depth.
* `Framing.needsMore`: whether a text goes on with the next line.
* `Framing.extend`: a text with one more line.
* `Framing.group`: the fragments of a list of lines, and the unfinished rest.
-/

namespace GoRepl

/-- How far a token changes the bracket depth. -/
def Kind.depth : Kind → Int
  | symbol .lparen | symbol .lbrack | symbol .lbrace => 1
  | symbol .rparen | symbol .rbrack | symbol .rbrace => -1
  | _ => 0

namespace Framing

/-- Opening minus closing brackets. -/
def depth (ts : List Token) : Int := ts.foldr (fun t d => t.kind.depth + d) 0

/-- Whether a text goes on with the next line.  A text with any other fault than an open raw
string or comment does not; its fault is reported. -/
def needsMore (text : String) : Bool :=
  match Token.ofSource text with
  | .ok ts => depth ts > 0
  | .error e => e.fault.isOpen

/-- A text with one more line. -/
def extend (pending line : String) : String :=
  if pending.isEmpty then line else pending ++ "\n" ++ line

/-- The fragments of the lines that follow the unfinished text `pending`, and what is left
unfinished.  Blank lines between fragments are dropped. -/
def group (pending : String) : List String → List String × String
  | [] => ([], pending)
  | line :: rest =>
    if pending.isEmpty && Text.isBlankText line then group "" rest
    else
      let text := extend pending line
      if needsMore text then group text rest
      else
        let (fragments, left) := group "" rest
        (text :: fragments, left)

end Framing

end GoRepl
