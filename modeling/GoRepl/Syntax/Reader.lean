import GoRepl.Syntax.Fault

/-! # Reading tokens

A reader consumes tokens from the front of a list and gives a value, or stops with a fault at the
token it has reached.  The end mark is not in the list: the end of the list is the end of the
source.  Beside the tokens a reader keeps the nesting level that decides whether a `{` behind a
type name opens a composite literal (level 0 and above) or a block (below, in headers).

* `Read`: readers.
* `Read.peek`, `Read.peekSecond`, `Read.skip`: looking at tokens and dropping one.
* `Read.expect`, `Read.expectName`, `Read.statementEnd`: taking one token of a given sort.
* `Read.nested`, `Read.header`: running a reader one level up, or at the level of headers.
-/

namespace GoRepl.Syntax

/-- The tokens that are still to be read, and the nesting level. -/
structure ReadState where
  tokens : List Token
  level : Int := 0
  deriving Repr, DecidableEq, Inhabited

/-- A fault and the tokens from the one it was found at. -/
structure ReadFault where
  fault : SyntaxFault
  rest : List Token
  deriving Repr, DecidableEq, Inhabited

/-- Readers of values of type `α`. -/
abbrev Read (α : Type) : Type := StateT ReadState (Except ReadFault) α

namespace Read

/-- The kind of the first token; behind the last one comes the end mark. -/
def headKind : List Token → Kind
  | t :: _ => t.kind
  | [] => .eof

/-- Stops at the next token. -/
def fail {α : Type} (f : SyntaxFault) : Read α := fun s => .error ⟨f, s.tokens⟩

/-- Stops at the next token, where something else was wanted. -/
def unexpected {α : Type} (w : Wanted) : Read α := fail (.unexpected w)

/-- The kind of the next token. -/
def peek : Read Kind := fun s => .ok (headKind s.tokens, s)

/-- The kind of the token behind the next one. -/
def peekSecond : Read Kind := fun s => .ok (headKind s.tokens.tail, s)

/-- Drops the next token. -/
def skip : Read Unit := fun s => .ok ((), { s with tokens := s.tokens.tail })

/-- The nesting level. -/
def level : Read Int := fun s => .ok (s.level, s)

/-- Changes the nesting level. -/
def setLevel (l : Int) : Read Unit := fun s => .ok ((), { s with level := l })

/-- Whether the symbol `s` comes next. -/
def atSymbol (s : Symbol) : Read Bool := do return (← peek) == .symbol s

/-- Takes the symbol `s`. -/
def expect (s : Symbol) : Read Unit := do
  if ← atSymbol s then skip else unexpected (.token (.symbol s))

/-- Takes the keyword `k`. -/
def expectKeyword (k : Keyword) : Read Unit := do
  if (← peek) == .keyword k then skip else unexpected (.token (.keyword k))

/-- Takes a name. -/
def expectName : Read String := do
  match ← peek with
  | .name n => do skip; return n
  | _ => unexpected .name

/-- Whether a semicolon, written or inserted, comes next. -/
def atSemicolon : Read Bool := do return (← peek).isSemicolon

/-- A statement ends at a semicolon; a closing `)` or `}` or the end of the source also ends it,
and stays. -/
def statementEnd : Read Unit := do
  match ← peek with
  | .newline | .symbol .semicolon => skip
  | .symbol .rparen | .symbol .rbrace | .eof => pure ()
  | _ => unexpected .statementEnd

/-- A fragment ends at the end of the source; one semicolon may stand before that. -/
def fragmentEnd : Read Unit := do
  if ← atSemicolon then skip
  if (← peek) == .eof then pure () else fail .trailing

/-- Whether a list that `close` closes is over. -/
def atListEnd (close : Symbol) : Read Bool := do
  let k ← peek
  return k == .symbol close || k == .eof

/-- Runs `p` one level up. -/
def nested {α : Type} (p : Read α) : Read α := do
  setLevel ((← level) + 1)
  let a ← p
  setLevel ((← level) - 1)
  return a

/-- Runs `p` at the level of headers. -/
def header {α : Type} (p : Read α) : Read α := do
  let outer ← level
  setLevel (-1)
  let a ← p
  setLevel outer
  return a

end Read

end GoRepl.Syntax
