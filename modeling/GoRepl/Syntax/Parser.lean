import GoRepl.Syntax.Grammar.Statements

/-! # Parsing fragments

A fragment is one statement, one import declaration or one expression, with at most one semicolon
behind it.

* `Phrase.step`: the grammar, one reader per phrase, over readers for the nested phrases.
* `Phrase.read`: the readers that nest at most a given number of times.  Each nested reader starts
  behind a token that its caller has consumed, so the number of tokens is enough.
* `TokenStream`: a token list without its end mark, and the place of that mark.
* `TokenStream.fragment`, `TokenStream.imports`, `TokenStream.expression`: the three entry points.
* `parseFragment`, `parseImports`, `parseExpression`: the same for source texts.
-/

namespace GoRepl.Syntax

namespace Phrase

/-- The grammar: how each phrase is read, given readers for the phrases nested in it. -/
def step (rec : Phrases) : {α : Type} → Phrase α → Read α
  | _, binary p => Grammar.binary rec p
  | _, binaryTail p x => Grammar.binaryTail rec p x
  | _, unary => Grammar.unary rec
  | _, primaryTail x => Grammar.primaryTail rec x
  | _, exprsTail => Grammar.exprsTail rec
  | _, args => Grammar.args rec
  | _, elems => Grammar.elems rec
  | _, type => Grammar.type rec
  | _, typesTail => Grammar.typesTail rec
  | _, typeArgsTail => Grammar.typeArgsTail rec
  | _, namesTail => Grammar.namesTail rec
  | _, fields => Grammar.fields rec
  | _, interfaceItems => Grammar.interfaceItems rec
  | _, unionTail => Grammar.unionTail rec
  | _, params => Grammar.params rec
  | _, stmt => Grammar.stmt rec
  | _, stmts => Grammar.stmts rec
  | _, conditional => Grammar.conditional rec
  | _, caseClauses => Grammar.caseClauses rec
  | _, commClauses => Grammar.commClauses rec
  | _, valueSpecs kw first => Grammar.valueSpecs rec kw first
  | _, typeSpecs => Grammar.typeSpecs rec

/-- The reader of a phrase that nests fewer than `depth` times. -/
def read : Nat → Phrases
  | 0 => fun _ => Read.fail .tooDeep
  | depth + 1 => fun p => p.step (read depth)

end Phrase

/-- A token list without its end mark, and the span of that mark. -/
structure TokenStream where
  tokens : List Token
  finish : Span
  deriving Repr, DecidableEq, Inhabited

namespace TokenStream

/-- The stream of a token list.  It ends at the first end mark; without one it ends at its last
token, and without tokens at the start of a source. -/
def ofTokens (ts : List Token) : TokenStream where
  tokens := ts.takeWhile (·.kind ≠ .eof)
  finish :=
    match ts.find? (·.kind = .eof), ts.getLast? with
    | some t, _ => t.span
    | none, some t => t.span
    | none, none => Span.at {}

/-- The error of a fault found at the first token of `rest`, or at the end mark. -/
def error (s : TokenStream) (f : ReadFault) : SyntaxError :=
  match f.rest with
  | t :: _ => ⟨f.fault, t.kind, t.span.line, t.span.col⟩
  | [] => ⟨f.fault, .eof, s.finish.line, s.finish.col⟩

/-- Runs a reader on the whole stream. -/
def run {α : Type} (s : TokenStream) (p : Read α) : Except SyntaxError α :=
  match p { tokens := s.tokens } with
  | .ok (a, _) => .ok a
  | .error f => .error (s.error f)

/-- The readers of all phrases of the stream. -/
def phrases (s : TokenStream) : Phrases := Phrase.read (s.tokens.length + 1)

/-- Reads `p`, then the end of the fragment. -/
def whole {α : Type} (p : Read α) : Read α := do
  let a ← p
  Read.fragmentEnd
  return a

/-- The one statement that the stream is. -/
def fragment (s : TokenStream) : Except SyntaxError Stmt :=
  s.run do
    if ← Read.atSymbol .rbrace then Read.unexpected .statement
    whole (s.phrases .stmt)

/-- The one expression that the stream is. -/
def expression (s : TokenStream) : Except SyntaxError Expr :=
  s.run (whole (s.phrases (.binary 1)))

end TokenStream

/-- An import: a local name, if any, and the path of the package. -/
structure ImportSpec where
  name : Option String
  path : String
  deriving Repr, DecidableEq, Inhabited

namespace ImportSpec

/-- The path in a string literal: the text without the quotes around it. -/
def unquote (text : String) : String :=
  let isQuote (c : Char) : Bool := c == '"' || c == '\x60'
  String.ofList ((text.toList.dropWhile isQuote).reverse.dropWhile isQuote).reverse

/-- One import: perhaps a name or a point, and a path. -/
def read : Read ImportSpec := do
  let name ← match ← Read.peek with
    | .name n => do
      Read.skip
      pure (some n)
    | .symbol .period => do
      Read.skip
      pure (some ".")
    | _ => pure none
  match ← Read.peek with
  | .literal .string text => do
    let path := unquote text
    if path.isEmpty then Read.fail .emptyImportPath
    Read.skip
    return ⟨name, path⟩
  | _ => Read.unexpected .importPath

/-- Imports up to a closing parenthesis; there are at most `bound` of them. -/
def readAll : Nat → Read (List ImportSpec)
  | 0 => Read.fail .tooDeep
  | bound + 1 => do
    if ← Read.atListEnd .rparen then return []
    let i ← read
    Read.statementEnd
    let is ← readAll bound
    return i :: is

end ImportSpec

/-- The one import declaration that the stream is. -/
def TokenStream.imports (s : TokenStream) : Except SyntaxError (List ImportSpec) :=
  s.run <| whole do
    Read.expectKeyword .importKw
    Grammar.group (ImportSpec.readAll (s.tokens.length + 1)) ImportSpec.read

/-- The tokens of a source text, read by `p`. -/
def ofSource {α : Type} (p : TokenStream → Except SyntaxError α) (source : String) :
    Except ParseError α :=
  match Token.ofSource source with
  | .error e => .error (.lexical e)
  | .ok ts =>
    match p (TokenStream.ofTokens ts) with
    | .error e => .error (.syntactic e)
    | .ok a => .ok a

/-- The statement that a source text is. -/
def parseFragment (source : String) : Except ParseError Stmt :=
  ofSource TokenStream.fragment source

/-- The imports that a source text declares. -/
def parseImports (source : String) : Except ParseError (List ImportSpec) :=
  ofSource TokenStream.imports source

/-- The expression that a source text is. -/
def parseExpression (source : String) : Except ParseError Expr :=
  ofSource TokenStream.expression source

end GoRepl.Syntax
