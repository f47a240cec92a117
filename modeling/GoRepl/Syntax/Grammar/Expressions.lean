import GoRepl.Syntax.Grammar.Types

/-! # The grammar of expressions

* `operand`, `primary`, `unary`, `binary`: expressions by how tightly they bind.
* `exprs`: expressions separated by commas.
* `primaryTail`: selectors, assertions, indices, slices, calls and literal bodies behind an operand.
* `composite`, `elems`: the body of a composite literal.
-/

namespace GoRepl.Syntax.Grammar

open Read

variable (rec : Phrases)

/-- A function type, or with a body a function literal. -/
def funcOperand : Read Expr := do
  let s ← signature rec
  if ← atSymbol .lbrace then do
    let b ← nested do
      skip
      let b ← rec .stmts
      expect .rbrace
      return b
    return .funcLit s b
  else return .funcType s

/-- A name, a literal, a parenthesized expression, a function or a type. -/
def operand : Read Expr := do
  match ← peek with
  | .name n => do
    skip
    return .name n
  | .literal _ t => do
    skip
    return .literal t
  | .symbol .lparen => do
    skip
    let x ← nested (rec (.binary 1))
    expect .rparen
    return .paren x
  | .keyword .funcKw => do
    skip
    funcOperand rec
  | .symbol .lbrack | .keyword .structKw | .keyword .mapKw | .keyword .chanKw
  | .keyword .interfaceKw => type rec
  | _ => unexpected .expression

/-- Whether a `{` behind `x` opens a composite literal at nesting level `level`: never behind an
expression that is no literal type, and in a header not behind a type name. -/
def opensLiteral (x : Expr) (level : Int) : Bool :=
  x.isLiteralType && (level ≥ 0 || !x.isTypeName)

/-- A primary expression. -/
def primary : Read Expr := do
  let x ← operand rec
  rec (.primaryTail x)

/-- The operator that a token of this kind is before an operand, leaving aside `*` and `<-`. -/
def unaryOp? : Kind → Option UnaryOp
  | .symbol (.binary (.arith .add)) => some .add
  | .symbol (.binary (.arith .sub)) => some .sub
  | .symbol .not => some .not
  | .symbol (.binary (.arith .xor)) => some .xor
  | .symbol (.binary (.arith .and)) => some .and
  | .symbol .tilde => some .tilde
  | _ => none

/-- An expression behind `<-`: before a channel type the arrow makes that receive-only. -/
def receive : Expr → Read Expr
  | .chanType .both t => return .chanType .recv t
  | .chanType .. => fail .channelDirection
  | x => return .unary .arrow x

/-- A unary expression. -/
def unary : Read Expr := do
  let k ← peek
  if let some op := unaryOp? k then
    skip
    let x ← rec .unary
    return .unary op x
  else if k == .symbol .arrow then
    skip
    let x ← rec .unary
    receive x
  else if k == .symbol (.binary (.arith .mul)) then
    skip
    let x ← rec .unary
    return .star x
  else primary rec

/-- The operators that bind at least as tightly as `prec`, with their right operands, applied to
`left` from the left. -/
def binaryTail (prec : Nat) (left : Expr) : Read Expr := do
  match ← peek with
  | .symbol (.binary op) => do
    if op.precedence < prec then return left
    skip
    let right ← rec (.binary (op.precedence + 1))
    rec (.binaryTail prec (.binary left op right))
  | _ => return left

/-- An expression whose operators bind at least as tightly as `prec`. -/
def binary (prec : Nat) : Read Expr := do
  let x ← unary rec
  rec (.binaryTail prec x)

/-- An expression. -/
def expr : Read Expr := binary rec 1

/-- Expressions separated by commas. -/
def exprs : Read (List Expr) := do
  let x ← expr rec
  let xs ← rec .exprsTail
  return x :: xs

def exprsTail : Read (List Expr) := do
  if ← atSymbol .comma then do
    skip
    exprs rec
  else return []

/-- Call arguments up to the closing bracket, and whether one of them is spread. -/
def args : Read (List Expr × Bool) := do
  if ← atListEnd .rparen then return ([], false)
  let x ← expr rec
  let spread ← atSymbol .ellipsis
  if spread then skip
  if ← atSymbol .comma then do
    skip
    let (xs, more) ← rec .args
    return (x :: xs, spread || more)
  else return ([x], spread)

/-- An index, the list of type arguments of an instantiation, or the bounds of a slice, between
brackets behind `x`. -/
def indexOrSlice (x : Expr) : Read Expr := do
  expect .lbrack
  let made ← nested do
    let low ← if ← atSymbol .colon then pure none else do
      let i ← expr rec
      pure (some i)
    if ← atSymbol .colon then do
      skip
      let high ← bound
      if ← atSymbol .colon then do
        skip
        let max ← bound
        return (.slice x low high max, !(high.isSome && max.isSome))
      else return (.slice x low high none, false)
    else do
      let ts ← rec .typeArgsTail
      return (.index x (low.toList ++ ts), false)
  expect .rbrack
  if made.2 then fail .sliceIndices
  return made.1
where
  /-- A bound of a slice, absent before a colon or bracket. -/
  bound : Read (Option Expr) := do
    if (← atSymbol .colon) || (← atSymbol .rbrack) then return none
    let i ← rec (.binary 1)
    return some i

/-- The arguments of a call of `fn`. -/
def call (fn : Expr) : Read Expr := do
  expect .lparen
  let (xs, spread) ← nested (rec .args)
  expect .rparen
  return .call fn xs spread

/-- The body of a composite literal. -/
def composite (t : Option Expr) : Read Expr := do
  expect .lbrace
  let es ← nested (rec .elems)
  expect .rbrace
  return .composite t es

/-- A key or value of a composite literal; an inner literal may leave out its type. -/
def elem : Read Expr := do
  if ← atSymbol .lbrace then composite rec none else expr rec

/-- The elements of a composite literal up to the closing brace. -/
def elems : Read (List Expr) := do
  if ← atListEnd .rbrace then return []
  let k ← elem rec
  let e ← if ← atSymbol .colon then do
      skip
      let v ← elem rec
      pure (.keyValue k v)
    else pure k
  if ← atSymbol .comma then do
    skip
    let es ← rec .elems
    return e :: es
  else return [e]

/-- What follows a point: a name, or a type in parentheses. -/
def selectorOrAssertion (x : Expr) : Read Expr := do
  match ← peek with
  | .name n => do
    skip
    return .selector x n
  | .symbol .lparen => do
    skip
    let t ← if (← peek) == .keyword .typeKw then do
        skip
        pure none
      else do
        let t ← rec .type
        pure (some t)
    expect .rparen
    return .assertion x t
  | _ => unexpected .selector

/-- The selectors, assertions, indices, slices, calls and literal bodies that extend `x`. -/
def primaryTail (x : Expr) : Read Expr := do
  match ← peek with
  | .symbol .period => do
    skip
    let y ← selectorOrAssertion rec x
    rec (.primaryTail y)
  | .symbol .lbrack => do
    let y ← indexOrSlice rec x
    rec (.primaryTail y)
  | .symbol .lparen => do
    let y ← call rec x
    rec (.primaryTail y)
  | .symbol .lbrace => do
    if opensLiteral x (← level) then do
      let y ← composite rec (some x)
      rec (.primaryTail y)
    else return x
  | _ => return x

end GoRepl.Syntax.Grammar
