import GoRepl.Syntax.Phrase

/-! # The grammar of types

Every reader takes the readers `rec` of the phrases nested in its own.

* `type`: a type.
* `signature`, `params`: the parameters and results of a function.
* `structType`, `interfaceType`: types with bodies.
-/

namespace GoRepl.Syntax.Grammar

open Read

variable (rec : Phrases)

/-- Names separated by commas. -/
def names : Read (List String) := do
  let n ← expectName
  let ns ← rec .namesTail
  return n :: ns

def namesTail : Read (List String) := do
  match ← peek with
  | .symbol .comma => do
    skip
    names rec
  | _ => return []

/-- Whether a type may start with a token of this kind; decides if a signature has a result. -/
def startsType : Kind → Bool
  | .name _ | .symbol .lbrack | .symbol (.binary (.arith .mul)) | .symbol .arrow
  | .symbol .lparen => true
  | .keyword .structKw | .keyword .funcKw | .keyword .interfaceKw | .keyword .mapKw
  | .keyword .chanKw => true
  | _ => false

/-- A parenthesized list of parameters. -/
def paramList : Read (List Field) := do
  expect .lparen
  let fs ← rec .params
  expect .rparen
  return fs

/-- The parameters of a function and its results: a list, a single type, or nothing. -/
def signature : Read Signature := do
  let ps ← paramList rec
  let k ← peek
  if k == .symbol .lparen then do
    let rs ← paramList rec
    return .mk ps rs
  else if startsType k then do
    let t ← rec .type
    return .mk ps [.mk [] t]
  else return .mk ps []

def structType : Read Expr := do
  expectKeyword .structKw
  expect .lbrace
  let fs ← rec .fields
  expect .rbrace
  return .structType fs

def interfaceType : Read Expr := do
  expectKeyword .interfaceKw
  expect .lbrace
  let is ← rec .interfaceItems
  expect .rbrace
  return .interfaceType is

/-- Types separated by commas. -/
def types : Read (List Expr) := do
  let t ← rec .type
  let ts ← rec .typesTail
  return t :: ts

def typesTail : Read (List Expr) := do
  if ← atSymbol .comma then do
    skip
    types rec
  else return []

def typeArgsTail : Read (List Expr) := do
  if ← atSymbol .comma then do
    skip
    if ← atSymbol .rbrack then return []
    let t ← rec .type
    let ts ← rec .typeArgsTail
    return t :: ts
  else return []

/-- What follows the name `n` in a type: a selector, then type arguments. -/
def namedTail (n : String) : Read Expr := do
  let base ← if ← atSymbol .period then do
      skip
      let f ← expectName
      pure (Expr.selector (.name n) f)
    else pure (.name n)
  let second ← peekSecond
  if (← atSymbol .lbrack) && second != .symbol .rbrack then do
    skip
    let args ← types rec
    expect .rbrack
    return .index base args
  else return base

/-- What follows `[` in a type: a length or none, then the type of the elements. -/
def arrayTail : Read Expr := do
  let len ← match ← peek with
    | .symbol .rbrack => pure none
    | .symbol .ellipsis => do
      skip
      pure (some (Expr.ellipsis none))
    | _ => do
      let n ← nested (rec (.binary 1))
      pure (some n)
  expect .rbrack
  let t ← rec .type
  return .arrayType len t

/-- A type. -/
def type : Read Expr := do
  match ← peek with
  | .name n => do
    skip
    namedTail rec n
  | .symbol .lbrack => do
    skip
    arrayTail rec
  | .keyword .structKw => structType rec
  | .keyword .interfaceKw => interfaceType rec
  | .symbol (.binary (.arith .mul)) => do
    skip
    let t ← rec .type
    return .star t
  | .keyword .funcKw => do
    skip
    let s ← signature rec
    return .funcType s
  | .keyword .mapKw => do
    skip
    expect .lbrack
    let k ← rec .type
    expect .rbrack
    let v ← rec .type
    return .mapType k v
  | .keyword .chanKw => do
    skip
    let dir ← if ← atSymbol .arrow then do
        skip
        pure ChanDir.send
      else pure ChanDir.both
    let t ← rec .type
    return .chanType dir t
  | .symbol .arrow => do
    skip
    expectKeyword .chanKw
    let t ← rec .type
    return .chanType .recv t
  | .symbol .lparen => do
    skip
    let t ← rec .type
    expect .rparen
    return .paren t
  | _ => unexpected .type

/-- Whether a name before a token of this kind names a parameter, and is not its type. -/
def followsParamName : Kind → Bool
  | .symbol .ellipsis => true
  | k => startsType k

/-- The parameters up to the closing bracket.  Each name has a type of its own: in `a, b int` the
first is a type without a name. -/
def params : Read (List Field) := do
  if ← atListEnd .rparen then return []
  let named := match ← peek with
    | .name _ => true
    | _ => false
  let ns ← if named && followsParamName (← peekSecond) then do
      let n ← expectName
      pure [n]
    else pure []
  let t ← if ← atSymbol .ellipsis then do
      skip
      let t ← type rec
      pure (Expr.ellipsis (some t))
    else type rec
  if ← atSymbol .comma then do
    skip
    let fs ← rec .params
    return .mk ns t :: fs
  else return [.mk ns t]

/-- Whether a name before a token of this kind is an embedded field. -/
def followsEmbedded : Kind → Bool
  | .symbol .period | .symbol .semicolon | .newline | .symbol .rbrace => true
  | .literal .string _ => true
  | _ => false

/-- A field of a struct, with its tag left out. -/
def field : Read Field := do
  let embedded ← match ← peek with
    | .symbol (.binary (.arith .mul)) => pure true
    | .name _ => pure (followsEmbedded (← peekSecond))
    | _ => unexpected .field
  let ns ← if embedded then pure [] else names rec
  let t ← type rec
  match ← peek with
  | .literal .string _ => skip
  | _ => pure ()
  return .mk ns t

def fields : Read (List Field) := do
  if ← atListEnd .rbrace then return []
  let f ← field rec
  statementEnd
  let fs ← rec .fields
  return f :: fs

/-- A term of a union: a type, or `~` and a type. -/
def unionTerm : Read Expr := do
  if ← atSymbol .tilde then do
    skip
    let t ← type rec
    return .unary .tilde t
  else type rec

def unionTail : Read (List Expr) := do
  if ← atSymbol (.binary (.arith .or)) then do
    skip
    let t ← unionTerm rec
    let ts ← rec .unionTail
    return t :: ts
  else return []

/-- A method, or a union of terms. -/
def interfaceItem : Read InterfaceItem := do
  let second ← peekSecond
  match ← peek, second with
  | .name n, .symbol .lparen => do
    skip
    let s ← signature rec
    return .method n s
  | _, _ => do
    let t ← unionTerm rec
    let ts ← rec .unionTail
    return .union (t :: ts)

def interfaceItems : Read (List InterfaceItem) := do
  if ← atListEnd .rbrace then return []
  let i ← interfaceItem rec
  statementEnd
  let is ← rec .interfaceItems
  return i :: is

end GoRepl.Syntax.Grammar
