import GoRepl.Syntax.Grammar.Expressions

/-! # The grammar of statements

* `simpleTail`, `simple`: expressions, assignments, sends and increments.
* `conditional`, `switch`, `select`, `loop`: control statements.  Their headers are read at the
  level of headers.
* `declaration`: `var`, `const` and `type`.
* `stmt`, `stmts`, `block`: statements and lists of them.
-/

namespace GoRepl.Syntax.Grammar

open Read

variable (rec : Phrases)

/-! ## Simple statements -/

/-- The operator of an assignment. -/
def assignOp? : Kind → Option AssignOp
  | .symbol .define => some .define
  | .symbol .assign => some .assign
  | .symbol (.compound op) => some (.compound op)
  | _ => none

/-- The right side of an assignment with the targets `left`. -/
def assignment (left : List Expr) (op : AssignOp) : Read Simple := do
  skip
  let right ← exprs rec
  if let .compound c := op then
    if left.length > 1 || right.length > 1 then fail (.compoundOperands c)
  return .assign left op right

/-- What follows the expressions `left` in a simple statement. -/
def simpleTail (left : List Expr) : Read Simple := do
  let k ← peek
  if let some op := assignOp? k then assignment rec left op
  else match left with
    | [x] =>
      match k with
      | .symbol .arrow => do
        skip
        let v ← expr rec
        return .send x v
      | .symbol .inc => do
        skip
        return .inc x
      | .symbol .dec => do
        skip
        return .dec x
      | _ => return .expr x
    | _ => unexpected .assignment

/-- A simple statement. -/
def simple : Read Simple := do
  let left ← exprs rec
  simpleTail rec left

/-! ## Blocks -/

/-- Whether a statement list ends before a token of this kind. -/
def endsStmts : Kind → Bool
  | .keyword .caseKw | .keyword .defaultKw | .symbol .rbrace | .eof => true
  | _ => false

/-- Statements in braces. -/
def block : Read (List Stmt) := do
  expect .lbrace
  let ss ← rec .stmts
  expect .rbrace
  return ss

/-! ## Control statements -/

/-- An optional simple statement with a semicolon, then another one unless a brace follows.  A
single one counts as the second. -/
def initAndLast : Read (Option Simple × Option Simple) := do
  let fst ← if ← atSemicolon then pure none else do
    let s ← simple rec
    pure (some s)
  if ← atSemicolon then do
    skip
    if ← atSymbol .lbrace then return (fst, none)
    let s ← simple rec
    return (fst, some s)
  else return (none, fst)

/-- The condition of a conditional. -/
def condition : Option Simple → Read Expr
  | some (.expr x) => return x
  | some _ => fail .assignmentAsCondition
  | none => fail .missingCondition

/-- What may follow `else`. -/
def elseBranch : Read (Option Stmt) := do
  if (← peek) == .keyword .elseKw then do
    skip
    match ← peek with
    | .keyword .ifKw => do
      let s ← rec .conditional
      return some s
    | .symbol .lbrace => do
      let b ← block rec
      return some (.block b)
    | _ => unexpected .elseBranch
  else return none

def conditional : Read Stmt := do
  expectKeyword .ifKw
  if ← atSymbol .lbrace then fail .missingCondition
  let (init, last) ← header (initAndLast rec)
  let cond ← condition last
  let body ← block rec
  let orElse ← elseBranch rec
  return .ifThen init cond body orElse

/-- A type switch is one whose tag is `x.(type)`, or binds a name to that. -/
def isTypeGuard : Option Simple → Bool
  | some (.expr (.assertion _ none)) => true
  | some (.assign _ .define [.assertion _ none]) => true
  | _ => false

def caseClause : Read CaseClause := do
  let es ← match ← peek with
    | .keyword .caseKw => do
      skip
      let xs ← exprs rec
      pure (some xs)
    | .keyword .defaultKw => do
      skip
      pure none
    | _ => unexpected .clause
  expect .colon
  let ss ← rec .stmts
  return .mk es ss

def caseClauses : Read (List CaseClause) := do
  if ← atListEnd .rbrace then return []
  let c ← caseClause rec
  let cs ← rec .caseClauses
  return c :: cs

def switch : Read Stmt := do
  expectKeyword .switchKw
  let (init, tag) ← header do
    if ← atSymbol .lbrace then return (none, none)
    initAndLast rec
  expect .lbrace
  let cs ← rec .caseClauses
  expect .rbrace
  return .switch (isTypeGuard tag) init tag cs

def commClause : Read CommClause := do
  let comm ← match ← peek with
    | .keyword .caseKw => do
      skip
      let s ← simple rec
      pure (some s)
    | .keyword .defaultKw => do
      skip
      pure none
    | _ => unexpected .clause
  expect .colon
  let ss ← rec .stmts
  return .mk comm ss

def commClauses : Read (List CommClause) := do
  if ← atListEnd .rbrace then return []
  let c ← commClause rec
  let cs ← rec .commClauses
  return c :: cs

def select : Read Stmt := do
  expectKeyword .selectKw
  expect .lbrace
  let cs ← rec .commClauses
  expect .rbrace
  return .select cs

/-- The header of a loop. -/
inductive LoopHeader where
  | range (key value : Option Expr) (define : Bool) (operand : Expr)
  | clauses (init cond post : Option Simple)

/-- A range clause with the variables `left` behind its `range`. -/
def rangeOver (left : List Expr) (define : Bool) : Read LoopHeader := do
  skip
  let x ← expr rec
  if left.length > 2 then fail .rangeVariables
  return .range left[0]? left[1]? define x

/-- The second and third clause of a loop that starts with `init` and a semicolon. -/
def loopClauses (init : Option Simple) : Read LoopHeader := do
  skip
  let cond ← if ← atSemicolon then pure none else do
    let s ← simple rec
    pure (some s)
  if !(← atSemicolon) then unexpected .loopClause
  skip
  if ← atSymbol .lbrace then return .clauses init cond none
  let post ← simple rec
  return .clauses init cond (some post)

/-- A loop header that starts with the expressions `left`. -/
def loopFrom (left : List Expr) : Read LoopHeader := do
  match ← peek, ← peekSecond with
  | .symbol .define, .keyword .rangeKw => do
    skip
    rangeOver rec left true
  | .symbol .assign, .keyword .rangeKw => do
    skip
    rangeOver rec left false
  | _, _ => do
    let s ← simpleTail rec left
    if ← atSemicolon then loopClauses rec (some s)
    else return .clauses none (some s) none

def loopHeader : Read LoopHeader := do
  if ← atSymbol .lbrace then return .clauses none none none
  if ← atSemicolon then loopClauses rec none
  else if (← peek) == .keyword .rangeKw then rangeOver rec [] false
  else do
    let left ← exprs rec
    loopFrom rec left

def loop : Read Stmt := do
  expectKeyword .forKw
  let head ← header (loopHeader rec)
  let body ← block rec
  match head with
  | .range k v d x => return .range k v d x body
  | .clauses init none post => return .loop init none post body
  | .clauses init (some (.expr x)) post => return .loop init (some x) post body
  | .clauses _ (some _) _ => fail .loopCondition

/-! ## Declarations -/

/-- Whether a line of a `var` or `const` declaration has no type before a token of this kind. -/
def endsValueNames : Kind → Bool
  | .symbol .assign | .symbol .semicolon | .newline | .symbol .rparen | .eof => true
  | _ => false

/-- One line of a `var` or `const` declaration.  A variable needs a type or values; a constant
needs values, unless it repeats those of the line above. -/
def valueSpec (kw : ValueKeyword) (first : Bool) : Read ValueSpec := do
  let ns ← names rec
  let t ← if endsValueNames (← peek) then pure none else do
    let t ← rec .type
    pure (some t)
  let vs ← if ← atSymbol .assign then do
      skip
      exprs rec
    else pure []
  match kw with
  | .var => if t.isNone && vs.isEmpty then fail .untypedVariable
  | .const => if vs.isEmpty && (first || t.isSome) then fail .uninitializedConstant
  return .mk ns t vs

def valueSpecs (kw : ValueKeyword) (first : Bool) : Read (List ValueSpec) := do
  if ← atListEnd .rparen then return []
  let s ← valueSpec rec kw first
  statementEnd
  let ss ← rec (.valueSpecs kw false)
  return s :: ss

/-- One line of a `type` declaration. -/
def typeSpec : Read TypeSpec := do
  let n ← expectName
  let isAlias ← atSymbol .assign
  if isAlias then skip
  let t ← rec .type
  return .mk n isAlias t

def typeSpecs : Read (List TypeSpec) := do
  if ← atListEnd .rparen then return []
  let s ← typeSpec rec
  statementEnd
  let ss ← rec .typeSpecs
  return s :: ss

/-- The lines behind the keyword of a declaration: a group in parentheses, or one line. -/
def group {α : Type} (lines : Read (List α)) (line : Read α) : Read (List α) := do
  if ← atSymbol .lparen then do
    skip
    let ls ← lines
    expect .rparen
    return ls
  else do
    let l ← line
    return [l]

/-- A `var` or `const` declaration. -/
def valueDecl (kw : ValueKeyword) : Read Stmt := do
  skip
  let ss ← group (rec (.valueSpecs kw true)) (valueSpec rec kw true)
  return .valueDecl kw ss

/-- A `type` declaration. -/
def typeDecl : Read Stmt := do
  skip
  let ss ← group (rec .typeSpecs) (typeSpec rec)
  return .typeDecl ss

/-! ## Statements -/

/-- The call behind `go` or `defer`. -/
def launched (k : Keyword) : Read Expr := do
  skip
  let x ← expr rec
  match x with
  | .call .. => return x
  | _ => fail (.notCall k)

/-- The results of a `return`. -/
def results : Read (List Expr) := do
  skip
  match ← peek with
  | .newline | .symbol .semicolon | .symbol .rbrace | .eof => return []
  | _ => exprs rec

/-- A jump, to a label if one follows. -/
def branch (kw : BranchKeyword) : Read Stmt := do
  skip
  match kw, ← peek with
  | .fallThrough, _ => return .branch kw none
  | _, .name l => do
    skip
    return .branch kw (some l)
  | _, _ => return .branch kw none

/-- The statement behind the label `l` and its colon. -/
def labeled (l : String) : Read Stmt := do
  skip
  match ← peek with
  | .symbol .rbrace | .eof => return .labeled l .empty
  | _ => do
    let s ← rec .stmt
    return .labeled l s

/-- A simple statement, or a label and its statement. -/
def simpleOrLabeled : Read Stmt := do
  let left ← exprs rec
  match left, ← peek with
  | [.name l], .symbol .colon => labeled rec l
  | _, _ => do
    let s ← simpleTail rec left
    statementEnd
    return .simple s

/-- Whether a simple statement may start with a token of this kind. -/
def startsSimple : Kind → Bool
  | .name _ | .literal .. => true
  | .keyword .funcKw | .keyword .structKw | .keyword .mapKw | .keyword .chanKw
  | .keyword .interfaceKw => true
  | .symbol .lparen | .symbol .lbrack | .symbol .arrow | .symbol .not | .symbol .tilde => true
  | .symbol (.binary (.arith op)) => op ∈ [.add, .sub, .mul, .and, .xor]
  | _ => false

/-- Reads `p`, then the end of the statement. -/
def ended {α : Type} (p : Read α) : Read α := do
  let a ← p
  statementEnd
  return a

/-- A statement with its end.  Before a closing brace and at the end of the source it is empty. -/
def stmt : Read Stmt := do
  let k ← peek
  if startsSimple k then simpleOrLabeled rec
  else match k with
    | .keyword .varKw => ended (valueDecl rec .var)
    | .keyword .constKw => ended (valueDecl rec .const)
    | .keyword .typeKw => ended (typeDecl rec)
    | .keyword .goKw => ended do
      let x ← launched rec .goKw
      return .goCall x
    | .keyword .deferKw => ended do
      let x ← launched rec .deferKw
      return .deferCall x
    | .keyword .returnKw => ended do
      let xs ← results rec
      return .returnWith xs
    | .keyword .breakKw => ended (branch .breakTo)
    | .keyword .continueKw => ended (branch .continueTo)
    | .keyword .gotoKw => ended (branch .goTo)
    | .keyword .fallthroughKw => ended (branch .fallThrough)
    | .symbol .lbrace => ended do
      let b ← block rec
      return .block b
    | .keyword .ifKw => ended (conditional rec)
    | .keyword .switchKw => ended (switch rec)
    | .keyword .selectKw => ended (select rec)
    | .keyword .forKw => ended (loop rec)
    | .newline | .symbol .semicolon => do
      skip
      return .empty
    | .symbol .rbrace | .eof => return .empty
    | _ => unexpected .statement

/-- Statements up to a closing brace or the next clause. -/
def stmts : Read (List Stmt) := do
  if endsStmts (← peek) then return []
  let s ← stmt rec
  let ss ← rec .stmts
  return s :: ss

end GoRepl.Syntax.Grammar
