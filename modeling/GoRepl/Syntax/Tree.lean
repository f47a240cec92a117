import GoRepl.Token.Symbol

/-! # Syntax trees

The trees of statements, expressions and types.  Types and expressions share `Expr`, because a type
may stand wherever an operand may (conversions, composite literals, arguments of `make`).

* `Expr`, `Field`, `Signature`, `InterfaceItem`: expressions and types.
* `Simple`: the statements that may stand in the header of a control statement.
* `Stmt`, `Spec`, `CaseClause`, `CommClause`: statements.
* `Expr.isLiteralType`, `Expr.isTypeName`: whether a brace behind the expression may open a
  composite literal, and whether that is allowed in a header only inside brackets.
-/

namespace GoRepl.Syntax

/-- Operators before one operand, without `*`. -/
inductive UnaryOp where
  | add | sub | not | xor | and | tilde | arrow
  deriving Repr, DecidableEq, Inhabited

/-- The directions of a channel type. -/
inductive ChanDir where
  | both | send | recv
  deriving Repr, DecidableEq, Inhabited

/-- What stands between the two sides of an assignment. -/
inductive AssignOp where
  | define
  | assign
  | compound (op : ArithOp)
  deriving Repr, DecidableEq, Inhabited

/-- The keywords of declarations with values. -/
inductive ValueKeyword where
  | var | const
  deriving Repr, DecidableEq, Inhabited

/-- The keywords of jumps. -/
inductive BranchKeyword where
  | breakTo | continueTo | goTo | fallThrough
  deriving Repr, DecidableEq, Inhabited

mutual

/-- Expressions and types. -/
inductive Expr where
  | name (text : String)
  | literal (text : String)
  /-- A literal `T{…}`, or `{…}` inside another composite literal. -/
  | composite (type : Option Expr) (elems : List Expr)
  | keyValue (key value : Expr)
  | funcLit (sig : Signature) (body : List Stmt)
  | paren (x : Expr)
  | selector (x : Expr) (field : String)
  | index (x : Expr) (args : List Expr)
  | slice (x : Expr) (low high max : Option Expr)
  /-- An assertion `x.(T)`, or without a type `x.(type)`. -/
  | assertion (x : Expr) (type : Option Expr)
  /-- A call; `spread` if an argument is followed by `...`. -/
  | call (fn : Expr) (args : List Expr) (spread : Bool)
  | star (x : Expr)
  | unary (op : UnaryOp) (x : Expr)
  | binary (left : Expr) (op : BinaryOp) (right : Expr)
  /-- A type `[N]T`, `[...]T`, or without a length `[]T`. -/
  | arrayType (len : Option Expr) (elem : Expr)
  /-- An ellipsis: `...T` as a parameter type, or `...` as an array length. -/
  | ellipsis (type : Option Expr)
  | structType (fields : List Field)
  | funcType (sig : Signature)
  | interfaceType (items : List InterfaceItem)
  | mapType (key value : Expr)
  | chanType (dir : ChanDir) (elem : Expr)

/-- A field or parameter; without names it is embedded or unnamed. -/
inductive Field where
  | mk (names : List String) (type : Expr)

/-- The parameters and results of a function. -/
inductive Signature where
  | mk (params results : List Field)

/-- What an interface type lists. -/
inductive InterfaceItem where
  | method (name : String) (sig : Signature)
  | union (terms : List Expr)

/-- Statements that fit in the header of a control statement. -/
inductive Simple where
  | expr (x : Expr)
  | assign (left : List Expr) (op : AssignOp) (right : List Expr)
  | inc (x : Expr)
  | dec (x : Expr)
  | send (chan value : Expr)

/-- Statements. -/
inductive Stmt where
  | empty
  | simple (s : Simple)
  | valueDecl (kw : ValueKeyword) (specs : List ValueSpec)
  | typeDecl (specs : List TypeSpec)
  | goCall (call : Expr)
  | deferCall (call : Expr)
  | returnWith (results : List Expr)
  | branch (kw : BranchKeyword) (label : Option String)
  | block (body : List Stmt)
  | labeled (label : String) (body : Stmt)
  /-- The branch after `else` is a block or another conditional. -/
  | ifThen (init : Option Simple) (cond : Expr) (body : List Stmt) (orElse : Option Stmt)
  | switch (typed : Bool) (init tag : Option Simple) (clauses : List CaseClause)
  | select (clauses : List CommClause)
  | loop (init : Option Simple) (cond : Option Expr) (post : Option Simple) (body : List Stmt)
  | range (key value : Option Expr) (define : Bool) (operand : Expr) (body : List Stmt)

/-- One line of a `var` or `const` declaration. -/
inductive ValueSpec where
  | mk (names : List String) (type : Option Expr) (values : List Expr)

/-- One line of a `type` declaration. -/
inductive TypeSpec where
  | mk (name : String) (isAlias : Bool) (type : Expr)

/-- A clause of a `switch`; without expressions it is the default. -/
inductive CaseClause where
  | mk (exprs : Option (List Expr)) (body : List Stmt)

/-- A clause of a `select`; without a communication it is the default. -/
inductive CommClause where
  | mk (comm : Option Simple) (body : List Stmt)

end

instance : Inhabited Expr := ⟨.name ""⟩
instance : Inhabited Stmt := ⟨.empty⟩

namespace ValueSpec

def names : ValueSpec → List String
  | mk ns _ _ => ns

end ValueSpec

namespace Expr

/-- A name, or a name qualified by a package name. -/
def isTypeName : Expr → Bool
  | name _ => true
  | selector (name _) _ => true
  | _ => false

/-- Whether a `{` behind the expression may open a composite literal. -/
def isLiteralType : Expr → Bool
  | name _ | arrayType .. | structType _ | mapType .. => true
  | selector (name _) _ => true
  | index x _ => x.isLiteralType
  | _ => false

end Expr

end GoRepl.Syntax
