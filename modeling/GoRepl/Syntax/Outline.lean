import GoRepl.Syntax.Tree

/-! # Trees as text

A tree is written as nested parentheses: the name of the node, then its parts, separated by single
spaces.  Names and literals stand in double quotes, an absent part is `-`, an empty list is `()`.

* `Expr.outline`, `Stmt.outline`: the text of a tree.
-/

namespace GoRepl

/-- The name of an arithmetic operator. -/
def ArithOp.label : ArithOp → String
  | add => "Add"
  | sub => "Sub"
  | mul => "Mul"
  | quo => "Quo"
  | rem => "Rem"
  | and => "And"
  | or => "Or"
  | xor => "Xor"
  | shl => "Shl"
  | shr => "Shr"
  | andNot => "AndNot"

/-- The name of an operator between two operands. -/
def BinaryOp.label : BinaryOp → String
  | arith op => op.label
  | lor => "LOr"
  | land => "LAnd"
  | eql => "Eql"
  | neq => "Neq"
  | lss => "Lss"
  | leq => "Leq"
  | gtr => "Gtr"
  | geq => "Geq"

namespace Syntax

/-- The name of an operator before one operand. -/
def UnaryOp.label : UnaryOp → String
  | add => "Add"
  | sub => "Sub"
  | not => "Not"
  | xor => "Xor"
  | and => "And"
  | tilde => "Tilde"
  | arrow => "Arrow"

def ChanDir.label : ChanDir → String
  | both => "Both"
  | send => "Send"
  | recv => "Recv"

def AssignOp.label : AssignOp → String
  | define => "Define"
  | assign => "Assign"
  | compound op => op.spelling ++ "="

def ValueKeyword.label : ValueKeyword → String
  | var => "Var"
  | const => "Const"

def BranchKeyword.label : BranchKeyword → String
  | breakTo => "Break"
  | continueTo => "Continue"
  | goTo => "Goto"
  | fallThrough => "Fallthrough"

namespace Outline

/-- One character of a quoted string: short escapes where there are any, `\u` and four digits for
the other control characters. -/
def quoteChar (c : Char) : String :=
  if c = '"' then "\\\""
  else if c = '\\' then "\\\\"
  else if c = '\n' then "\\n"
  else if c = '\r' then "\\r"
  else if c = '\t' then "\\t"
  else if c = '\x08' then "\\b"
  else if c = '\x0c' then "\\f"
  else if c.toNat < 0x20 then
    "\\u00" ++ String.ofList [Nat.digitChar (c.toNat / 16), Nat.digitChar (c.toNat % 16)]
  else c.toString

/-- A string in double quotes. -/
def quote (s : String) : String := "\"" ++ String.join (s.toList.map quoteChar) ++ "\""

/-- A parenthesized list. -/
def group (parts : List String) : String := "(" ++ " ".intercalate parts ++ ")"

/-- A node with its name and parts. -/
def node (head : String) (parts : List String) : String := group (head :: parts)

/-- A quoted string, or the mark of its absence. -/
def quote? : Option String → String
  | some s => quote s
  | none => "-"

def bool (b : Bool) : String := if b then "true" else "false"

mutual

def expr : Expr → String
  | .name n => node "id" [quote n]
  | .literal t => node "lit" [quote t]
  | .composite t es => node "composite" (expr? t :: exprs es)
  | .keyValue k v => node "kv" [expr k, expr v]
  | .funcLit s b => node "func" [sig s, node "block" (stmts b)]
  | .paren x => node "paren" [expr x]
  | .selector x f => node "sel" [expr x, quote f]
  | .index x is => node "index" (expr x :: exprs is)
  | .slice x l h m => node "slice" [expr x, expr? l, expr? h, expr? m]
  | .assertion x t => node "assert" [expr x, expr? t]
  | .call f as spread => node (if spread then "call..." else "call") (expr f :: exprs as)
  | .star x => node "star" [expr x]
  | .unary op x => node "unary" [op.label, expr x]
  | .binary l op r => node "binary" [expr l, op.label, expr r]
  | .arrayType n t => node "array" [expr? n, expr t]
  | .ellipsis t => node "ellipsis" [expr? t]
  | .structType fs => node "struct" (fields fs)
  | .funcType s => node "functype" [sig s]
  | .interfaceType is => node "interface" (items is)
  | .mapType k v => node "map" [expr k, expr v]
  | .chanType d t => node "chan" [d.label, expr t]

def exprs : List Expr → List String
  | [] => []
  | x :: xs => expr x :: exprs xs

def expr? : Option Expr → String
  | some x => expr x
  | none => "-"

def exprGroup? : Option (List Expr) → List String
  | some xs => ["case", group (exprs xs)]
  | none => ["default"]

def field : Field → String
  | .mk ns t => node "field" [group (ns.map quote), expr t]

def fields : List Field → List String
  | [] => []
  | f :: fs => field f :: fields fs

def sig : Signature → String
  | .mk ps rs => node "sig" [group (fields ps), group (fields rs)]

def item : InterfaceItem → String
  | .method n s => node "method" [quote n, sig s]
  | .union ts => node "union" (exprs ts)

def items : List InterfaceItem → List String
  | [] => []
  | i :: is => item i :: items is

def simple : Simple → String
  | .expr x => node "expr" [expr x]
  | .assign l op r => node "assign" [op.label, group (exprs l), group (exprs r)]
  | .inc x => node "inc" [expr x]
  | .dec x => node "dec" [expr x]
  | .send c v => node "send" [expr c, expr v]

def simple? : Option Simple → String
  | some s => simple s
  | none => "-"

def stmt : Stmt → String
  | .empty => node "empty" []
  | .simple s => simple s
  | .valueDecl kw ss => node "decl" (kw.label :: valueSpecs ss)
  | .typeDecl ss => node "decl" ("Type" :: typeSpecs ss)
  | .goCall x => node "go" [expr x]
  | .deferCall x => node "defer" [expr x]
  | .returnWith xs => node "return" (exprs xs)
  | .branch kw l => node "branch" [kw.label, quote? l]
  | .block b => node "block" (stmts b)
  | .labeled l s => node "label" [quote l, stmt s]
  | .ifThen i c b e => node "if" [simple? i, expr c, node "block" (stmts b), stmt? e]
  | .switch typed i t cs =>
    node (if typed then "typeswitch" else "switch") (simple? i :: simple? t :: caseClauses cs)
  | .select cs => node "select" (commClauses cs)
  | .loop i c p b => node "for" [simple? i, expr? c, simple? p, node "block" (stmts b)]
  | .range k v d x b =>
    node "range" [expr? k, expr? v, bool d, expr x, node "block" (stmts b)]

def stmts : List Stmt → List String
  | [] => []
  | s :: ss => stmt s :: stmts ss

def stmt? : Option Stmt → String
  | some s => stmt s
  | none => "-"

def valueSpec : ValueSpec → String
  | .mk ns t vs => node "value" [group (ns.map quote), expr? t, group (exprs vs)]

def valueSpecs : List ValueSpec → List String
  | [] => []
  | s :: ss => valueSpec s :: valueSpecs ss

def typeSpec : TypeSpec → String
  | .mk n a t => node "type" [quote n, bool a, expr t]

def typeSpecs : List TypeSpec → List String
  | [] => []
  | s :: ss => typeSpec s :: typeSpecs ss

def caseClause : CaseClause → String
  | .mk es b => group (exprGroup? es ++ stmts b)

def caseClauses : List CaseClause → List String
  | [] => []
  | c :: cs => caseClause c :: caseClauses cs

def commClause : CommClause → String
  | .mk none b => node "default" (stmts b)
  | .mk (some s) b => node "comm" (simple s :: stmts b)

def commClauses : List CommClause → List String
  | [] => []
  | c :: cs => commClause c :: commClauses cs

end

end Outline

/-- The tree of an expression as text. -/
def Expr.outline (x : Expr) : String := Outline.expr x

/-- The tree of a statement as text. -/
def Stmt.outline (s : Stmt) : String := Outline.stmt s

end Syntax

end GoRepl
