import GoRepl.Syntax.Parser
import GoRepl.Text.Blank

/-! # What a fragment does

A fragment imports packages, declares or assigns names, is a bare expression, or is some other
statement.  Only the outermost construct counts; names inside nested statements do not.

* `Shape`: what a fragment does.
* `Shape.ofImport`, `Shape.ofStatement`: the shape of a fragment read as one or the other.
* `Shape.ofSource`: a fragment that starts with the word `import` is read as an import.
-/

namespace GoRepl

open Syntax

/-- What a bare expression does when it runs. -/
inductive ExpressionUse where
  | call
  | receive
  /-- Worth running only to see its value. -/
  | value
  deriving Repr, DecidableEq, Inhabited

/-- What a fragment does. -/
inductive Shape where
  /-- Imports the packages with these paths. -/
  | imports (paths : List String)
  /-- Declares names with `:=`, `var` or `const`. -/
  | declares (names : List String)
  /-- Gives names another value. -/
  | assigns (names : List String)
  | expression (use : ExpressionUse)
  | other
  deriving Repr, DecidableEq, Inhabited

namespace Shape

/-- The imported packages. -/
def imported : Shape → List String
  | imports paths => paths
  | _ => []

/-- The declared names. -/
def declared : Shape → List String
  | declares names => names
  | _ => []

/-- The assigned names. -/
def assigned : Shape → List String
  | assigns names => names
  | _ => []

/-- How a bare expression is used. -/
def use? : Shape → Option ExpressionUse
  | expression u => some u
  | _ => none

/-- Whether some package is imported. -/
def isImport (s : Shape) : Bool := !s.imported.isEmpty

/-- The names among assignment targets, without the blank one. -/
def targetNames (targets : List Expr) : List String :=
  targets.filterMap fun
    | .name n => if n = "_" then none else some n
    | _ => none

/-- A call and a receive keep their use in parentheses; all else is a value. -/
def useOf : Expr → ExpressionUse
  | .call .. => .call
  | .unary .arrow _ => .receive
  | .paren x => useOf x
  | _ => .value

/-- What a statement does. -/
def ofStmt : Stmt → Shape
  | .simple (.assign left .define _) => declares (targetNames left)
  | .simple (.assign left _ _) => assigns (targetNames left)
  | .simple (.expr x) => expression (useOf x)
  | .valueDecl _ specs => declares (specs.flatMap (·.names.filter (· ≠ "_")))
  | _ => other

/-- The shape of an import declaration. -/
def ofImport (source : String) : Except ParseError Shape :=
  (parseImports source).map fun specs => imports (specs.map (·.path))

/-- The shape of a statement. -/
def ofStatement (source : String) : Except ParseError Shape :=
  (parseFragment source).map ofStmt

/-- Whether the first word of the text is `import`. -/
def startsWithImport (source : String) : Bool :=
  let cs := Text.trimStart source.toList
  let word := "import".toList
  word.isPrefixOf cs &&
    match cs.drop word.length with
    | c :: _ => !Number.isWordChar c
    | [] => true

/-- The shape of a fragment. -/
def ofSource (source : String) : Except ParseError Shape :=
  if startsWithImport source then ofImport source else ofStatement source

end Shape

end GoRepl
