import GoRepl.Token.Lexer

/-! # Why a token list is not a fragment

* `Wanted`: what a reader wanted to see at a token.
* `SyntaxFault`: the causes of rejection.
* `ParseError`: a cause and the token it was found at, or a fault of the tokens themselves.
-/

namespace GoRepl.Syntax

/-- What a reader wanted to see. -/
inductive Wanted where
  | token (kind : Kind)
  | name
  | statementEnd
  | statement
  | importPath
  | expression
  | assignment
  | elseBranch
  | loopClause
  | clause
  | selector
  | type
  | field
  deriving Repr, DecidableEq, Inhabited

/-- How messages describe what was wanted. -/
def Wanted.display : Wanted → String
  | token k => k.display
  | name => "name"
  | statementEnd => "';' or newline"
  | statement => "statement"
  | importPath => "import path"
  | expression => "expression"
  | assignment => "':=' or '=' or comma"
  | elseBranch => "if statement or block"
  | loopClause => "';' in for clause"
  | clause => "case or default"
  | selector => "selector or type assertion"
  | type => "type"
  | field => "field name or embedded type"

/-- Why a token list is rejected at a token. -/
inductive SyntaxFault where
  | unexpected (wanted : Wanted)
  /-- Something follows the fragment. -/
  | trailing
  | emptyImportPath
  /-- What follows `go` or `defer` is not a call. -/
  | notCall (keyword : Keyword)
  | rangeVariables
  | compoundOperands (op : ArithOp)
  | missingCondition
  | assignmentAsCondition
  | loopCondition
  | untypedVariable
  | uninitializedConstant
  | channelDirection
  | sliceIndices
  /-- The reader used up its bound on nested steps. -/
  | tooDeep
  deriving Repr, DecidableEq, Inhabited

/-- The wording of a fault found at a token of kind `found`. -/
def SyntaxFault.message (found : Kind) : SyntaxFault → String
  | unexpected w => "unexpected " ++ found.display ++ ", expected " ++ w.display
  | trailing => "unexpected " ++ found.display ++ " after top level statement"
  | emptyImportPath => "invalid import path: empty string"
  | notCall k => "expression in " ++ k.spelling ++ " must be function call"
  | rangeVariables => "range clause permits at most two iteration variables"
  | compoundOperands op =>
    "assignment operation " ++ op.spelling ++ "= requires single-valued expressions"
  | missingCondition => "missing condition in if statement"
  | assignmentAsCondition => "cannot use assignment as value in if condition"
  | loopCondition => "expected for loop condition"
  | untypedVariable => "missing variable type or initialization"
  | uninitializedConstant => "missing init expr for const declaration"
  | channelDirection => "invalid channel direction"
  | sliceIndices => "middle and final index required in 3-index slice"
  | tooDeep => "statement nested too deeply"

/-- A cause, the kind of the token it was found at, and where that token starts. -/
structure SyntaxError where
  fault : SyntaxFault
  found : Kind
  line : Nat
  col : Nat
  deriving Repr, DecidableEq, Inhabited

/-- The place, then what is wrong there. -/
def SyntaxError.message (e : SyntaxError) : String :=
  toString e.line ++ ":" ++ toString e.col ++ ": syntax error: " ++ e.fault.message e.found

/-- Why a source text is not a fragment. -/
inductive ParseError where
  | lexical (e : LexError)
  | syntactic (e : SyntaxError)
  deriving Repr, DecidableEq, Inhabited

/-- The wording of the error. -/
def ParseError.message : ParseError → String
  | lexical e => e.message
  | syntactic e => e.message

end GoRepl.Syntax
