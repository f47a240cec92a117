import GoRepl.Syntax.Reader
import GoRepl.Syntax.Tree

/-! # Phrases

The grammar is written as one reader per phrase.  A reader may call the reader of any phrase again,
but only behind a token it has consumed; that is why reading ends.

* `Phrase`: the phrases, each with the type of what it reads.
* `Phrases`: a reader for every phrase, which the readers of the grammar are given for their nested
  parts.
-/

namespace GoRepl.Syntax

/-- What can be read behind a token, indexed by the type of the result. -/
inductive Phrase : Type → Type where
  /-- An expression whose operators bind at least as tightly as `prec`. -/
  | binary (prec : Nat) : Phrase Expr
  /-- The operators and operands that extend `left`. -/
  | binaryTail (prec : Nat) (left : Expr) : Phrase Expr
  | unary : Phrase Expr
  /-- The selectors, indices, calls and literal bodies that extend `x`. -/
  | primaryTail (x : Expr) : Phrase Expr
  /-- Any number of `, x`. -/
  | exprsTail : Phrase (List Expr)
  /-- Call arguments up to the bracket, and whether one is spread. -/
  | args : Phrase (List Expr × Bool)
  /-- Elements of a composite literal up to the brace. -/
  | elems : Phrase (List Expr)
  | type : Phrase Expr
  /-- Any number of `, T`. -/
  | typesTail : Phrase (List Expr)
  /-- Any number of `, T`; the last comma may stand alone before `]`. -/
  | typeArgsTail : Phrase (List Expr)
  /-- Any number of `, name`. -/
  | namesTail : Phrase (List String)
  | fields : Phrase (List Field)
  | interfaceItems : Phrase (List InterfaceItem)
  /-- Any number of `| T`. -/
  | unionTail : Phrase (List Expr)
  | params : Phrase (List Field)
  | stmt : Phrase Stmt
  /-- Statements up to a brace or the next clause. -/
  | stmts : Phrase (List Stmt)
  /-- A conditional behind `else`. -/
  | conditional : Phrase Stmt
  | caseClauses : Phrase (List CaseClause)
  | commClauses : Phrase (List CommClause)
  /-- The lines of a grouped `var` or `const` declaration; `first` holds for the first of them. -/
  | valueSpecs (kw : ValueKeyword) (first : Bool) : Phrase (List ValueSpec)
  | typeSpecs : Phrase (List TypeSpec)

/-- A reader for every phrase. -/
abbrev Phrases : Type 1 := {α : Type} → Phrase α → Read α

end GoRepl.Syntax
