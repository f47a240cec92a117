import GoRepl.Log.Entry
import GoRepl.Proofs.Token.Pieces
import GoRepl.Proofs.Token.Trimmed

/-! # The tokens of the print of a source

The print of an expression is written around the text of the expression.  Its tokens are those of
the text, with those of the two calls around them, unless the text ends in a line comment: then the
closing parentheses belong to the comment.

* `Echo.fits`: whether the closing parentheses come behind the last token, on its line.
* `Echo.kinds_expression`: the tokens of the print.
* `Echo.kinds_comment`: its tokens when the text ends in a line comment.
-/

namespace GoRepl

namespace Piece

/-- The piece is a comment to the end of its line. -/
def isLineComment : Piece → Bool
  | lineComment _ => true
  | _ => false

end Piece

namespace Echo

open Piece

/-- The text has a last token that may end a statement, and what is written behind the text comes
behind that token, on the same line. -/
def fits (text : String) : Bool :=
  match cut text.toList with
  | .ok ps => endsBehind false ps && !ps.getLast?.any isLineComment
  | .error _ => false

/-- The pieces of the print in front of the expression. -/
def opening : List Piece :=
  [written (.name "fmt") "fmt".toList, written (.symbol .period) ['.'],
    written (.name "Printf") "Printf".toList, written (.symbol .lparen) ['('],
    written (.literal .string "\"%v\"") "\"%v\"".toList, written (.symbol .comma) [','], blank ' ',
    written (.name firstHelper) firstHelper.toList, written (.symbol .lparen) ['(']]

theorem fronts_opening (z : List Char) : Fronts z opening :=
  ⟨⟨_, _, rfl, rfl⟩, ⟨_, _, rfl, rfl⟩, ⟨_, _, rfl, rfl⟩, ⟨_, _, rfl, rfl⟩, ⟨_, _, rfl, rfl⟩,
    ⟨_, _, rfl, rfl⟩, ⟨_, _, rfl, rfl⟩, ⟨_, _, rfl, rfl⟩, ⟨_, _, rfl, rfl⟩, trivial⟩

theorem toList_expression (source : String) : (expression source).toList =
    opening.flatMap text ++ ((Text.trim source).toList ++ [')', ')']) := by
  unfold expression
  simp only [String.toList_append, List.append_assoc]
  rfl

/-- The parentheses that close the two calls. -/
def closing : List Piece := [written (.symbol .rparen) [')'], written (.symbol .rparen) [')']]

theorem inert_closing : Inert [')', ')'] := by
  intro c hc
  obtain rfl : c = ')' := by simpa using hc
  rfl

theorem cut_closing : cut [')', ')'] = .ok closing := by
  rw [cut_eq_behind (p := written (.symbol .rparen) [')']) rfl]
  change behind _ (cut [')']) = _
  rw [cut_eq_behind (p := written (.symbol .rparen) [')']) rfl]
  change behind _ (behind _ (cut [])) = _
  rw [cut]
  rfl

variable {source : String} {ps : List Piece}

/-- The tokens of the expression with those of the calls around them. -/
theorem kinds_expression (h : cut (Text.trim source).toList = .ok ps)
    (hlast : ps.getLast?.any isLineComment = false) :
    ∃ qs, cut (expression source).toList = .ok qs ∧ kinds false qs = front false opening ++
      (front false ps ++ [.symbol .rparen, .symbol .rparen, .newline, .eof]) := by
  have hcomment : ∀ t, ps.getLast? ≠ some (lineComment t) := by
    intro t ht
    rw [ht] at hlast
    cases hlast
  refine ⟨opening ++ (ps ++ closing), ?_, ?_⟩
  · rw [toList_expression, cut_fronts (fronts_opening _), cut_inert inert_closing h hcomment,
      cut_closing]
    rfl
  · rw [kinds_append, kinds_append]
    rfl

/-- A line comment takes the closing parentheses. -/
theorem kinds_comment (h : cut (Text.trim source).toList = .ok ps)
    (hlast : ps.getLast?.any isLineComment = true) :
    ∃ qs, cut (expression source).toList = .ok qs ∧
      kinds false qs = front false opening ++ kinds false ps := by
  rcases getLast?_eq_lineComment ps with hnone | ⟨ps', t, rfl⟩
  · obtain ⟨p, hp, hcomment⟩ := Option.any_eq_true _ _ |>.mp hlast
    cases p with
    | lineComment t => exact absurd hp (hnone t)
    | _ => cases hcomment
  refine ⟨opening ++ (ps' ++ [lineComment (t ++ [')', ')'])]), ?_, ?_⟩
  · have hinert : Inert ([')', ')'] ++ []) := inert_closing
    have hcut := cut_comment hinert (by decide) (.inl rfl) h
    rw [List.append_nil] at hcut
    rw [toList_expression, cut_fronts (fronts_opening _), hcut, cut]
    simp only [behind, List.append_nil]
  · rw [kinds_append, kinds_append, kinds_append]
    rfl

end Echo

end GoRepl
