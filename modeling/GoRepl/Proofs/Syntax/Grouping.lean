import GoRepl.Proofs.Syntax.FormedStatements

/-! # How operators are grouped

The root of a chain of operators is the last one of those that bind least tightly.  So tighter
operators are grouped before looser ones, and those that bind alike from the left.

* `Expr.operators`: the operators of a chain, in order.
* `TokenStream.grouped_of_isTree`: the grouping of every chain in a parsed tree.
-/

namespace GoRepl.Syntax

namespace Expr

/-- The operators of the chain that the expression is, in order. -/
def operators : Expr → List BinaryOp
  | binary left op right => left.operators ++ op :: right.operators
  | _ => []

/-- Where the operators keep the rule at every depth, all in a chain bind at least as tightly as
the root. -/
theorem le_precedence_of_mem_operators {x : Expr} (h : (Node.expr x).Sound) {p : Nat}
    (hroot : ∀ o ∈ x.operator?, p ≤ o.precedence) : ∀ o ∈ x.operators, p ≤ o.precedence := by
  induction x using operators.induct generalizing p with
  | case1 left op right ihl ihr =>
    obtain ⟨⟨⟨-, hleft, hright⟩, -⟩, hchildren⟩ := Node.every_iff.mp h
    have hop : p ≤ op.precedence := hroot op rfl
    rw [operators]
    refine List.forall_mem_append.mpr ⟨?_, List.forall_mem_cons.mpr ⟨hop, ?_⟩⟩
    · exact ihl (hchildren _ (.head _)) fun o ho => hop.trans (hleft o ho)
    · exact ihr (hchildren _ (.tail _ (.head _))) fun o ho => hop.trans (hright o ho).le
  | case2 x hx =>
    rw [operators.eq_2 x hx]
    exact nofun

end Expr

namespace TokenStream

/-- In every parsed tree, whatever the tokens, each operator stands between the operators that bind
at least as tightly and those that bind more tightly. -/
theorem grouped_of_isTree {ts : List Token} {root : Node} (h : (ofTokens ts).IsTree root)
    {x : Expr} (hx : Within (.expr x) root) : x.Grouped ∧
      ∀ left op right, x = .binary left op right →
        (∀ o ∈ left.operators, op.precedence ≤ o.precedence) ∧
        ∀ o ∈ right.operators, op.precedence < o.precedence := by
  have hsound : (Node.expr x).Sound := (sound_of_isTree h).within hx
  refine ⟨hsound.head.1, ?_⟩
  rintro left op right rfl
  obtain ⟨⟨⟨-, hleft, hright⟩, -⟩, hchildren⟩ := Node.every_iff.mp hsound
  exact ⟨Expr.le_precedence_of_mem_operators (hchildren _ (.head _)) hleft,
    Expr.le_precedence_of_mem_operators (hchildren _ (.tail _ (.head _))) hright⟩

theorem grouped_sum :
    let op (o : ArithOp) : Kind := .symbol (.binary (.arith o))
    let ts := spell [.name "a", op .add, .name "b", op .mul, .name "c", op .sub, op .sub, .name "d",
      .newline, .eof]
    let left : Expr :=
      .binary (.name "a") (.arith .add) (.binary (.name "b") (.arith .mul) (.name "c"))
    let x : Expr := .binary left (.arith .sub) (.unary .sub (.name "d"))
    (ofTokens ts).IsTree (.expr x) ∧ Within (.expr left) (.expr x) ∧ left.Grouped ∧
      ∀ l op r, left = .binary l op r →
        (∀ o ∈ l.operators, op.precedence ≤ o.precedence) ∧
        ∀ o ∈ r.operators, op.precedence < o.precedence := by
  intro op ts left x
  have htree : (ofTokens ts).IsTree (.expr x) := .expression rfl
  have hleft : Within (.expr left) (.expr x) := .child (.head _) (.self _)
  exact ⟨htree, hleft, grouped_of_isTree htree hleft⟩

end TokenStream

end GoRepl.Syntax
