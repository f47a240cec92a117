import GoRepl.Log.Entry
import GoRepl.Proofs.Syntax.Control
import GoRepl.Proofs.Syntax.ExchangedPhrases

/-! # An expression inside of the call that prints it

The argument of a call is read two levels of grammar further down than a fragment.  The call is
read if the argument ends in front of its closing parentheses, and rejected if it does not.

* `expr_of_name`, `primaryTail_of_call`: the readers that the call is made of, one equation each.
* `expr_call_args`, `expr_call`, `expr_call_open`: a call of a function with a name.
* `stmt_of_expr`, `stmt_of_expr_error`: a statement that is one expression.
* `printed`: the statement that prints an expression; `expr_printf_args`, `expr_printf`,
  `expr_printf_error`: its call.
-/

namespace GoRepl

/-- Behind an operand, such a token ends the expression. -/
def Kind.endsExpression : Kind → Bool
  | .newline | .symbol .semicolon | .symbol .rparen | .symbol .comma => true
  | _ => false

namespace Syntax

open Read Grammar

variable {rec : Phrases} {t p f : Token} {ts zs : List Token} {l : Int} {x : Expr} {n : String}

/-! ## One equation for each reader -/

theorem expr_of_name (ht : t.kind = .name n) : expr rec ⟨t :: ts, l⟩ =
    (rec (.primaryTail (.name n)) >>= fun x => rec (.binaryTail 1 x)) ⟨ts, l⟩ := by
  obtain ⟨k, span⟩ := t
  cases ht
  rfl

theorem expr_of_literal {cls : LiteralClass} (ht : t.kind = .literal cls n) :
    expr rec ⟨t :: ts, l⟩ =
      (rec (.primaryTail (.literal n)) >>= fun x => rec (.binaryTail 1 x)) ⟨ts, l⟩ := by
  obtain ⟨k, span⟩ := t
  cases ht
  rfl

theorem primaryTail_of_selector (hp : p.kind = .symbol .period) (hf : f.kind = .name n) :
    primaryTail rec x ⟨p :: f :: ts, l⟩ = rec (.primaryTail (.selector x n)) ⟨ts, l⟩ := by
  obtain ⟨kp, sp⟩ := p
  obtain ⟨kf, sf⟩ := f
  cases hp
  cases hf
  rfl

theorem primaryTail_of_call (hp : p.kind = .symbol .lparen) : primaryTail rec x ⟨p :: ts, l⟩ =
    (call rec x >>= fun y => rec (.primaryTail y)) ⟨p :: ts, l⟩ := by
  rw [primaryTail, peek_bind, show headKind (p :: ts) = .symbol .lparen from hp]

theorem primaryTail_of_end (hz : (headKind zs).endsExpression = true) :
    primaryTail rec x ⟨zs, l⟩ = .ok (x, ⟨zs, l⟩) := by
  rw [primaryTail, peek_bind]
  generalize headKind zs = k at hz
  unfold Kind.endsExpression at hz
  split at hz
  all_goals first | rfl | cases hz

theorem binaryTail_of_end (hz : (headKind zs).endsExpression = true) (prec : Nat) :
    binaryTail rec prec x ⟨zs, l⟩ = .ok (x, ⟨zs, l⟩) := by
  rw [binaryTail, peek_bind]
  generalize headKind zs = k at hz
  unfold Kind.endsExpression at hz
  split at hz
  all_goals first | rfl | cases hz

theorem expect_cons {sym : Symbol} (hp : p.kind = .symbol sym) :
    expect sym ⟨p :: ts, l⟩ = .ok ((), ⟨ts, l⟩) := by
  have hhead : headKind (p :: ts) = .symbol sym := hp
  exact expect_of_head hhead l

theorem call_of_args {as : List Expr} {spread : Bool} (hp : p.kind = .symbol .lparen)
    (hargs : rec .args ⟨ts, l + 1⟩ = .ok ((as, spread), ⟨zs, l + 1⟩)) :
    call rec x ⟨p :: ts, l⟩ =
      (expect .rparen >>= fun _ => pure (Expr.call x as spread)) ⟨zs, l⟩ := by
  unfold call
  rw [bind_of_ok (expect_cons hp), bind_of_ok (nested_of_ok hargs)]

theorem call_of_args_error {e : ReadFault} (hp : p.kind = .symbol .lparen)
    (hargs : rec .args ⟨ts, l + 1⟩ = .error e) : call rec x ⟨p :: ts, l⟩ = .error e := by
  unfold call
  rw [bind_of_ok (expect_cons hp), bind_of_error (nested_eq_error.mpr hargs)]

theorem args_of_start (hstart : startsSimple (headKind ts) = true) : args rec ⟨ts, l⟩ =
    (expr rec >>= fun x => atSymbol .ellipsis >>= fun spread => (do
      if spread then skip
      if ← atSymbol .comma then do
        skip
        let (xs, more) ← rec .args
        return (x :: xs, spread || more)
      else return ([x], spread))) ⟨ts, l⟩ := by
  unfold args atListEnd
  rw [bind_assoc, peek_bind]
  have hnot : ∀ k, startsSimple k = false → (headKind ts == k) = false := by
    intro k hk
    rw [beq_eq_false_iff_ne]
    rintro rfl
    rw [hstart] at hk
    cases hk
  rw [pure_bind, hnot _ rfl, hnot _ rfl]
  rfl

theorem args_of_last (hstart : startsSimple (headKind ts) = true)
    (hx : expr rec ⟨ts, l⟩ = .ok (x, ⟨zs, l⟩)) (he : headKind zs ≠ .symbol .ellipsis)
    (hc : headKind zs ≠ .symbol .comma) : args rec ⟨ts, l⟩ = .ok (([x], false), ⟨zs, l⟩) := by
  rw [args_of_start hstart, bind_of_ok hx, atSymbol_bind, beq_eq_false_iff_ne.mpr he]
  change (atSymbol .comma >>= _) _ = _
  rw [atSymbol_bind, beq_eq_false_iff_ne.mpr hc]
  rfl

theorem args_of_comma (hstart : startsSimple (headKind ts) = true)
    (hx : expr rec ⟨ts, l⟩ = .ok (x, ⟨p :: zs, l⟩)) (hp : p.kind = .symbol .comma) :
    args rec ⟨ts, l⟩ =
      (rec .args >>= fun more => pure (x :: more.1, false || more.2)) ⟨zs, l⟩ := by
  rw [args_of_start hstart, bind_of_ok hx]
  obtain ⟨k, span⟩ := p
  cases hp
  rfl

theorem args_of_error {e : ReadFault} (hstart : startsSimple (headKind ts) = true)
    (hx : expr rec ⟨ts, l⟩ = .error e) : args rec ⟨ts, l⟩ = .error e := by
  rw [args_of_start hstart, bind_of_error hx]

/-! ## Calls -/

section Call

variable {k : Nat} {as : List Expr} {spread : Bool} (hp : p.kind = .symbol .lparen)

include hp

theorem primaryTail_call (hargs : Phrase.read (k + 1) .args ⟨ts, l + 1⟩ =
    .ok ((as, spread), ⟨t :: zs, l + 1⟩)) (ht : t.kind = .symbol .rparen)
    (hz : (headKind zs).endsExpression = true) :
    Phrase.read (k + 2) (.primaryTail x) ⟨p :: ts, l⟩ = .ok (.call x as spread, ⟨zs, l⟩) := by
  change primaryTail (Phrase.read (k + 1)) x ⟨p :: ts, l⟩ = _
  have hcall : call (Phrase.read (k + 1)) x ⟨p :: ts, l⟩ = .ok (.call x as spread, ⟨zs, l⟩) := by
    rw [call_of_args hp hargs, bind_of_ok (expect_cons ht)]
    rfl
  rw [primaryTail_of_call hp, bind_of_ok hcall]
  exact primaryTail_of_end hz

/-- A call whose arguments do not end in front of a closing parenthesis. -/
theorem primaryTail_call_open (hargs : Phrase.read (k + 1) .args ⟨ts, l + 1⟩ =
    .ok ((as, spread), ⟨zs, l + 1⟩)) (hz : headKind zs ≠ .symbol .rparen) :
    ∃ e, Phrase.read (k + 2) (.primaryTail x) ⟨p :: ts, l⟩ = .error e := by
  change ∃ e, primaryTail (Phrase.read (k + 1)) x ⟨p :: ts, l⟩ = .error e
  have hcall : ∃ e, call (Phrase.read (k + 1)) x ⟨p :: ts, l⟩ = .error e := by
    rw [call_of_args hp hargs, bind_of_error (expect_of_head_ne hz l)]
    exact ⟨_, rfl⟩
  obtain ⟨e, he⟩ := hcall
  rw [primaryTail_of_call hp, bind_of_error he]
  exact ⟨e, rfl⟩

theorem primaryTail_call_error {e : ReadFault}
    (hargs : Phrase.read (k + 1) .args ⟨ts, l + 1⟩ = .error e) :
    Phrase.read (k + 2) (.primaryTail x) ⟨p :: ts, l⟩ = .error e := by
  change primaryTail (Phrase.read (k + 1)) x ⟨p :: ts, l⟩ = _
  rw [primaryTail_of_call hp, bind_of_error (call_of_args_error hp hargs)]

end Call

section Argument

variable {k : Nat} {name : String} (hf : f.kind = .name name) (hp : p.kind = .symbol .lparen)

include hf hp

theorem expr_call_args {as : List Expr} {spread : Bool}
    (hargs : Phrase.read (k + 1) .args ⟨ts, l + 1⟩ = .ok ((as, spread), ⟨t :: zs, l + 1⟩))
    (ht : t.kind = .symbol .rparen) (hz : (headKind zs).endsExpression = true) :
    Phrase.read (k + 3) (.binary 1) ⟨f :: p :: ts, l⟩ =
      .ok (.call (.name name) as spread, ⟨zs, l⟩) := by
  change expr (Phrase.read (k + 2)) _ = _
  rw [expr_of_name hf, bind_of_ok (primaryTail_call hp hargs ht hz)]
  exact binaryTail_of_end hz 1

theorem expr_call (hx : Phrase.read (k + 1) (.binary 1) ⟨ts, l + 1⟩ = .ok (x, ⟨t :: zs, l + 1⟩))
    (ht : t.kind = .symbol .rparen) (hz : (headKind zs).endsExpression = true) :
    Phrase.read (k + 3) (.binary 1) ⟨f :: p :: ts, l⟩ =
      .ok (.call (.name name) [x] false, ⟨zs, l⟩) := by
  have hhead : headKind (t :: zs) = .symbol .rparen := ht
  have hargs : Phrase.read (k + 1) .args ⟨ts, l + 1⟩ = .ok (([x], false), ⟨t :: zs, l + 1⟩) :=
    args_of_last (expr_starts hx) hx (by rw [hhead]; decide) (by rw [hhead]; decide)
  exact expr_call_args hf hp hargs ht hz

theorem expr_call_open (hx : Phrase.read (k + 1) (.binary 1) ⟨ts, l + 1⟩ = .ok (x, ⟨zs, l + 1⟩))
    (hz : (headKind zs).isSemicolon = true) :
    ∃ e, Phrase.read (k + 3) (.binary 1) ⟨f :: p :: ts, l⟩ = .error e := by
  have hne : ∀ sym, sym ≠ .semicolon → headKind zs ≠ .symbol sym := by
    intro sym hsym hk
    rcases isSemicolon_iff.mp hz with h | h
    · rw [h] at hk
      cases hk
    · rw [h] at hk
      cases hk
      exact hsym rfl
  have hargs : Phrase.read (k + 1) .args ⟨ts, l + 1⟩ = .ok (([x], false), ⟨zs, l + 1⟩) :=
    args_of_last (expr_starts hx) hx (hne _ (by decide)) (hne _ (by decide))
  obtain ⟨e, he⟩ := primaryTail_call_open (x := .name name) hp hargs (hne _ (by decide))
  change ∃ e, expr (Phrase.read (k + 2)) _ = .error e
  rw [expr_of_name hf, bind_of_error he]
  exact ⟨e, rfl⟩

end Argument

/-! ## Statements that are one expression -/

theorem stmt_of_start (hstart : startsSimple (headKind ts) = true) :
    stmt rec ⟨ts, l⟩ = simpleOrLabeled rec ⟨ts, l⟩ := by
  rw [stmt, peek_bind, if_pos hstart]

/-- An expression in front of a semicolon or the end of the source is a statement. -/
theorem stmt_of_expr {k : Nat} (hx : Phrase.read (k + 2) (.binary 1) ⟨ts, l⟩ = .ok (x, ⟨zs, l⟩))
    (hz : zs = [] ∨ (headKind zs).isSemicolon = true) :
    Phrase.read (k + 2) .stmt ⟨ts, l⟩ = .ok (.simple (.expr x), ⟨zs.tail, l⟩) := by
  have hkind : headKind zs = .eof ∨ headKind zs = .newline ∨ headKind zs = .symbol .semicolon := by
    rcases hz with rfl | hz
    · exact .inl rfl
    · exact .inr (isSemicolon_iff.mp hz)
  have hexpr : expr (Phrase.read (k + 1)) ⟨ts, l⟩ = .ok (x, ⟨zs, l⟩) := hx
  have htail : Phrase.read (k + 1) .exprsTail ⟨zs, l⟩ = .ok ([], ⟨zs, l⟩) := by
    change exprsTail (Phrase.read k) ⟨zs, l⟩ = _
    rw [exprsTail, atSymbol_bind]
    rcases hkind with hk | hk | hk <;> rw [hk] <;> rfl
  have hexprs : exprs (Phrase.read (k + 1)) ⟨ts, l⟩ = .ok ([x], ⟨zs, l⟩) := by
    rw [exprs, bind_of_ok hexpr, bind_of_ok htail]
    rfl
  have hsimple : simpleTail (Phrase.read (k + 1)) [x] ⟨zs, l⟩ = .ok (.expr x, ⟨zs, l⟩) := by
    rw [simpleTail, peek_bind]
    rcases hkind with hk | hk | hk <;> rw [hk] <;> rfl
  have hend : statementEnd ⟨zs, l⟩ = .ok ((), ⟨zs.tail, l⟩) := by
    rcases hz with rfl | hz
    · rfl
    · rw [statementEnd, peek_bind]
      rcases isSemicolon_iff.mp hz with hk | hk <;> rw [hk] <;> rfl
  have hrest := (bind_of_ok hsimple fun s => statementEnd >>= fun _ => pure (Stmt.simple s)).trans
    (bind_of_ok hend _)
  change stmt (Phrase.read (k + 1)) ⟨ts, l⟩ = _
  rw [stmt_of_start (expr_starts hx), simpleOrLabeled, bind_of_ok hexprs, peek_bind]
  -- what ends the statement is not the colon of a label
  rcases hkind with hk | hk | hk <;> rw [hk] <;> cases x <;> exact hrest

theorem stmt_of_expr_error {k : Nat} {e : ReadFault} (hstart : startsSimple (headKind ts) = true)
    (hx : Phrase.read (k + 1) (.binary 1) ⟨ts, l⟩ = .error e) :
    Phrase.read (k + 1) .stmt ⟨ts, l⟩ = .error e := by
  change stmt (Phrase.read k) ⟨ts, l⟩ = _
  rw [stmt_of_start hstart, simpleOrLabeled]
  exact bind_of_error (bind_of_error hx _) _

/-! ## The print of an expression -/

/-- The statement that prints `x`. -/
def printed (x : Expr) : Stmt :=
  .simple (.expr (.call (.selector (.name "fmt") "Printf")
    [.literal "\"%v\"", .call (.name firstHelper) [x] false] false))

/-- The kinds of its tokens, up to those of the call of the helper function. -/
def printfKinds : List Kind :=
  [.name "fmt", .symbol .period, .name "Printf", .symbol .lparen, .literal .string "\"%v\"",
    .symbol .comma]

theorem printf_tokens {pre : List Token} (hpre : pre.map (·.kind) = printfKinds) :
    ∃ a b c d e f, pre = [a, b, c, d, e, f] ∧ a.kind = .name "fmt" ∧ b.kind = .symbol .period ∧
      c.kind = .name "Printf" ∧ d.kind = .symbol .lparen ∧
      e.kind = .literal .string "\"%v\"" ∧ f.kind = .symbol .comma := by
  obtain ⟨a, ts, rfl, ha, hpre⟩ := List.map_eq_cons_iff.mp hpre
  obtain ⟨b, ts, rfl, hb, hpre⟩ := List.map_eq_cons_iff.mp hpre
  obtain ⟨c, ts, rfl, hc, hpre⟩ := List.map_eq_cons_iff.mp hpre
  obtain ⟨d, ts, rfl, hd, hpre⟩ := List.map_eq_cons_iff.mp hpre
  obtain ⟨e, ts, rfl, he, hpre⟩ := List.map_eq_cons_iff.mp hpre
  obtain ⟨f, rfl, hf⟩ := List.map_eq_singleton_iff.mp hpre
  exact ⟨a, b, c, d, e, f, rfl, ha, hb, hc, hd, he, hf⟩

section Printf

variable {a b c d e g : Token} {k : Nat} (ha : a.kind = .name "fmt") (hb : b.kind = .symbol .period)
  (hc : c.kind = .name "Printf") (hd : d.kind = .symbol .lparen)
  {format : String} (he : e.kind = .literal .string format) (hg : g.kind = .symbol .comma)

include ha hb hc in
theorem expr_fmt : Phrase.read (k + 3) (.binary 1) ⟨a :: b :: c :: ts, l⟩ =
    (Phrase.read (k + 1) (.primaryTail (.selector (.name "fmt") "Printf")) >>= fun x =>
      Phrase.read (k + 2) (.binaryTail 1 x)) ⟨ts, l⟩ := by
  change expr (Phrase.read (k + 2)) _ = _
  rw [expr_of_name ha]
  exact bind_congr_at (primaryTail_of_selector hb hc) _

include he hg in
theorem args_format : Phrase.read (k + 2) .args ⟨e :: g :: ts, l⟩ =
    (Phrase.read (k + 1) .args >>= fun more =>
      pure (.literal format :: more.1, false || more.2)) ⟨ts, l⟩ := by
  have hcomma : (headKind (g :: ts)).endsExpression = true := by
    rw [show headKind (g :: ts) = .symbol .comma from hg]
    rfl
  have hstart : startsSimple (headKind (e :: g :: ts)) = true := by
    rw [show headKind (e :: g :: ts) = _ from he]
    rfl
  have hprimary : Phrase.read (k + 1) (.primaryTail (.literal format)) ⟨g :: ts, l⟩ =
      .ok (.literal format, ⟨g :: ts, l⟩) := primaryTail_of_end hcomma
  have hexpr : expr (Phrase.read (k + 1)) ⟨e :: g :: ts, l⟩ =
      .ok (.literal format, ⟨g :: ts, l⟩) := by
    rw [expr_of_literal he, bind_of_ok hprimary]
    exact binaryTail_of_end hcomma 1
  exact args_of_comma hstart hexpr hg

include ha hb hc hd he hg

/-- The call of `Printf` with more arguments behind the format. -/
theorem expr_printf_args {as : List Expr}
    (hargs : Phrase.read (k + 1) .args ⟨ts, l + 1⟩ = .ok ((as, false), ⟨t :: zs, l + 1⟩))
    (ht : t.kind = .symbol .rparen) (hz : (headKind zs).endsExpression = true) :
    Phrase.read (k + 5) (.binary 1) ⟨a :: b :: c :: d :: e :: g :: ts, l⟩ =
      .ok (.call (.selector (.name "fmt") "Printf") (.literal format :: as) false, ⟨zs, l⟩) := by
  have hall : Phrase.read (k + 2) .args ⟨e :: g :: ts, l + 1⟩ =
      .ok ((.literal format :: as, false), ⟨t :: zs, l + 1⟩) := by
    rw [args_format he hg, bind_of_ok hargs]
    rfl
  rw [expr_fmt ha hb hc, bind_of_ok (primaryTail_call hd hall ht hz)]
  exact binaryTail_of_end hz 1

/-- The call of `Printf` with `x` as its second argument. -/
theorem expr_printf (hx : Phrase.read (k + 1) (.binary 1) ⟨ts, l + 1⟩ = .ok (x, ⟨t :: zs, l + 1⟩))
    (ht : t.kind = .symbol .rparen) (hz : (headKind zs).endsExpression = true) :
    Phrase.read (k + 5) (.binary 1) ⟨a :: b :: c :: d :: e :: g :: ts, l⟩ =
      .ok (.call (.selector (.name "fmt") "Printf") [.literal format, x] false, ⟨zs, l⟩) := by
  have hhead : headKind (t :: zs) = .symbol .rparen := ht
  have hlast : Phrase.read (k + 1) .args ⟨ts, l + 1⟩ = .ok (([x], false), ⟨t :: zs, l + 1⟩) :=
    args_of_last (expr_starts hx) hx (by rw [hhead]; decide) (by rw [hhead]; decide)
  exact expr_printf_args ha hb hc hd he hg hlast ht hz

theorem expr_printf_error {f : ReadFault} (hstart : startsSimple (headKind ts) = true)
    (hx : Phrase.read (k + 1) (.binary 1) ⟨ts, l + 1⟩ = .error f) :
    Phrase.read (k + 5) (.binary 1) ⟨a :: b :: c :: d :: e :: g :: ts, l⟩ = .error f := by
  have hlast : Phrase.read (k + 1) .args ⟨ts, l + 1⟩ = .error f := args_of_error hstart hx
  have hargs : Phrase.read (k + 2) .args ⟨e :: g :: ts, l + 1⟩ = .error f := by
    rw [args_format he hg, bind_of_error hlast]
  rw [expr_fmt ha hb hc, bind_of_error (primaryTail_call_error hd hargs)]

end Printf

end Syntax

end GoRepl
