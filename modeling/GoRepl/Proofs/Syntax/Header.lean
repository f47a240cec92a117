import GoRepl.Proofs.Syntax.Expression

/-! # Expressions as headers

A header is read below the level of other expressions.  If it is one expression that ends in front
of an empty block, that is the body of the statement; if the expression has taken the block for the
body of a literal, none is left.

* `ReadsHeader`, `ReadsBlock`: an expression in a header and where it ends; the block.
* `conditional_eq`, `switch_eq`, `loop_eq`, `rangeLoop_eq`: the statements with the block.
* `conditional_error`, `switch_error`, `loop_error`, `rangeLoop_error`: the statements without it.
-/

namespace GoRepl.Syntax

open Read Grammar

/-! ## Starts of expressions -/

theorem operand_starts {rec : Phrases} {x : Expr} {s s' : ReadState}
    (h : operand rec s = .ok (x, s')) : startsSimple (headKind s.tokens) = true := by
  rw [operand, peek_bind] at h
  generalize headKind s.tokens = k at h
  cases k with
  | name | literal => rfl
  | keyword w => cases w <;> first | rfl | cases h
  | symbol sym => cases sym <;> first | rfl | cases h
  | newline => cases h
  | eof => cases h

theorem primary_starts {rec : Phrases} {x : Expr} {s s' : ReadState}
    (h : primary rec s = .ok (x, s')) : startsSimple (headKind s.tokens) = true := by
  obtain ⟨y, s'', hy, -⟩ := bind_eq_ok.mp h
  exact operand_starts hy

/-- An expression starts with a token that a simple statement may start with. -/
theorem unary_starts {rec : Phrases} {x : Expr} {s s' : ReadState}
    (h : unary rec s = .ok (x, s')) : startsSimple (headKind s.tokens) = true := by
  rw [unary, peek_bind] at h
  generalize hk : headKind s.tokens = k at h
  have hprimary : primary rec s = .ok (x, s') → startsSimple k = true :=
    fun hp => hk ▸ primary_starts hp
  cases k with
  | symbol sym =>
    cases sym with
    | binary op =>
      cases op with
      | arith op => cases op <;> first | rfl | exact hprimary h
      | _ => exact hprimary h
    | _ => first | rfl | exact hprimary h
  | _ => exact hprimary h

theorem expr_starts {rec : Phrases} {x : Expr} {s s' : ReadState}
    (h : expr rec s = .ok (x, s')) : startsSimple (headKind s.tokens) = true := by
  obtain ⟨y, s'', hy, -⟩ := bind_eq_ok.mp h
  exact unary_starts hy

/-! ## Headers -/

/-- The readers `rec` read one expression from `ys` in a header, and stop at `zs`, where a block or
the end of a statement comes next. -/
structure ReadsHeader (rec : Phrases) (ys zs : List Token) (x : Expr) : Prop where
  expr_eq : expr rec ⟨ys, -1⟩ = .ok (x, ⟨zs, -1⟩)
  exprsTail_eq : rec .exprsTail ⟨zs, -1⟩ = .ok ([], ⟨zs, -1⟩)
  stops : headKind zs = .symbol .lbrace ∨ headKind zs = .eof ∨ headKind zs = .newline ∨
    headKind zs = .symbol .semicolon

namespace ReadsHeader

variable {rec : Phrases} {ys zs : List Token} {x : Expr} (h : ReadsHeader rec ys zs x)

include h

theorem starts : startsSimple (headKind ys) = true := expr_starts h.expr_eq

theorem not_semicolon : (headKind ys).isSemicolon = false := by
  have hs := h.starts
  generalize headKind ys = k at hs
  cases k with
  | symbol sym => cases sym <;> first | rfl | cases hs
  | newline => cases hs
  | _ => rfl

theorem ne_brace : (headKind ys == .symbol .lbrace) = false := by
  have hs := h.starts
  generalize headKind ys = k at hs
  cases k with
  | symbol sym => cases sym <;> first | rfl | cases hs
  | _ => rfl

theorem ne_range : (headKind ys == .keyword .rangeKw) = false := by
  have hs := h.starts
  generalize headKind ys = k at hs
  cases k with
  | keyword w => cases w <;> first | rfl | cases hs
  | _ => rfl

theorem exprs_eq : exprs rec ⟨ys, -1⟩ = .ok ([x], ⟨zs, -1⟩) := by
  unfold exprs
  rw [bind_of_ok h.expr_eq, bind_of_ok h.exprsTail_eq]
  rfl

theorem simpleTail_eq : simpleTail rec [x] ⟨zs, -1⟩ = .ok (.expr x, ⟨zs, -1⟩) := by
  unfold simpleTail
  rw [peek_bind]
  rcases h.stops with hk | hk | hk | hk
  all_goals
    rw [hk]
    rfl

theorem simple_eq : simple rec ⟨ys, -1⟩ = .ok (.expr x, ⟨zs, -1⟩) := by
  unfold simple
  rw [bind_of_ok h.exprs_eq]
  exact h.simpleTail_eq

theorem initAndLast_run : initAndLast rec ⟨ys, -1⟩ =
    (if (headKind zs).isSemicolon = true then
      skip >>= fun _ => atSymbol .lbrace >>= fun b =>
        if b = true then pure (some (.expr x), none)
        else simple rec >>= fun s => pure (some (.expr x), some s)
    else pure (none, some (.expr x))) ⟨zs, -1⟩ := by
  unfold initAndLast
  rw [atSemicolon_bind, h.not_semicolon]
  simp only [pure_bind, Bool.false_eq_true, if_false]
  rw [bind_of_ok h.simple_eq, atSemicolon_bind]

theorem initAndLast_eq (hz : (headKind zs).isSemicolon = false) :
    initAndLast rec ⟨ys, -1⟩ = .ok ((none, some (.expr x)), ⟨zs, -1⟩) := by
  rw [h.initAndLast_run, hz]
  rfl

/-- Behind a semicolon another statement is wanted. -/
theorem initAndLast_error (hz : (headKind zs).isSemicolon = true) (htail : zs.tail = []) :
    ∃ e, initAndLast rec ⟨ys, -1⟩ = .error e := by
  rw [h.initAndLast_run, if_pos hz]
  cases zs with
  | nil => cases hz
  | cons t ts =>
    cases htail
    exact ⟨_, rfl⟩

theorem loopFrom_eq : loopFrom rec [x] ⟨zs, -1⟩ =
    (simpleTail rec [x] >>= fun s => atSemicolon >>= fun b =>
      if b = true then loopClauses rec (some s)
      else pure (.clauses none (some s) none)) ⟨zs, -1⟩ := by
  unfold loopFrom
  rw [peek_bind]
  rcases h.stops with hk | hk | hk | hk
  all_goals
    rw [hk]
    rfl

theorem loopHeader_run : loopHeader rec ⟨ys, -1⟩ =
    (if (headKind zs).isSemicolon = true then loopClauses rec (some (.expr x))
      else pure (.clauses none (some (.expr x)) none)) ⟨zs, -1⟩ := by
  unfold loopHeader
  rw [atSymbol_bind, h.ne_brace]
  simp only [Bool.false_eq_true, if_false]
  rw [atSemicolon_bind, h.not_semicolon]
  simp only [Bool.false_eq_true, if_false]
  rw [peek_bind, h.ne_range]
  simp only [Bool.false_eq_true, if_false]
  rw [bind_of_ok h.exprs_eq, h.loopFrom_eq, bind_of_ok h.simpleTail_eq, atSemicolon_bind]

theorem loopHeader_eq (hz : (headKind zs).isSemicolon = false) :
    loopHeader rec ⟨ys, -1⟩ = .ok (.clauses none (some (.expr x)) none, ⟨zs, -1⟩) := by
  rw [h.loopHeader_run, hz]
  rfl

/-- Behind a semicolon a condition is wanted. -/
theorem loopHeader_error (hz : (headKind zs).isSemicolon = true) (htail : zs.tail = []) :
    ∃ e, loopHeader rec ⟨ys, -1⟩ = .error e := by
  rw [h.loopHeader_run, if_pos hz]
  cases zs with
  | nil => cases hz
  | cons t ts =>
    cases htail
    exact ⟨_, rfl⟩

theorem rangeHeader_eq {r : Token} (hr : r.kind = .keyword .rangeKw) :
    loopHeader rec ⟨r :: ys, -1⟩ = .ok (.range none none false x, ⟨zs, -1⟩) := by
  have hover : rangeOver rec [] false ⟨r :: ys, -1⟩ =
      .ok (.range none none false x, ⟨zs, -1⟩) := by
    unfold rangeOver
    rw [skip_bind, bind_of_ok h.expr_eq]
    rfl
  unfold loopHeader
  rw [atSymbol_bind, show headKind (r :: ys) = .keyword .rangeKw from hr]
  change (atSemicolon >>= fun b => if b = true then loopClauses rec none
    else peek >>= fun k => if (k == .keyword .rangeKw) = true then rangeOver rec [] false
      else exprs rec >>= fun left => loopFrom rec left) ⟨r :: ys, -1⟩ = _
  rw [atSemicolon_bind, show headKind (r :: ys) = .keyword .rangeKw from hr]
  change (peek >>= fun k => if (k == .keyword .rangeKw) = true then rangeOver rec [] false
    else exprs rec >>= fun left => loopFrom rec left) ⟨r :: ys, -1⟩ = _
  rw [peek_bind, show headKind (r :: ys) = .keyword .rangeKw from hr]
  exact hover

end ReadsHeader

/-! ## Blocks -/

/-- The readers `rec` find nothing in the block. -/
structure ReadsBlock (rec : Phrases) (tl rest : List Token) : Prop where
  block : EmptyBlock tl rest
  stmts_eq : ∀ l, rec .stmts ⟨tl.tail, l⟩ = .ok ([], ⟨tl.tail, l⟩)
  caseClauses_eq : ∀ l, rec .caseClauses ⟨tl.tail, l⟩ = .ok ([], ⟨tl.tail, l⟩)

theorem ReadsBlock.block_eq {rec : Phrases} {tl rest : List Token} (h : ReadsBlock rec tl rest)
    (l : Int) : Grammar.block rec ⟨tl, l⟩ = .ok ([], ⟨rest, l⟩) := by
  unfold Grammar.block
  rw [bind_of_ok (expect_of_head h.block.head l), bind_of_ok (h.stmts_eq l),
    bind_of_ok (expect_of_head h.block.second l), h.block.rest_eq]
  rfl

theorem block_error {ys : List Token} (h : headKind ys ≠ .symbol .lbrace) (rec : Phrases)
    (l : Int) : ∃ e, Grammar.block rec ⟨ys, l⟩ = .error e := by
  unfold Grammar.block
  exact ⟨_, bind_of_error (expect_of_head_ne h l) _⟩

theorem EmptyBlock.elseBranch_eq {tl rest : List Token} (hb : EmptyBlock tl rest) (rec : Phrases)
    (l : Int) : elseBranch rec ⟨rest, l⟩ = .ok (none, ⟨rest, l⟩) := by
  unfold elseBranch
  rw [peek_bind]
  rcases hb.ends_kind with hk | hk | hk
  all_goals
    rw [hk]
    rfl

/-! ## Control statements -/

section Control

variable {rec : Phrases} {ys zs tl rest : List Token} {x : Expr} {t : Token}

theorem conditional_eq (hb : ReadsBlock rec tl rest) (h : ReadsHeader rec ys tl x)
    (ht : t.kind = .keyword .ifKw) (l : Int) :
    conditional rec ⟨t :: ys, l⟩ = .ok (.ifThen none x [] none, ⟨rest, l⟩) := by
  have hz : (headKind tl).isSemicolon = false := by
    rw [hb.block.head]
    rfl
  unfold conditional
  rw [bind_of_ok (expectKeyword_of_head ht l), atSymbol_bind, h.ne_brace]
  simp only [Bool.false_eq_true, if_false]
  rw [bind_of_ok (header_of_ok (h.initAndLast_eq hz) l)]
  change (Grammar.block rec >>= fun body => elseBranch rec >>= fun orElse =>
    pure (Stmt.ifThen none x body orElse)) ⟨tl, l⟩ = _
  rw [bind_of_ok (hb.block_eq l), bind_of_ok (hb.block.elseBranch_eq rec l)]
  rfl

theorem switch_eq (hb : ReadsBlock rec tl rest) (h : ReadsHeader rec ys tl x)
    (ht : t.kind = .keyword .switchKw) (l : Int) :
    switch rec ⟨t :: ys, l⟩ =
      .ok (.switch (isTypeGuard (some (.expr x))) none (some (.expr x)) [], ⟨rest, l⟩) := by
  have hz : (headKind tl).isSemicolon = false := by
    rw [hb.block.head]
    rfl
  have hheader : (atSymbol .lbrace >>= fun b =>
      if b = true then pure (none, none) else initAndLast rec) ⟨ys, -1⟩ =
        .ok ((none, some (.expr x)), ⟨tl, -1⟩) := by
    rw [atSymbol_bind, h.ne_brace]
    exact h.initAndLast_eq hz
  unfold switch
  rw [bind_of_ok (expectKeyword_of_head ht l), bind_of_ok (header_of_ok hheader l)]
  change (expect .lbrace >>= fun _ => rec .caseClauses >>= fun cs => expect .rbrace >>= fun _ =>
    pure (Stmt.switch _ none (some (.expr x)) cs)) ⟨tl, l⟩ = _
  rw [bind_of_ok (expect_of_head hb.block.head l), bind_of_ok (hb.caseClauses_eq l),
    bind_of_ok (expect_of_head hb.block.second l), hb.block.rest_eq]
  rfl

theorem loop_eq (hb : ReadsBlock rec tl rest) (h : ReadsHeader rec ys tl x)
    (ht : t.kind = .keyword .forKw) (l : Int) :
    loop rec ⟨t :: ys, l⟩ = .ok (.loop none (some x) none [], ⟨rest, l⟩) := by
  have hz : (headKind tl).isSemicolon = false := by
    rw [hb.block.head]
    rfl
  unfold loop
  rw [bind_of_ok (expectKeyword_of_head ht l), bind_of_ok (header_of_ok (h.loopHeader_eq hz) l),
    bind_of_ok (hb.block_eq l)]
  rfl

theorem rangeLoop_eq (hb : ReadsBlock rec tl rest) (h : ReadsHeader rec ys tl x) {r : Token}
    (ht : t.kind = .keyword .forKw) (hr : r.kind = .keyword .rangeKw) (l : Int) :
    loop rec ⟨t :: r :: ys, l⟩ = .ok (.range none none false x [], ⟨rest, l⟩) := by
  unfold loop
  rw [bind_of_ok (expectKeyword_of_head ht l), bind_of_ok (header_of_ok (h.rangeHeader_eq hr) l),
    bind_of_ok (hb.block_eq l)]
  rfl

/-! If the header ends behind the block, no block is left for the statement. -/

theorem conditional_error (h : ReadsHeader rec ys zs x) (hz : headKind zs ≠ .symbol .lbrace)
    (htail : zs.tail = []) (ht : t.kind = .keyword .ifKw) (l : Int) :
    ∃ e, conditional rec ⟨t :: ys, l⟩ = .error e := by
  unfold conditional
  rw [bind_of_ok (expectKeyword_of_head ht l), atSymbol_bind, h.ne_brace]
  simp only [Bool.false_eq_true, if_false]
  cases hs : (headKind zs).isSemicolon with
  | true =>
    obtain ⟨e, he⟩ := h.initAndLast_error hs htail
    exact ⟨e, bind_of_error (header_eq_error.mpr he) _⟩
  | false =>
    obtain ⟨e, he⟩ := block_error hz rec l
    rw [bind_of_ok (header_of_ok (h.initAndLast_eq hs) l)]
    refine ⟨e, ?_⟩
    change (Grammar.block rec >>= fun body => elseBranch rec >>= fun orElse =>
      pure (Stmt.ifThen none x body orElse)) ⟨zs, l⟩ = _
    exact bind_of_error he _

theorem switch_error (h : ReadsHeader rec ys zs x) (hz : headKind zs ≠ .symbol .lbrace)
    (htail : zs.tail = []) (ht : t.kind = .keyword .switchKw) (l : Int) :
    ∃ e, switch rec ⟨t :: ys, l⟩ = .error e := by
  have hheader : (atSymbol .lbrace >>= fun b =>
      if b = true then pure (none, none) else initAndLast rec) ⟨ys, -1⟩ =
        initAndLast rec ⟨ys, -1⟩ := by
    rw [atSymbol_bind, h.ne_brace]
    rfl
  unfold switch
  rw [bind_of_ok (expectKeyword_of_head ht l)]
  cases hs : (headKind zs).isSemicolon with
  | true =>
    obtain ⟨e, he⟩ := h.initAndLast_error hs htail
    exact ⟨e, bind_of_error (header_eq_error.mpr (hheader.trans he)) _⟩
  | false =>
    rw [bind_of_ok (header_of_ok (hheader.trans (h.initAndLast_eq hs)) l)]
    exact ⟨_, bind_of_error (expect_of_head_ne hz l) _⟩

theorem loop_error (h : ReadsHeader rec ys zs x) (hz : headKind zs ≠ .symbol .lbrace)
    (htail : zs.tail = []) (ht : t.kind = .keyword .forKw) (l : Int) :
    ∃ e, loop rec ⟨t :: ys, l⟩ = .error e := by
  unfold loop
  rw [bind_of_ok (expectKeyword_of_head ht l)]
  cases hs : (headKind zs).isSemicolon with
  | true =>
    obtain ⟨e, he⟩ := h.loopHeader_error hs htail
    exact ⟨e, bind_of_error (header_eq_error.mpr he) _⟩
  | false =>
    obtain ⟨e, he⟩ := block_error hz rec l
    rw [bind_of_ok (header_of_ok (h.loopHeader_eq hs) l)]
    exact ⟨e, bind_of_error he _⟩

theorem rangeLoop_error (h : ReadsHeader rec ys zs x) (hz : headKind zs ≠ .symbol .lbrace)
    {r : Token} (ht : t.kind = .keyword .forKw) (hr : r.kind = .keyword .rangeKw) (l : Int) :
    ∃ e, loop rec ⟨t :: r :: ys, l⟩ = .error e := by
  obtain ⟨e, he⟩ := block_error hz rec l
  unfold loop
  rw [bind_of_ok (expectKeyword_of_head ht l), bind_of_ok (header_of_ok (h.rangeHeader_eq hr) l)]
  exact ⟨e, bind_of_error he _⟩

end Control

end GoRepl.Syntax
