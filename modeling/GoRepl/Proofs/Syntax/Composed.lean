import GoRepl.Proofs.Syntax.Expression

/-! # What the grammar is composed of

The readers of the grammar are composed of few pieces in few ways.  What holds of the pieces, and is
kept by each of the ways, holds of all readers.

* `Phrase.floor`: the lowest nesting level at which a phrase is read.
* `Composed`: the readers that are composed of the pieces, and `Composed.atSymbol` and the lemmas
  behind it: some that are used again and again.
* `expr_composed`, `type_composed`, `stmt_composed` and the lemmas around them: one for each reader
  of the grammar.
* `step_composed`: the readers of all phrases.
-/

namespace GoRepl.Syntax

open Read Grammar

/-- The lowest nesting level at which a phrase is read: an expression may stand in a header, but no
statement does. -/
def Phrase.floor {α : Type} : Phrase α → Int
  | stmt | stmts | conditional | caseClauses | commClauses => 0
  | _ => -1

/-- The readers that are composed of the readers `rec` of phrases, none of which is read below its
level if the whole is read at level `l` or above. -/
inductive Composed (rec : Phrases) : {α : Type} → Read α → Int → Prop
  | of_pure {l : Int} {α : Type} (a : α) : Composed @rec (pure a) l
  | fail {l : Int} {α : Type} (f : SyntaxFault) : Composed @rec (Read.fail f : Read α) l
  | peek {l : Int} : Composed @rec Read.peek l
  | peekSecond {l : Int} : Composed @rec Read.peekSecond l
  | level {l : Int} : Composed @rec Read.level l
  | skip {l : Int} : Composed @rec Read.skip l
  | bind {l : Int} {α β : Type} {p : Read α} {f : α → Read β} (hp : Composed @rec p l)
      (hf : ∀ a, Composed @rec (f a) l) : Composed @rec (p >>= f) l
  | nested {α : Type} {p : Read α} (hp : Composed @rec p 0) : Composed @rec (Read.nested p) (-1)
  | header {l : Int} {α : Type} {p : Read α} (hp : Composed @rec p (-1)) :
      Composed @rec (Read.header p) l
  | phrase {α : Type} (ph : Phrase α) : Composed @rec (rec ph) ph.floor
  | lift {α : Type} {p : Read α} (hp : Composed @rec p (-1)) : Composed @rec p 0

variable {rec : Phrases} {l : Int} {α : Type}

namespace Composed

theorem unexpected (w : Wanted) : Composed rec (Read.unexpected w : Read α) l := fail _

theorem ite {c : Prop} [Decidable c] {p q : Read α} (hp : Composed rec p l)
    (hq : Composed rec q l) : Composed rec (if c then p else q) l := by
  split
  · exact hp
  · exact hq

theorem atSymbol (sym : Symbol) : Composed rec (atSymbol sym) l := .bind .peek fun _ => .of_pure _

theorem atSemicolon : Composed rec atSemicolon l := .bind .peek fun _ => .of_pure _

theorem atListEnd (close : Symbol) : Composed rec (atListEnd close) l :=
  .bind .peek fun _ => .of_pure _

theorem expect (sym : Symbol) : Composed rec (expect sym) l :=
  .bind (.atSymbol sym) fun _ => .ite .skip (.unexpected _)

theorem expectKeyword (k : Keyword) : Composed rec (expectKeyword k) l :=
  .bind .peek fun _ => .ite .skip (.unexpected _)

theorem expectName : Composed rec expectName l := by
  refine .bind .peek fun k => ?_
  split
  · exact .bind .skip fun _ => .of_pure _
  · exact .unexpected _

theorem statementEnd : Composed rec statementEnd l := by
  refine .bind .peek fun k => ?_
  split
  all_goals first | exact .skip | exact .of_pure _ | exact .unexpected _

theorem fragmentEnd : Composed rec fragmentEnd l := by
  have hend : Composed rec
      (do if (← Read.peek) == .eof then pure () else Read.fail .trailing) l :=
    .bind .peek fun _ => .ite (.of_pure _) (.fail _)
  exact .bind .atSemicolon fun _ => .ite (.bind .skip fun _ => hend) hend

end Composed

/-! ## Types -/

theorem names_composed : Composed rec (names rec) (-1) :=
  .bind .expectName fun _ => .bind (.phrase _) fun _ => .of_pure _

theorem namesTail_composed : Composed rec (namesTail rec) (-1) := by
  refine .bind .peek fun k => ?_
  split
  · exact .bind .skip fun _ => names_composed
  · exact .of_pure _

theorem paramList_composed : Composed rec (paramList rec) (-1) :=
  .bind (.expect _) fun _ => .bind (.phrase _) fun _ => .bind (.expect _) fun _ => .of_pure _

theorem signature_composed : Composed rec (signature rec) (-1) := by
  refine .bind paramList_composed fun ps => .bind .peek fun k => .ite ?_ (.ite ?_ (.of_pure _))
  · exact .bind paramList_composed fun _ => .of_pure _
  · exact .bind (.phrase _) fun _ => .of_pure _

theorem structType_composed : Composed rec (structType rec) (-1) :=
  .bind (.expectKeyword _) fun _ => .bind (.expect _) fun _ => .bind (.phrase _) fun _ =>
    .bind (.expect _) fun _ => .of_pure _

theorem interfaceType_composed : Composed rec (interfaceType rec) (-1) :=
  .bind (.expectKeyword _) fun _ => .bind (.expect _) fun _ => .bind (.phrase _) fun _ =>
    .bind (.expect _) fun _ => .of_pure _

theorem types_composed : Composed rec (types rec) (-1) :=
  .bind (.phrase _) fun _ => .bind (.phrase _) fun _ => .of_pure _

theorem typesTail_composed : Composed rec (typesTail rec) (-1) :=
  .bind (.atSymbol _) fun _ => .ite (.bind .skip fun _ => types_composed) (.of_pure _)

theorem typeArgsTail_composed : Composed rec (typeArgsTail rec) (-1) := by
  refine .bind (.atSymbol _) fun _ => .ite (.bind .skip fun _ => ?_) (.of_pure _)
  refine .bind (.atSymbol _) fun _ => .ite (.of_pure _) ?_
  exact .bind (.phrase _) fun _ => .bind (.phrase _) fun _ => .of_pure _

theorem typeArguments_composed (base : Expr) : Composed rec (typeArguments rec base) (-1) := by
  refine .bind .peekSecond fun _ => .bind (.atSymbol _) fun _ => .ite ?_ (.of_pure _)
  exact .bind .skip fun _ => .bind types_composed fun _ => .bind (.expect _) fun _ => .of_pure _

theorem namedTail_composed (n : String) : Composed rec (namedTail rec n) (-1) := by
  rw [namedTail_eq]
  refine .bind (.atSymbol _) fun _ => .ite ?_ (typeArguments_composed _)
  exact .bind .skip fun _ => .bind .expectName fun _ => typeArguments_composed _

theorem arrayTail_composed : Composed rec (arrayTail rec) (-1) := by
  refine .bind .peek fun k => ?_
  -- the three ways to give a length go on alike
  extract_lets elem
  have helem (len) : Composed rec (elem len) (-1) :=
    .bind (.expect _) fun _ => .bind (.phrase _) fun _ => .of_pure _
  split
  · exact helem _
  · exact .bind .skip fun _ => helem _
  · exact .bind (.nested (.lift (.phrase _))) fun _ => helem _

theorem type_composed : Composed rec (type rec) (-1) := by
  refine .bind .peek fun k => ?_
  split
  · exact .bind .skip fun _ => namedTail_composed _
  · exact .bind .skip fun _ => arrayTail_composed
  · exact structType_composed
  · exact interfaceType_composed
  · exact .bind .skip fun _ => .bind (.phrase _) fun _ => .of_pure _
  · exact .bind .skip fun _ => .bind signature_composed fun _ => .of_pure _
  · exact .bind .skip fun _ => .bind (.expect _) fun _ => .bind (.phrase _) fun _ =>
      .bind (.expect _) fun _ => .bind (.phrase _) fun _ => .of_pure _
  · have helem (dir : ChanDir) :
        Composed rec (rec .type >>= fun t => pure (Expr.chanType dir t)) (-1) :=
      .bind (.phrase _) fun _ => .of_pure _
    refine .bind .skip fun _ => .bind (.atSymbol _) fun _ => .ite ?_ (helem _)
    exact .bind .skip fun _ => helem _
  · exact .bind .skip fun _ => .bind (.expectKeyword _) fun _ => .bind (.phrase _) fun _ =>
      .of_pure _
  · exact .bind .skip fun _ => .bind (.phrase _) fun _ => .bind (.expect _) fun _ => .of_pure _
  · exact .unexpected _

theorem params_composed : Composed rec (params rec) (-1) := by
  refine .bind (.atListEnd _) fun _ => .ite (.of_pure _) (.bind .peek fun k => ?_)
  extract_lets named typed
  have htyped (ns) : Composed rec (typed ns) (-1) := by
    have hmore (t : Expr) : Composed rec (atSymbol .comma >>= fun b =>
        if b = true then skip >>= fun _ => rec .params >>= fun fs => pure (Field.mk ns t :: fs)
        else pure [Field.mk ns t]) (-1) := by
      refine .bind (.atSymbol _) fun _ => .ite ?_ (.of_pure _)
      exact .bind .skip fun _ => .bind (.phrase _) fun _ => .of_pure _
    refine .bind (.atSymbol _) fun _ => .ite ?_ (.bind type_composed hmore)
    exact .bind .skip fun _ => .bind type_composed fun _ => hmore _
  refine .bind .peekSecond fun _ => .ite ?_ (htyped _)
  exact .bind .expectName fun _ => htyped _

theorem field_composed : Composed rec (field rec) (-1) := by
  refine .bind .peek fun k => ?_
  extract_lets typed named
  have htyped (ns) : Composed rec (typed ns) (-1) := by
    refine .bind type_composed fun _ => .bind .peek fun k => ?_
    split
    · exact .bind .skip fun _ => .of_pure _
    · exact .of_pure _
  have hnamed (embedded) : Composed rec (named embedded) (-1) :=
    .ite (htyped _) (.bind names_composed fun _ => htyped _)
  split
  · exact .bind (.of_pure _) hnamed
  · exact .bind .peekSecond fun _ => hnamed _
  · exact .bind (.unexpected _) hnamed

theorem fields_composed : Composed rec (fields rec) (-1) := by
  refine .bind (.atListEnd _) fun _ => .ite (.of_pure _) ?_
  exact .bind field_composed fun _ => .bind .statementEnd fun _ => .bind (.phrase _) fun _ =>
    .of_pure _

theorem unionTerm_composed : Composed rec (unionTerm rec) (-1) :=
  .bind (.atSymbol _) fun _ =>
    .ite (.bind .skip fun _ => .bind type_composed fun _ => .of_pure _) type_composed

theorem unionTail_composed : Composed rec (unionTail rec) (-1) := by
  refine .bind (.atSymbol _) fun _ => .ite ?_ (.of_pure _)
  exact .bind .skip fun _ => .bind unionTerm_composed fun _ => .bind (.phrase _) fun _ => .of_pure _

theorem interfaceItem_composed : Composed rec (interfaceItem rec) (-1) := by
  refine .bind .peekSecond fun second => .bind .peek fun k => ?_
  split
  · exact .bind .skip fun _ => .bind signature_composed fun _ => .of_pure _
  · exact .bind unionTerm_composed fun _ => .bind (.phrase _) fun _ => .of_pure _

theorem interfaceItems_composed : Composed rec (interfaceItems rec) (-1) := by
  refine .bind (.atListEnd _) fun _ => .ite (.of_pure _) ?_
  exact .bind interfaceItem_composed fun _ => .bind .statementEnd fun _ =>
    .bind (.phrase _) fun _ => .of_pure _

/-! ## Expressions -/

theorem funcOperand_composed : Composed rec (funcOperand rec) (-1) := by
  refine .bind signature_composed fun _ => .bind (.atSymbol _) fun _ => .ite ?_ (.of_pure _)
  refine .bind (.nested ?_) fun _ => .of_pure _
  exact .bind .skip fun _ => .bind (.phrase _) fun _ => .bind (.expect _) fun _ => .of_pure _

theorem operand_composed : Composed rec (operand rec) (-1) := by
  refine .bind .peek fun k => ?_
  split
  · exact .bind .skip fun _ => .of_pure _
  · exact .bind .skip fun _ => .of_pure _
  · exact .bind .skip fun _ => .bind (.nested (.lift (.phrase _))) fun _ =>
      .bind (.expect _) fun _ => .of_pure _
  · exact .bind .skip fun _ => funcOperand_composed
  all_goals first | exact type_composed | exact .unexpected _

theorem primary_composed : Composed rec (primary rec) (-1) :=
  .bind operand_composed fun _ => .phrase _

theorem receive_composed (x : Expr) : Composed rec (receive x) (-1) := by
  unfold receive
  split
  · exact .of_pure _
  · exact .fail _
  · exact .of_pure _

theorem unary_composed : Composed rec (unary rec) (-1) := by
  refine .bind .peek fun k => ?_
  split
  · exact .bind .skip fun _ => .bind (.phrase _) fun _ => .of_pure _
  refine .ite (.bind .skip fun _ => .bind (.phrase _) receive_composed) (.ite ?_ primary_composed)
  exact .bind .skip fun _ => .bind (.phrase _) fun _ => .of_pure _

theorem binaryTail_composed (prec : Nat) (left : Expr) :
    Composed rec (binaryTail rec prec left) (-1) := by
  refine .bind .peek fun k => ?_
  split
  · refine .ite (.of_pure _) (.bind .skip fun _ => .bind (.phrase _) fun _ => .phrase _)
  · exact .of_pure _

theorem binary_composed (prec : Nat) : Composed rec (binary rec prec) (-1) :=
  .bind unary_composed fun _ => .phrase _

theorem expr_composed : Composed rec (expr rec) (-1) := binary_composed 1

theorem exprs_composed : Composed rec (exprs rec) (-1) :=
  .bind expr_composed fun _ => .bind (.phrase _) fun _ => .of_pure _

theorem exprsTail_composed : Composed rec (exprsTail rec) (-1) :=
  .bind (.atSymbol _) fun _ => .ite (.bind .skip fun _ => exprs_composed) (.of_pure _)

theorem args_composed : Composed rec (args rec) (-1) := by
  refine .bind (.atListEnd _) fun _ => .ite (.of_pure _) (.bind expr_composed fun x => ?_)
  have hmore (spread : Bool) : Composed rec (atSymbol .comma >>= fun b =>
      if b = true then skip >>= fun _ => rec .args >>= fun more =>
        pure (x :: more.1, spread || more.2)
      else pure ([x], spread)) (-1) := by
    refine .bind (.atSymbol _) fun _ => .ite ?_ (.of_pure _)
    exact .bind .skip fun _ => .bind (.phrase _) fun _ => .of_pure _
  exact .bind (.atSymbol _) fun _ => .ite (.bind .skip fun _ => hmore _) (hmore _)

theorem bound_composed : Composed rec (indexOrSlice.bound rec) (-1) :=
  .bind (.atSymbol _) fun _ => .bind (.atSymbol _) fun _ =>
    .ite (.of_pure _) (.bind (.phrase _) fun _ => .of_pure _)

theorem sliceOrIndex_composed (x : Expr) (low : Option Expr) :
    Composed rec (sliceOrIndex rec x low) (-1) := by
  refine .bind (.atSymbol _) fun _ => .ite ?_ (.bind (.phrase _) fun _ => .of_pure _)
  refine .bind .skip fun _ => .bind bound_composed fun _ => .bind (.atSymbol _) fun _ => ?_
  exact .ite (.bind .skip fun _ => .bind bound_composed fun _ => .of_pure _) (.of_pure _)

theorem indexOrSlice_composed (x : Expr) : Composed rec (indexOrSlice rec x) (-1) := by
  rw [indexOrSlice_eq]
  refine .bind (.expect _) fun _ =>
    .bind (.nested (.lift (.bind (.atSymbol _) fun _ => ?_))) fun _ =>
      .bind (.expect _) fun _ => .ite (.fail _) (.of_pure _)
  refine .ite (sliceOrIndex_composed x none) ?_
  exact .bind expr_composed fun i => sliceOrIndex_composed x (some i)

theorem call_composed (fn : Expr) : Composed rec (call rec fn) (-1) :=
  .bind (.expect _) fun _ => .bind (.nested (.lift (.phrase _))) fun _ =>
    .bind (.expect _) fun _ => .of_pure _

theorem composite_composed (t : Option Expr) : Composed rec (composite rec t) (-1) :=
  .bind (.expect _) fun _ => .bind (.nested (.lift (.phrase _))) fun _ =>
    .bind (.expect _) fun _ => .of_pure _

theorem elem_composed : Composed rec (elem rec) (-1) :=
  .bind (.atSymbol _) fun _ => .ite (composite_composed none) expr_composed

theorem elems_composed : Composed rec (elems rec) (-1) := by
  refine .bind (.atListEnd _) fun _ => .ite (.of_pure _) (.bind elem_composed fun k => ?_)
  have hmore (e : Expr) : Composed rec (atSymbol .comma >>= fun b =>
      if b = true then skip >>= fun _ => rec .elems >>= fun es => pure (e :: es)
      else pure [e]) (-1) := by
    refine .bind (.atSymbol _) fun _ => .ite ?_ (.of_pure _)
    exact .bind .skip fun _ => .bind (.phrase _) fun _ => .of_pure _
  refine .bind (.atSymbol _) fun _ => .ite ?_ (hmore _)
  exact .bind .skip fun _ => .bind elem_composed fun _ => hmore _

theorem selectorOrAssertion_composed (x : Expr) :
    Composed rec (selectorOrAssertion rec x) (-1) := by
  refine .bind .peek fun k => ?_
  split
  · exact .bind .skip fun _ => .of_pure _
  · have hclose (t : Option Expr) : Composed rec (expect .rparen >>= fun _ =>
        pure (Expr.assertion x t)) (-1) := .bind (.expect _) fun _ => .of_pure _
    refine .bind .skip fun _ => .bind .peek fun _ => .ite ?_ (.bind (.phrase _) fun _ => hclose _)
    exact .bind .skip fun _ => hclose _
  · exact .unexpected _

theorem primaryTail_composed (x : Expr) : Composed rec (primaryTail rec x) (-1) := by
  refine .bind .peek fun k => ?_
  split
  · exact .bind .skip fun _ => .bind (selectorOrAssertion_composed x) fun _ => .phrase _
  · exact .bind (indexOrSlice_composed x) fun _ => .phrase _
  · exact .bind (call_composed x) fun _ => .phrase _
  · exact .bind .level fun _ => .ite (.bind (composite_composed _) fun _ => .phrase _) (.of_pure _)
  · exact .of_pure _

/-! ## Statements -/

theorem assignment_composed (left : List Expr) (op : AssignOp) :
    Composed rec (assignment rec left op) (-1) := by
  refine .bind .skip fun _ => .bind exprs_composed fun _ => ?_
  extract_lets done
  split
  · exact .ite (.bind (.fail _) fun _ => .of_pure _) (.of_pure _)
  · exact .of_pure _

theorem simpleTail_composed (left : List Expr) : Composed rec (simpleTail rec left) (-1) := by
  refine .bind .peek fun k => ?_
  split
  · exact assignment_composed left _
  split
  · split
    · exact .bind .skip fun _ => .bind expr_composed fun _ => .of_pure _
    · exact .bind .skip fun _ => .of_pure _
    · exact .bind .skip fun _ => .of_pure _
    · exact .of_pure _
  · exact .unexpected _

theorem simple_composed : Composed rec (simple rec) (-1) :=
  .bind exprs_composed simpleTail_composed

theorem block_composed : Composed rec (block rec) 0 :=
  .bind (.expect _) fun _ => .bind (.phrase _) fun _ => .bind (.expect _) fun _ => .of_pure _

theorem initAndLast_composed : Composed rec (initAndLast rec) (-1) := by
  have hlast (fst : Option Simple) : Composed rec (atSemicolon >>= fun b => if b = true then do
      skip
      if ← atSymbol .lbrace then return (fst, none)
      let s ← simple rec
      return (fst, some s)
    else return (none, fst)) (-1) := by
    refine .bind .atSemicolon fun _ => .ite (.bind .skip fun _ => ?_) (.of_pure _)
    refine .bind (.atSymbol _) fun _ => .ite (.of_pure _) ?_
    exact .bind simple_composed fun _ => .of_pure _
  refine .bind .atSemicolon fun _ => .ite (hlast none) ?_
  exact .bind simple_composed fun s => hlast (some s)

theorem condition_composed (s : Option Simple) : Composed rec (condition s) l := by
  unfold condition
  split
  · exact .of_pure _
  · exact .fail _
  · exact .fail _

theorem elseBranch_composed : Composed rec (elseBranch rec) 0 := by
  refine .bind .peek fun _ => .ite (.bind .skip fun _ => .bind .peek fun k => ?_) (.of_pure _)
  split
  · exact .bind (.phrase _) fun _ => .of_pure _
  · exact .bind block_composed fun _ => .of_pure _
  · exact .unexpected _

theorem conditional_composed : Composed rec (conditional rec) 0 := by
  refine .bind (.expectKeyword _) fun _ => ?_
  extract_lets rest
  have hrest : Composed rec (rest ()) 0 :=
    .bind (.header initAndLast_composed) fun _ => .bind (condition_composed _) fun _ =>
      .bind block_composed fun _ => .bind elseBranch_composed fun _ => .of_pure _
  exact .bind (.atSymbol _) fun _ => .ite (.bind (.fail _) fun _ => hrest) hrest

theorem caseClause_composed : Composed rec (caseClause rec) 0 := by
  refine .bind .peek fun k => ?_
  extract_lets rest
  have hrest (es) : Composed rec (rest es) 0 :=
    .bind (.expect _) fun _ => .bind (.phrase _) fun _ => .of_pure _
  split
  · exact .bind .skip fun _ => .bind (.lift exprs_composed) fun _ => hrest _
  · exact .bind .skip fun _ => hrest _
  · exact .bind (.unexpected _) hrest

theorem caseClauses_composed : Composed rec (caseClauses rec) 0 := by
  refine .bind (.atListEnd _) fun _ => .ite (.of_pure _) ?_
  exact .bind caseClause_composed fun _ => .bind (.phrase _) fun _ => .of_pure _

theorem switch_composed : Composed rec (switch rec) 0 := by
  refine .bind (.expectKeyword _) fun _ => .bind (.header ?_) fun _ => ?_
  · exact .bind (.atSymbol _) fun _ => .ite (.of_pure _) initAndLast_composed
  · exact .bind (.expect _) fun _ => .bind (.phrase _) fun _ => .bind (.expect _) fun _ =>
      .of_pure _

theorem commClause_composed : Composed rec (commClause rec) 0 := by
  refine .bind .peek fun k => ?_
  extract_lets rest
  have hrest (comm) : Composed rec (rest comm) 0 :=
    .bind (.expect _) fun _ => .bind (.phrase _) fun _ => .of_pure _
  split
  · exact .bind .skip fun _ => .bind (.lift simple_composed) fun _ => hrest _
  · exact .bind .skip fun _ => hrest _
  · exact .bind (.unexpected _) hrest

theorem commClauses_composed : Composed rec (commClauses rec) 0 := by
  refine .bind (.atListEnd _) fun _ => .ite (.of_pure _) ?_
  exact .bind commClause_composed fun _ => .bind (.phrase _) fun _ => .of_pure _

theorem select_composed : Composed rec (select rec) 0 :=
  .bind (.expectKeyword _) fun _ => .bind (.expect _) fun _ => .bind (.phrase _) fun _ =>
    .bind (.expect _) fun _ => .of_pure _

theorem rangeOver_composed (left : List Expr) (define : Bool) :
    Composed rec (rangeOver rec left define) (-1) := by
  refine .bind .skip fun _ => .bind expr_composed fun _ => ?_
  exact .ite (.bind (.fail _) fun _ => .of_pure _) (.of_pure _)

theorem loopClauses_composed (init : Option Simple) : Composed rec (loopClauses rec init) (-1) := by
  refine .bind .skip fun _ => ?_
  extract_lets rest
  have hrest (cond) : Composed rec (rest cond) (-1) := by
    have hpost : Composed rec (skip >>= fun _ => atSymbol .lbrace >>= fun b =>
        if b = true then pure (.clauses init cond none)
        else simple rec >>= fun post => pure (LoopHeader.clauses init cond (some post))) (-1) := by
      refine .bind .skip fun _ => .bind (.atSymbol _) fun _ => .ite (.of_pure _) ?_
      exact .bind simple_composed fun _ => .of_pure _
    refine .bind .atSemicolon fun _ => .ite (.bind (.unexpected _) fun _ => hpost) hpost
  refine .bind .atSemicolon fun _ => .ite (hrest _) ?_
  exact .bind simple_composed fun _ => hrest _

theorem loopFrom_composed (left : List Expr) : Composed rec (loopFrom rec left) (-1) := by
  refine .bind .peek fun k => .bind .peekSecond fun second => ?_
  split
  · exact .bind .skip fun _ => rangeOver_composed left true
  · exact .bind .skip fun _ => rangeOver_composed left false
  · refine .bind (simpleTail_composed left) fun s => .bind .atSemicolon fun _ => ?_
    exact .ite (loopClauses_composed (some s)) (.of_pure _)

theorem loopHeader_composed : Composed rec (loopHeader rec) (-1) := by
  refine .bind (.atSymbol _) fun _ => .ite (.of_pure _) ?_
  refine .bind .atSemicolon fun _ => .ite (loopClauses_composed none) ?_
  refine .bind .peek fun _ => .ite (rangeOver_composed _ _) ?_
  exact .bind exprs_composed loopFrom_composed

theorem loop_composed : Composed rec (loop rec) 0 := by
  refine .bind (.expectKeyword _) fun _ => .bind (.header loopHeader_composed) fun _ =>
    .bind block_composed fun _ => ?_
  split
  all_goals first | exact .of_pure _ | exact .fail _

/-! ## Declarations -/

theorem valueSpec_composed (kw : ValueKeyword) (first : Bool) :
    Composed rec (valueSpec rec kw first) (-1) := by
  refine .bind names_composed fun _ => .bind .peek fun _ => ?_
  extract_lets typed
  have htyped (t) : Composed rec (typed t) (-1) := by
    have hchecked (c : Prop) [Decidable c] (f : SyntaxFault) (spec : ValueSpec) : Composed rec
        (if c then (Read.fail f : Read Unit) >>= fun _ => pure spec else pure spec) (-1) :=
      .ite (.bind (.fail _) fun _ => .of_pure _) (.of_pure _)
    refine .bind (.atSymbol _) fun _ => .ite (.bind .skip fun _ => .bind exprs_composed
      fun _ => ?_) ?_
    all_goals cases kw <;> exact hchecked _ _ _
  exact .ite (htyped none) (.bind (.phrase _) fun _ => htyped _)

theorem valueSpecs_composed (kw : ValueKeyword) (first : Bool) :
    Composed rec (valueSpecs rec kw first) (-1) := by
  refine .bind (.atListEnd _) fun _ => .ite (.of_pure _) ?_
  exact .bind (valueSpec_composed kw first) fun _ => .bind .statementEnd fun _ =>
    .bind (.phrase _) fun _ => .of_pure _

theorem typeSpec_composed : Composed rec (typeSpec rec) (-1) := by
  refine .bind .expectName fun n => ?_
  have htype (isAlias : Bool) : Composed rec (rec .type >>= fun t =>
      pure (TypeSpec.mk n isAlias t)) (-1) := .bind (.phrase _) fun _ => .of_pure _
  exact .bind (.atSymbol _) fun _ => .ite (.bind .skip fun _ => htype _) (htype _)

theorem typeSpecs_composed : Composed rec (typeSpecs rec) (-1) := by
  refine .bind (.atListEnd _) fun _ => .ite (.of_pure _) ?_
  exact .bind typeSpec_composed fun _ => .bind .statementEnd fun _ => .bind (.phrase _) fun _ =>
    .of_pure _

theorem group_composed {lines : Read (List α)} {line : Read α} (hlines : Composed rec lines l)
    (hline : Composed rec line l) : Composed rec (group lines line) l := by
  refine .bind (.atSymbol _) fun _ => .ite ?_ (.bind hline fun _ => .of_pure _)
  exact .bind .skip fun _ => .bind hlines fun _ => .bind (.expect _) fun _ => .of_pure _

theorem valueDecl_composed (kw : ValueKeyword) : Composed rec (valueDecl rec kw) (-1) :=
  .bind .skip fun _ => .bind (group_composed (.phrase _) (valueSpec_composed kw true)) fun _ =>
    .of_pure _

theorem typeDecl_composed : Composed rec (typeDecl rec) (-1) :=
  .bind .skip fun _ => .bind (group_composed (.phrase _) typeSpec_composed) fun _ => .of_pure _

/-! ## Statements -/

theorem launched_composed (w : Keyword) : Composed rec (launched rec w) (-1) := by
  refine .bind .skip fun _ => .bind expr_composed fun _ => ?_
  split
  · exact .of_pure _
  · exact .fail _

theorem results_composed : Composed rec (results rec) (-1) := by
  refine .bind .skip fun _ => .bind .peek fun _ => ?_
  split
  all_goals first | exact .of_pure _ | exact exprs_composed

theorem branch_composed (kw : BranchKeyword) : Composed rec (branch kw) l := by
  refine .bind .skip fun _ => .bind .peek fun _ => ?_
  split
  · exact .of_pure _
  · exact .bind .skip fun _ => .of_pure _
  · exact .of_pure _

theorem labeled_composed (n : String) : Composed rec (labeled rec n) 0 := by
  refine .bind .skip fun _ => .bind .peek fun _ => ?_
  split
  · exact .of_pure _
  · exact .of_pure _
  · exact .bind (.phrase _) fun _ => .of_pure _

theorem simpleOrLabeled_composed : Composed rec (simpleOrLabeled rec) 0 := by
  refine .bind (.lift exprs_composed) fun left => .bind .peek fun _ => ?_
  split
  · exact labeled_composed _
  · exact .bind (.lift (simpleTail_composed _)) fun _ => .bind .statementEnd fun _ => .of_pure _

theorem ended_composed {p : Read α} (hp : Composed rec p l) : Composed rec (ended p) l :=
  .bind hp fun _ => .bind .statementEnd fun _ => .of_pure _

theorem stmt_composed : Composed rec (stmt rec) 0 := by
  refine .bind .peek fun k => .ite simpleOrLabeled_composed ?_
  split
  · exact ended_composed (.lift (valueDecl_composed _))
  · exact ended_composed (.lift (valueDecl_composed _))
  · exact ended_composed (.lift typeDecl_composed)
  · exact ended_composed (.lift (.bind (launched_composed _) fun _ => .of_pure _))
  · exact ended_composed (.lift (.bind (launched_composed _) fun _ => .of_pure _))
  · exact ended_composed (.lift (.bind results_composed fun _ => .of_pure _))
  · exact ended_composed (branch_composed _)
  · exact ended_composed (branch_composed _)
  · exact ended_composed (branch_composed _)
  · exact ended_composed (branch_composed _)
  · exact ended_composed (.bind block_composed fun _ => .of_pure _)
  · exact ended_composed conditional_composed
  · exact ended_composed switch_composed
  · exact ended_composed select_composed
  · exact ended_composed loop_composed
  · exact .bind .skip fun _ => .of_pure _
  · exact .bind .skip fun _ => .of_pure _
  · exact .of_pure _
  · exact .of_pure _
  · exact .unexpected _

theorem stmts_composed : Composed rec (stmts rec) 0 :=
  .bind .peek fun _ => .ite (.of_pure _) <|
    .bind stmt_composed fun _ => .bind (.phrase _) fun _ => .of_pure _

/-! ## All phrases -/

/-- Each phrase is read by a reader that is composed of readers for phrases. -/
theorem step_composed (ph : Phrase α) : Composed rec (ph.step rec) ph.floor := by
  cases ph with
  | binary prec => exact binary_composed prec
  | binaryTail prec x => exact binaryTail_composed prec x
  | unary => exact unary_composed
  | primaryTail x => exact primaryTail_composed x
  | exprsTail => exact exprsTail_composed
  | args => exact args_composed
  | elems => exact elems_composed
  | type => exact type_composed
  | typesTail => exact typesTail_composed
  | typeArgsTail => exact typeArgsTail_composed
  | namesTail => exact namesTail_composed
  | fields => exact fields_composed
  | interfaceItems => exact interfaceItems_composed
  | unionTail => exact unionTail_composed
  | params => exact params_composed
  | stmt => exact stmt_composed
  | stmts => exact stmts_composed
  | conditional => exact conditional_composed
  | caseClauses => exact caseClauses_composed
  | commClauses => exact commClauses_composed
  | valueSpecs kw first => exact valueSpecs_composed kw first
  | typeSpecs => exact typeSpecs_composed

/-! ## The entry points -/

namespace ImportSpec

theorem read_composed : Composed rec read l := by
  refine .bind .peek fun k => ?_
  extract_lets path
  have hpath (name) : Composed rec (path name) l := by
    refine .bind .peek fun k => ?_
    have hread (text : String) : Composed rec (Read.skip >>= fun _ =>
        pure (ImportSpec.mk name (unquote text))) l := .bind .skip fun _ => .of_pure _
    split
    · exact .ite (.bind (.fail _) fun _ => hread _) (hread _)
    · exact .unexpected _
  split
  · exact .bind .skip fun _ => hpath _
  · exact .bind .skip fun _ => hpath _
  · exact hpath _

theorem readAll_composed (bound : Nat) : Composed rec (readAll bound) l := by
  induction bound with
  | zero => exact .fail _
  | succ bound ih =>
    refine .bind (.atListEnd _) fun _ => .ite (.of_pure _) ?_
    exact .bind read_composed fun _ => .bind .statementEnd fun _ => .bind ih fun _ => .of_pure _

end ImportSpec

namespace TokenStream

theorem whole_composed {p : Read α} (hp : Composed rec p l) : Composed rec (whole p) l :=
  .bind hp fun _ => .bind .fragmentEnd fun _ => .of_pure _

end TokenStream

end GoRepl.Syntax
