import GoRepl.Proofs.Syntax.Expression
import GoRepl.Proofs.Syntax.Nesting

/-! # Expressions and statements take nested brackets

One lemma for each reader of the grammar, given that the readers of the phrases nested in it take
nested tokens.

* `primary_takes`, `stmt_takes` and the lemmas around them: the grammar of expressions and
  statements.
* `step_nest`: the readers of all phrases over such readers.
* `read_nest`: so by induction the readers of any depth.
-/

namespace GoRepl.Syntax

open Read Grammar

variable {rec : Phrases} {ts : List Token} (h : Phrases.Nest rec)

include h

/-! ## Expressions -/

theorem funcOperand_takes : Takes [] ts (funcOperand rec) := by
  unfold funcOperand
  refine .bind (signature_takes h) fun s zs => .atSymbol (fun hk => ?_) (.of_pure _)
  refine .bind (.nested ?_) fun b _ => .of_pure _
  refine .skip_opening .brace hk fun _ => .bind (h _ _) fun b _ => ?_
  exact .expect_closing .brace fun _ => .of_pure _

theorem operand_takes : Takes [] ts (operand rec) := by
  unfold operand
  refine .peek fun k hk => ?_
  split
  · exact .skip hk rfl fun _ => .of_pure _
  · exact .skip hk rfl fun _ => .of_pure _
  · refine .skip_opening .paren hk fun _ => .bind (.nested (h _ _)) fun x _ => ?_
    exact .expect_closing .paren fun _ => .of_pure _
  · exact .skip hk rfl fun _ => funcOperand_takes h
  all_goals first | exact type_takes h | exact .unexpected _

theorem primary_takes : Takes [] ts (primary rec) := by
  unfold primary
  exact .bind (operand_takes h) fun x _ => h _ _

omit h in
theorem depth_of_unaryOp? {k : Kind} {op : UnaryOp} (hop : unaryOp? k = some op) :
    k.depth = 0 := by
  unfold unaryOp? at hop
  split at hop
  all_goals first | rfl | cases hop

omit h in
theorem receive_takes (x : Expr) : Takes [] ts (receive x) := by
  unfold receive
  split
  · exact .of_pure _
  · exact .fail _
  · exact .of_pure _

theorem unary_takes : Takes [] ts (unary rec) := by
  unfold unary
  refine .peek fun k hk => ?_
  split
  · rename_i op hop
    exact .skip hk (depth_of_unaryOp? hop) fun _ => .bind (h _ _) fun x _ => .of_pure _
  · split
    · rename_i ha
      exact .skip hk (eq_of_beq ha ▸ rfl) fun _ => .bind (h _ _) fun x _ => receive_takes x
    · split
      · rename_i hm
        exact .skip hk (eq_of_beq hm ▸ rfl) fun _ => .bind (h _ _) fun x _ => .of_pure _
      · exact primary_takes h

theorem binaryTail_takes (prec : Nat) (left : Expr) : Takes [] ts (binaryTail rec prec left) := by
  unfold binaryTail
  refine .peek fun k hk => ?_
  split
  · split
    · exact .of_pure _
    · exact .skip hk rfl fun _ => .bind (h _ _) fun right _ => h _ _
  · exact .of_pure _

theorem binary_takes (prec : Nat) : Takes [] ts (binary rec prec) := by
  unfold binary
  exact .bind (unary_takes h) fun x _ => h _ _

theorem expr_takes : Takes [] ts (expr rec) := binary_takes h 1

theorem exprs_takes : Takes [] ts (exprs rec) := by
  unfold exprs
  exact .bind (expr_takes h) fun x _ => .bind (h _ _) fun xs _ => .of_pure _

theorem exprsTail_takes : Takes [] ts (exprsTail rec) := by
  unfold exprsTail
  refine .atSymbol (fun hk => ?_) (.of_pure _)
  exact .skip hk rfl fun _ => exprs_takes h

theorem args_takes : Takes [] ts (args rec) := by
  unfold args
  refine .atListEnd fun b => ?_
  split
  · exact .of_pure _
  refine .bind (expr_takes h) fun x zs => ?_
  have hmore : ∀ spread zs, Takes [] zs (atSymbol .comma >>= fun b =>
      if b = true then skip >>= fun _ => rec .args >>= fun more =>
        pure (x :: more.1, spread || more.2)
      else pure ([x], spread)) := fun spread zs => by
    refine .atSymbol (fun hk => ?_) (.of_pure _)
    exact .skip hk rfl fun _ => .bind (h _ _) fun more _ => .of_pure _
  refine .atSymbol (fun hk => ?_) (hmore _ _)
  exact .skip hk rfl fun _ => hmore _ _

theorem bound_takes : Takes [] ts (indexOrSlice.bound rec) := by
  unfold indexOrSlice.bound
  refine .atSymbol (fun _ => ?_) (.atSymbol (fun _ => .of_pure _) ?_)
  · exact .atSymbol (fun _ => .of_pure _) (.of_pure _)
  · exact .bind (h _ _) fun i _ => .of_pure _

theorem sliceOrIndex_takes (x : Expr) (low : Option Expr) :
    Takes [] ts (sliceOrIndex rec x low) := by
  unfold sliceOrIndex
  refine .atSymbol (fun hk => ?_) (.bind (h _ _) fun us _ => .of_pure _)
  refine .skip hk rfl fun _ => .bind (bound_takes h) fun high _ => ?_
  refine .atSymbol (fun hk => ?_) (.of_pure _)
  exact .skip hk rfl fun _ => .bind (bound_takes h) fun max _ => .of_pure _

theorem indexOrSlice_takes (x : Expr) : Takes [] ts (indexOrSlice rec x) := by
  rw [indexOrSlice_eq]
  refine .expect_opening .square fun _ => .bind (.nested ?_) fun made _ => ?_
  · refine .atSymbol (fun _ => sliceOrIndex_takes h x none) ?_
    exact .bind (expr_takes h) fun i _ => sliceOrIndex_takes h x (some i)
  · refine .expect_closing .square fun _ => ?_
    split
    · exact .fail _
    · exact .of_pure _

theorem call_takes (fn : Expr) : Takes [] ts (call rec fn) := by
  unfold call
  refine .expect_opening .paren fun _ => .bind (.nested (h _ _)) fun arguments _ => ?_
  exact .expect_closing .paren fun _ => .of_pure _

theorem composite_takes (t : Option Expr) : Takes [] ts (composite rec t) := by
  unfold composite
  refine .expect_opening .brace fun _ => .bind (.nested (h _ _)) fun es _ => ?_
  exact .expect_closing .brace fun _ => .of_pure _

theorem elem_takes : Takes [] ts (elem rec) := by
  unfold elem
  exact .atSymbol (fun _ => composite_takes h none) (expr_takes h)

theorem elems_takes : Takes [] ts (elems rec) := by
  unfold elems
  refine .atListEnd fun b => ?_
  split
  · exact .of_pure _
  refine .bind (elem_takes h) fun k _ => ?_
  have hmore : ∀ e zs, Takes [] zs (atSymbol .comma >>= fun b =>
      if b = true then skip >>= fun _ => rec .elems >>= fun es => pure (e :: es)
      else pure [e]) := fun e zs => by
    refine .atSymbol (fun hk => ?_) (.of_pure _)
    exact .skip hk rfl fun _ => .bind (h _ _) fun es _ => .of_pure _
  refine .atSymbol (fun hk => ?_) (hmore _ _)
  exact .skip hk rfl fun _ => .bind (elem_takes h) fun v _ => hmore _ _

theorem selectorOrAssertion_takes (x : Expr) : Takes [] ts (selectorOrAssertion rec x) := by
  unfold selectorOrAssertion
  refine .peek fun k hk => ?_
  split
  · exact .skip hk rfl fun _ => .of_pure _
  · refine .skip_opening .paren hk fun _ => .peek fun k hk => ?_
    split
    · rename_i ht
      refine .skip hk (eq_of_beq ht ▸ rfl) fun _ => ?_
      exact .bind (.of_pure _) fun t _ => .expect_closing .paren fun _ => .of_pure _
    · refine .bind (h _ _) fun t _ => .bind (.of_pure _) fun t _ => ?_
      exact .expect_closing .paren fun _ => .of_pure _
  · exact .unexpected _

theorem primaryTail_takes (x : Expr) : Takes [] ts (primaryTail rec x) := by
  unfold primaryTail
  refine .peek fun k hk => ?_
  split
  · exact .skip hk rfl fun _ => .bind (selectorOrAssertion_takes h x) fun y _ => h _ _
  · exact .bind (indexOrSlice_takes h x) fun y _ => h _ _
  · exact .bind (call_takes h x) fun y _ => h _ _
  · refine .level fun l => ?_
    split
    · exact .bind (composite_takes h _) fun y _ => h _ _
    · exact .of_pure _
  · exact .of_pure _

/-! ## Statements -/

omit h in
theorem depth_of_assignOp? {k : Kind} {op : AssignOp} (hop : assignOp? k = some op) :
    k.depth = 0 := by
  unfold assignOp? at hop
  split at hop
  all_goals first | rfl | cases hop

theorem assignment_takes (left : List Expr) (op : AssignOp) (hk : (headKind ts).depth = 0) :
    Takes [] ts (assignment rec left op) := by
  unfold assignment
  refine .skip rfl hk fun _ => .bind (exprs_takes h) fun right _ => ?_
  extract_lets done
  split
  · split
    · exact .fail_bind _ _
    · exact .of_pure _
  · exact .of_pure _

theorem simpleTail_takes (left : List Expr) : Takes [] ts (simpleTail rec left) := by
  unfold simpleTail
  refine .peek fun k hk => ?_
  split
  · rename_i op hop
    exact assignment_takes h left op (hk ▸ depth_of_assignOp? hop)
  · split
    · split
      · exact .skip hk rfl fun _ => .bind (expr_takes h) fun v _ => .of_pure _
      · exact .skip hk rfl fun _ => .of_pure _
      · exact .skip hk rfl fun _ => .of_pure _
      · exact .of_pure _
    · exact .unexpected _

theorem simple_takes : Takes [] ts (simple rec) := by
  unfold simple
  exact .bind (exprs_takes h) fun left _ => simpleTail_takes h left

theorem block_takes : Takes [] ts (block rec) := by
  unfold block
  refine .expect_opening .brace fun _ => .bind (h _ _) fun ss _ => ?_
  exact .expect_closing .brace fun _ => .of_pure _

omit h in
theorem depth_of_isSemicolon {k : Kind} (hk : k.isSemicolon = true) : k.depth = 0 := by
  rcases isSemicolon_iff.mp hk with rfl | rfl <;> rfl

theorem initAndLast_takes : Takes [] ts (initAndLast rec) := by
  unfold initAndLast
  have hlast : ∀ fst zs, Takes [] zs (atSemicolon >>= fun b => if b = true then do
      skip
      if ← atSymbol .lbrace then return (fst, none)
      let s ← simple rec
      return (fst, some s)
    else return (none, fst)) := fun fst zs => by
    refine .atSemicolon (fun hk => ?_) (.of_pure _)
    refine .skip rfl (depth_of_isSemicolon hk) fun _ => .atSymbol (fun _ => .of_pure _) ?_
    exact .bind (simple_takes h) fun s _ => .of_pure _
  refine .atSemicolon (fun _ => hlast none _) ?_
  exact .bind (simple_takes h) fun s _ => hlast (some s) _

omit h in
theorem condition_takes (s : Option Simple) : Takes [] ts (condition s) := by
  unfold condition
  split
  · exact .of_pure _
  · exact .fail _
  · exact .fail _

theorem elseBranch_takes : Takes [] ts (elseBranch rec) := by
  unfold elseBranch
  refine .peek fun k hk => ?_
  split
  · rename_i he
    refine .skip hk (eq_of_beq he ▸ rfl) fun _ => .peek fun k _ => ?_
    split
    · exact .bind (h _ _) fun s _ => .of_pure _
    · exact .bind (block_takes h) fun b _ => .of_pure _
    · exact .unexpected _
  · exact .of_pure _

theorem conditional_takes : Takes [] ts (conditional rec) := by
  unfold conditional
  refine .expectKeyword fun _ => ?_
  extract_lets rest
  have hrest : ∀ zs, Takes [] zs (rest ()) := fun zs => by
    refine .bind (.header (initAndLast_takes h)) fun last _ => ?_
    refine .bind (condition_takes _) fun cond _ => .bind (block_takes h) fun body _ => ?_
    exact .bind (elseBranch_takes h) fun orElse _ => .of_pure _
  exact .atSymbol (fun _ => .fail_bind _ _) (hrest _)

theorem caseClause_takes : Takes [] ts (caseClause rec) := by
  unfold caseClause
  refine .peek fun k hk => ?_
  extract_lets rest
  have hrest : ∀ es zs, Takes [] zs (rest es) := fun es zs => by
    exact .expect rfl fun _ => .bind (h _ _) fun ss _ => .of_pure _
  split
  · refine .skip hk rfl fun _ => .bind (exprs_takes h) fun xs _ => ?_
    exact .bind (.of_pure _) fun es _ => hrest es _
  · exact .skip hk rfl fun _ => .bind (.of_pure _) fun es _ => hrest es _
  · exact .unexpected_bind _ _

theorem caseClauses_takes : Takes [] ts (caseClauses rec) := by
  unfold caseClauses
  refine .atListEnd fun b => ?_
  split
  · exact .of_pure _
  · exact .bind (caseClause_takes h) fun c _ => .bind (h _ _) fun cs _ => .of_pure _

theorem switch_takes : Takes [] ts (switch rec) := by
  unfold switch
  refine .expectKeyword fun _ => .bind (.header ?_) fun head _ => ?_
  · exact .atSymbol (fun _ => .of_pure _) (initAndLast_takes h)
  · refine .expect_opening .brace fun _ => .bind (h _ _) fun cs _ => ?_
    exact .expect_closing .brace fun _ => .of_pure _

theorem commClause_takes : Takes [] ts (commClause rec) := by
  unfold commClause
  refine .peek fun k hk => ?_
  extract_lets rest
  have hrest : ∀ comm zs, Takes [] zs (rest comm) := fun comm zs => by
    exact .expect rfl fun _ => .bind (h _ _) fun ss _ => .of_pure _
  split
  · refine .skip hk rfl fun _ => .bind (simple_takes h) fun s _ => ?_
    exact .bind (.of_pure _) fun comm _ => hrest comm _
  · exact .skip hk rfl fun _ => .bind (.of_pure _) fun comm _ => hrest comm _
  · exact .unexpected_bind _ _

theorem commClauses_takes : Takes [] ts (commClauses rec) := by
  unfold commClauses
  refine .atListEnd fun b => ?_
  split
  · exact .of_pure _
  · exact .bind (commClause_takes h) fun c _ => .bind (h _ _) fun cs _ => .of_pure _

theorem select_takes : Takes [] ts (select rec) := by
  unfold select
  refine .expectKeyword fun _ => .expect_opening .brace fun _ => .bind (h _ _) fun cs _ => ?_
  exact .expect_closing .brace fun _ => .of_pure _

theorem rangeOver_takes (left : List Expr) (define : Bool) (hk : (headKind ts).depth = 0) :
    Takes [] ts (rangeOver rec left define) := by
  unfold rangeOver
  refine .skip rfl hk fun _ => .bind (expr_takes h) fun x _ => ?_
  extract_lets done
  split
  · exact .fail_bind _ _
  · exact .of_pure _

theorem loopClauses_takes (init : Option Simple) (hk : (headKind ts).isSemicolon = true) :
    Takes [] ts (loopClauses rec init) := by
  unfold loopClauses
  refine .skip rfl (depth_of_isSemicolon hk) fun _ => ?_
  extract_lets rest
  have hrest : ∀ cond zs, Takes [] zs (rest cond) := fun cond zs => by
    refine .atSemicolon (fun hs => ?_) (.unexpected_bind _ _)
    refine .skip rfl (depth_of_isSemicolon hs) fun _ => .atSymbol (fun _ => .of_pure _) ?_
    exact .bind (simple_takes h) fun post _ => .of_pure _
  refine .atSemicolon (fun _ => hrest none _) ?_
  exact .bind (simple_takes h) fun s _ => hrest (some s) _

theorem loopFrom_takes (left : List Expr) : Takes [] ts (loopFrom rec left) := by
  unfold loopFrom
  refine .peek fun k hk => .peekSecond fun second hs => ?_
  split
  · exact .skip_tail (hk ▸ rfl) (rangeOver_takes h left true (hs ▸ rfl))
  · exact .skip_tail (hk ▸ rfl) (rangeOver_takes h left false (hs ▸ rfl))
  · refine .bind (simpleTail_takes h left) fun s _ => .atSemicolon (fun hs => ?_) (.of_pure _)
    exact loopClauses_takes h (some s) hs

theorem loopHeader_takes : Takes [] ts (loopHeader rec) := by
  unfold loopHeader
  refine .atSymbol (fun _ => .of_pure _) (.atSemicolon (fun hk => loopClauses_takes h none hk) ?_)
  refine .peek fun k hk => ?_
  split
  · rename_i hr
    refine rangeOver_takes h _ _ ?_
    rw [hk, eq_of_beq hr]
    rfl
  · exact .bind (exprs_takes h) fun left _ => loopFrom_takes h left

theorem loop_takes : Takes [] ts (loop rec) := by
  unfold loop
  refine .expectKeyword fun _ => .bind (.header (loopHeader_takes h)) fun head _ => ?_
  refine .bind (block_takes h) fun body _ => ?_
  split
  all_goals first | exact .of_pure _ | exact .fail _

/-! ## Declarations -/

theorem valueSpec_takes (kw : ValueKeyword) (first : Bool) :
    Takes [] ts (valueSpec rec kw first) := by
  unfold valueSpec
  refine .bind (names_takes h) fun ns _ => .peek fun k _ => ?_
  extract_lets typed
  have htyped : ∀ t zs, Takes [] zs (typed t) := fun t zs => by
    have hchecked : ∀ (b : Bool) (f : SyntaxFault) (spec : ValueSpec) zs, Takes [] zs
        (if b = true then (Read.fail f : Read Unit) >>= fun _ => pure spec else pure spec) := by
      intro b f spec zs
      split
      · exact .fail_bind _ _
      · exact .of_pure _
    refine .atSymbol (fun hk => .skip hk rfl fun _ => .bind (exprs_takes h) fun vs _ => ?_) ?_
    all_goals cases kw <;> exact hchecked _ _ _ _
  split
  · exact htyped none _
  · exact .bind (h _ _) fun t _ => htyped (some t) _

theorem valueSpecs_takes (kw : ValueKeyword) (first : Bool) :
    Takes [] ts (valueSpecs rec kw first) := by
  unfold valueSpecs
  refine .atListEnd fun b => ?_
  split
  · exact .of_pure _
  · refine .bind (valueSpec_takes h kw first) fun s _ => .bind .statementEnd fun _ _ => ?_
    exact .bind (h _ _) fun ss _ => .of_pure _

theorem typeSpec_takes : Takes [] ts (typeSpec rec) := by
  unfold typeSpec
  refine .expectName fun n _ => ?_
  have htype : ∀ isAlias zs, Takes [] zs (rec .type >>= fun t =>
      pure (TypeSpec.mk n isAlias t)) := fun isAlias zs => .bind (h _ _) fun t _ => .of_pure _
  refine .atSymbol (fun hk => ?_) (htype _ _)
  exact .skip hk rfl fun _ => htype _ _

theorem typeSpecs_takes : Takes [] ts (typeSpecs rec) := by
  unfold typeSpecs
  refine .atListEnd fun b => ?_
  split
  · exact .of_pure _
  · refine .bind (typeSpec_takes h) fun s _ => .bind .statementEnd fun _ _ => ?_
    exact .bind (h _ _) fun ss _ => .of_pure _

omit h in
theorem group_takes {α : Type} {lines : Read (List α)} {line : Read α}
    (hlines : ∀ zs, Takes [] zs lines) (hline : ∀ zs, Takes [] zs line) :
    Takes [] ts (group lines line) := by
  unfold group
  refine .atSymbol (fun hk => ?_) (.bind (hline _) fun l _ => .of_pure _)
  refine .skip_opening .paren hk fun _ => .bind (hlines _) fun ls _ => ?_
  exact .expect_closing .paren fun _ => .of_pure _

theorem valueDecl_takes (kw : ValueKeyword) (hk : (headKind ts).depth = 0) :
    Takes [] ts (valueDecl rec kw) := by
  unfold valueDecl
  refine .skip rfl hk fun _ => .bind (group_takes (fun _ => h _ _) ?_) fun ss _ => .of_pure _
  exact fun _ => valueSpec_takes h kw true

theorem typeDecl_takes (hk : (headKind ts).depth = 0) : Takes [] ts (typeDecl rec) := by
  unfold typeDecl
  refine .skip rfl hk fun _ => .bind (group_takes (fun _ => h _ _) ?_) fun ss _ => .of_pure _
  exact fun _ => typeSpec_takes h

/-! ## Statements -/

theorem launched_takes (w : Keyword) (hk : (headKind ts).depth = 0) :
    Takes [] ts (launched rec w) := by
  unfold launched
  refine .skip rfl hk fun _ => .bind (expr_takes h) fun x _ => ?_
  split
  · exact .of_pure _
  · exact .fail _

theorem results_takes (hk : (headKind ts).depth = 0) : Takes [] ts (results rec) := by
  unfold results
  refine .skip rfl hk fun _ => .peek fun k _ => ?_
  split
  all_goals first | exact .of_pure _ | exact exprs_takes h

omit h in
theorem branch_takes (kw : BranchKeyword) (hk : (headKind ts).depth = 0) :
    Takes [] ts (branch kw) := by
  unfold branch
  refine .skip rfl hk fun _ => .peek fun k hk => ?_
  split
  · exact .of_pure _
  · exact .skip hk rfl fun _ => .of_pure _
  · exact .of_pure _

theorem labeled_takes (l : String) (hk : (headKind ts).depth = 0) :
    Takes [] ts (labeled rec l) := by
  unfold labeled
  refine .skip rfl hk fun _ => .peek fun k _ => ?_
  split
  · exact .of_pure _
  · exact .of_pure _
  · exact .bind (h _ _) fun s _ => .of_pure _

theorem simpleOrLabeled_takes : Takes [] ts (simpleOrLabeled rec) := by
  unfold simpleOrLabeled
  refine .bind (exprs_takes h) fun left _ => .peek fun k hk => ?_
  split
  · exact labeled_takes h _ (hk ▸ rfl)
  · exact .bind (simpleTail_takes h left) fun s _ => .bind .statementEnd fun _ _ => .of_pure _

omit h in
theorem ended_takes {α : Type} {p : Read α} (hp : Takes [] ts p) : Takes [] ts (ended p) := by
  unfold ended
  exact .bind hp fun a _ => .bind .statementEnd fun _ _ => .of_pure _

theorem stmt_takes : Takes [] ts (stmt rec) := by
  unfold stmt
  refine .peek fun k hk => ?_
  split
  · exact simpleOrLabeled_takes h
  split
  · exact ended_takes (valueDecl_takes h _ (hk ▸ rfl))
  · exact ended_takes (valueDecl_takes h _ (hk ▸ rfl))
  · exact ended_takes (typeDecl_takes h (hk ▸ rfl))
  · exact ended_takes (.bind (launched_takes h _ (hk ▸ rfl)) fun x _ => .of_pure _)
  · exact ended_takes (.bind (launched_takes h _ (hk ▸ rfl)) fun x _ => .of_pure _)
  · exact ended_takes (.bind (results_takes h (hk ▸ rfl)) fun xs _ => .of_pure _)
  · exact ended_takes (branch_takes _ (hk ▸ rfl))
  · exact ended_takes (branch_takes _ (hk ▸ rfl))
  · exact ended_takes (branch_takes _ (hk ▸ rfl))
  · exact ended_takes (branch_takes _ (hk ▸ rfl))
  · exact ended_takes (.bind (block_takes h) fun b _ => .of_pure _)
  · exact ended_takes (conditional_takes h)
  · exact ended_takes (switch_takes h)
  · exact ended_takes (select_takes h)
  · exact ended_takes (loop_takes h)
  · exact .skip hk rfl fun _ => .of_pure _
  · exact .skip hk rfl fun _ => .of_pure _
  · exact .of_pure _
  · exact .of_pure _
  · exact .unexpected _

theorem stmts_takes : Takes [] ts (stmts rec) := by
  unfold stmts
  refine .peek fun k _ => ?_
  split
  · exact .of_pure _
  · exact .bind (stmt_takes h) fun s _ => .bind (h _ _) fun ss _ => .of_pure _

/-! ## All phrases -/

theorem step_nest : Phrases.Nest (Phrase.step rec) := by
  intro α ph ts
  cases ph with
  | binary prec => exact binary_takes h prec
  | binaryTail prec x => exact binaryTail_takes h prec x
  | unary => exact unary_takes h
  | primaryTail x => exact primaryTail_takes h x
  | exprsTail => exact exprsTail_takes h
  | args => exact args_takes h
  | elems => exact elems_takes h
  | type => exact type_takes h
  | typesTail => exact typesTail_takes h
  | typeArgsTail => exact typeArgsTail_takes h
  | namesTail => exact namesTail_takes h
  | fields => exact fields_takes h
  | interfaceItems => exact interfaceItems_takes h
  | unionTail => exact unionTail_takes h
  | params => exact params_takes h
  | stmt => exact stmt_takes h
  | stmts => exact stmts_takes h
  | conditional => exact conditional_takes h
  | caseClauses => exact caseClauses_takes h
  | commClauses => exact commClauses_takes h
  | valueSpecs kw first => exact valueSpecs_takes h kw first
  | typeSpecs => exact typeSpecs_takes h

omit h in
/-- However deep the phrases nest, they take nested tokens. -/
theorem read_nest (depth : Nat) : Phrases.Nest (Phrase.read depth) := by
  induction depth with
  | zero => exact fun _ _ => .fail _
  | succ depth ih => exact fun ph ts => step_nest ih ph ts

end GoRepl.Syntax
