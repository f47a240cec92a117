import GoRepl.Proofs.Syntax.Exchange

/-! # Expressions and statements with other tokens behind

One lemma for each reader of the grammar, given that the readers of the phrases nested in it read
the same in front of the new tokens.

* `binary_exchanges`, `primaryTail_exchanges` and the lemmas around them: expressions, which may
  end in front of the tokens behind.
* `stmt_exchanges` and the lemmas around it: statements, which stand inside of a function literal.
* `step_exchanges`: the readers of all phrases over such readers.
* `read_exchanges`: so by induction the readers of any depth.
-/

namespace GoRepl.Syntax

open Read Grammar

variable {x : Exchange} {inner : Bool} {rec rec' : Phrases} (h : Phrases.Exchange x rec rec')

include h

/-! ## Expressions -/

theorem funcOperand_exchanges : Exchanges x false (funcOperand rec) (funcOperand rec') := by
  unfold funcOperand
  refine .bind (signature_exchanges h) fun s => .atSymbol rfl fun b => ?_
  split
  · refine .bind (.nested (.skip ?_)) fun b => .of_pure _
    exact .bind_expect (h .stmts) rfl fun b => .of_pure _
  · exact .of_pure _

theorem operand_exchanges : Exchanges x false (operand rec) (operand rec') := by
  unfold operand
  refine .peek (.intro rfl rfl) (.intro rfl rfl) fun k => ?_
  split
  · exact .skip (.of_pure _)
  · exact .skip (.of_pure _)
  · exact .skip (.bind_expect (.nested (h (.binary 1)).weaken) rfl fun y => .of_pure _)
  · exact .skip (funcOperand_exchanges h)
  all_goals first | exact type_exchanges h | exact .unexpected _

theorem primary_exchanges : Exchanges x false (primary rec) (primary rec') := by
  unfold primary
  exact .bind (operand_exchanges h) fun y => h (.primaryTail y)

omit h in
theorem receive_exchanges (y : Expr) : Exchanges x inner (receive y) (receive y) := by
  unfold receive
  split
  · exact .of_pure _
  · exact .fail _
  · exact .of_pure _

theorem unary_exchanges : Exchanges x false (unary rec) (unary rec') := by
  unfold unary
  refine .peek (.intro rfl rfl) (.intro rfl rfl) fun k => ?_
  split
  · exact .skip (.bind (h .unary) fun y => .of_pure _)
  · split
    · exact .skip (.bind (h .unary) fun y => receive_exchanges y)
    · split
      · exact .skip (.bind (h .unary) fun y => .of_pure _)
      · exact primary_exchanges h

theorem binaryTail_exchanges (prec : Nat) (left : Expr) :
    Exchanges x false (binaryTail rec prec left) (binaryTail rec' prec left) := by
  unfold binaryTail
  refine .peek (.intro rfl rfl) (.intro rfl rfl) fun k => ?_
  split
  · split
    · exact .of_pure _
    · exact .skip (.bind (h.binary _) fun right => h.binaryTail prec _)
  · exact .of_pure _

theorem binary_exchanges (prec : Nat) :
    Exchanges x false (binary rec prec) (binary rec' prec) := by
  unfold binary
  exact .bind (unary_exchanges h) fun y => h (.binaryTail prec y)

theorem expr_exchanges : Exchanges x true (expr rec) (expr rec') := (binary_exchanges h 1).weaken

theorem exprs_exchanges : Exchanges x true (exprs rec) (exprs rec') := by
  unfold exprs
  exact .bind (expr_exchanges h) fun y => .bind (h .exprsTail) fun ys => .of_pure _

theorem exprsTail_exchanges : Exchanges x true (exprsTail rec) (exprsTail rec') := by
  unfold exprsTail
  refine .atSymbol rfl fun b => ?_
  split
  · exact .skip (exprs_exchanges h)
  · exact .of_pure _

theorem args_exchanges : Exchanges x true (args rec) (args rec') := by
  unfold args
  refine .atListEnd fun b => ?_
  split
  · exact .of_pure _
  refine .bind (expr_exchanges h) fun y => .atSymbol rfl fun spread => ?_
  extract_lets more more'
  have hmore : ∀ u, Exchanges x true (more u) (more' u) := fun u => by
    refine .atSymbol rfl fun b => ?_
    split
    · exact .skip (.bind (h .args) fun rest => .of_pure _)
    · exact .of_pure _
  split
  · exact .skip (hmore ())
  · exact hmore ()

theorem bound_exchanges :
    Exchanges x true (indexOrSlice.bound rec) (indexOrSlice.bound rec') := by
  unfold indexOrSlice.bound
  refine .atSymbol rfl fun colon => .atSymbol rfl fun bracket => ?_
  split
  · exact .of_pure _
  · exact .bind (h (.binary 1)).weaken fun i => .of_pure _

theorem sliceOrIndex_exchanges (y : Expr) (low : Option Expr) :
    Exchanges x true (sliceOrIndex rec y low) (sliceOrIndex rec' y low) := by
  unfold sliceOrIndex
  refine .atSymbol rfl fun b => ?_
  split
  · refine .skip (.bind (bound_exchanges h) fun high => .atSymbol rfl fun b => ?_)
    split
    · exact .skip (.bind (bound_exchanges h) fun max => .of_pure _)
    · exact .of_pure _
  · exact .bind (h .typeArgsTail) fun us => .of_pure _

theorem indexOrSlice_exchanges (y : Expr) :
    Exchanges x inner (indexOrSlice rec y) (indexOrSlice rec' y) := by
  rw [indexOrSlice_eq, indexOrSlice_eq]
  refine .expect rfl (.bind_expect (.nested (.atSymbol rfl fun b => ?_)) rfl fun made => ?_)
  · split
    · exact sliceOrIndex_exchanges h y none
    · exact .bind (expr_exchanges h) fun i => sliceOrIndex_exchanges h y (some i)
  · split
    · exact .fail _
    · exact .of_pure _

theorem call_exchanges (fn : Expr) : Exchanges x inner (call rec fn) (call rec' fn) := by
  unfold call
  exact .expect rfl (.bind_expect (.nested (h .args)) rfl fun arguments => .of_pure _)

theorem composite_exchanges (t : Option Expr) :
    Exchanges x inner (composite rec t) (composite rec' t) := by
  unfold composite
  exact .expect rfl (.bind_expect (.nested (h .elems)) rfl fun es => .of_pure _)

theorem elem_exchanges : Exchanges x true (elem rec) (elem rec') := by
  unfold elem
  refine .atSymbol rfl fun b => ?_
  split
  · exact composite_exchanges h none
  · exact expr_exchanges h

theorem elems_exchanges : Exchanges x true (elems rec) (elems rec') := by
  unfold elems
  refine .atListEnd fun b => ?_
  split
  · exact .of_pure _
  refine .bind (elem_exchanges h) fun k => .atSymbol rfl fun b => ?_
  extract_lets more more'
  have hmore : ∀ e, Exchanges x true (more e) (more' e) := fun e => by
    refine .atSymbol rfl fun b => ?_
    split
    · exact .skip (.bind (h .elems) fun es => .of_pure _)
    · exact .of_pure _
  split
  · exact .skip (.bind (elem_exchanges h) fun v => .bind (.of_pure _) hmore)
  · exact .bind (.of_pure _) hmore

theorem selectorOrAssertion_exchanges (y : Expr) :
    Exchanges x inner (selectorOrAssertion rec y) (selectorOrAssertion rec' y) := by
  unfold selectorOrAssertion
  refine .peek (.intro rfl rfl) (.intro rfl rfl) fun k => ?_
  split
  · exact .skip (.of_pure _)
  · refine .skip (.peek (.intro rfl rfl) (.intro rfl rfl) fun k => ?_)
    split
    · exact .skip (.bind (.of_pure _) fun t => .expect rfl (.of_pure _))
    · refine .bind (h .type).weaken fun t => .bind (.of_pure _) fun t => ?_
      exact .expect rfl (.of_pure _)
  · exact .unexpected _

omit h in
theorem opensLiteral_sameLevel (y : Expr) {l l' : Int} (hl : SameLevel l l') :
    opensLiteral y l = opensLiteral y l' := by
  rcases hl with rfl | ⟨hl, hl'⟩
  · rfl
  · unfold opensLiteral
    rw [decide_eq_true hl, decide_eq_true hl']

theorem primaryTail_exchanges (y : Expr) :
    Exchanges x false (primaryTail rec y) (primaryTail rec' y) := by
  unfold primaryTail
  refine .peek (.intro rfl rfl) (.intro rfl rfl) fun k => ?_
  split
  · exact .skip (.bind (selectorOrAssertion_exchanges h y) fun z => h (.primaryTail z))
  · exact .bind (indexOrSlice_exchanges h y) fun z => h (.primaryTail z)
  · exact .bind (call_exchanges h y) fun z => h (.primaryTail z)
  · refine .level fun l l' hl => ?_
    rw [opensLiteral_sameLevel y hl]
    split
    · exact .bind (composite_exchanges h _) fun z => h (.primaryTail z)
    · exact .of_pure _
  · exact .of_pure _

/-! ## Simple statements and blocks -/

theorem assignment_exchanges (left : List Expr) (op : AssignOp) :
    Exchanges x true (assignment rec left op) (assignment rec' left op) := by
  unfold assignment
  refine .skip (.bind (exprs_exchanges h) fun right => ?_)
  extract_lets done
  split
  · split
    · exact .fail_bind _ _
    · exact .of_pure _
  · exact .of_pure _

theorem simpleTail_exchanges (left : List Expr) :
    Exchanges x true (simpleTail rec left) (simpleTail rec' left) := by
  unfold simpleTail
  refine .peek_inner fun k => ?_
  split
  · exact assignment_exchanges h left _
  · split
    · split
      · exact .skip (.bind (expr_exchanges h) fun v => .of_pure _)
      · exact .skip (.of_pure _)
      · exact .skip (.of_pure _)
      · exact .of_pure _
    · exact .unexpected _

theorem simple_exchanges : Exchanges x true (simple rec) (simple rec') := by
  unfold simple
  exact .bind (exprs_exchanges h) fun left => simpleTail_exchanges h left

theorem block_exchanges : Exchanges x true (block rec) (block rec') := by
  unfold block
  exact .expect rfl (.bind_expect (h .stmts) rfl fun ss => .of_pure _)

/-! ## Control statements -/

theorem initAndLast_exchanges : Exchanges x true (initAndLast rec) (initAndLast rec') := by
  unfold initAndLast
  refine .atSemicolon fun b => ?_
  extract_lets more more'
  have hmore : ∀ fst, Exchanges x true (more fst) (more' fst) := fun fst => by
    refine .atSemicolon fun b => ?_
    split
    · refine .skip (.atSymbol rfl fun b => ?_)
      split
      · exact .of_pure _
      · exact .bind (simple_exchanges h) fun s => .of_pure _
    · exact .of_pure _
  split
  · exact .bind (.of_pure _) hmore
  · exact .bind (simple_exchanges h) fun s => .bind (.of_pure _) hmore

omit h in
theorem condition_exchanges (s : Option Simple) :
    Exchanges x true (condition s) (condition s) := by
  unfold condition
  split
  · exact .of_pure _
  · exact .fail _
  · exact .fail _

theorem elseBranch_exchanges : Exchanges x true (elseBranch rec) (elseBranch rec') := by
  unfold elseBranch
  refine .peek_inner fun k => ?_
  split
  · refine .skip (.peek_inner fun k => ?_)
    split
    · exact .bind (h .conditional) fun s => .of_pure _
    · exact .bind (block_exchanges h) fun b => .of_pure _
    · exact .unexpected _
  · exact .of_pure _

theorem conditional_exchanges : Exchanges x true (conditional rec) (conditional rec') := by
  unfold conditional
  refine .expectKeyword (.atSymbol rfl fun b => ?_)
  extract_lets more more'
  have hmore : ∀ u, Exchanges x true (more u) (more' u) := fun u => by
    refine .bind (.header (initAndLast_exchanges h)) fun last => ?_
    refine .bind (condition_exchanges _) fun cond => .bind (block_exchanges h) fun body => ?_
    exact .bind (elseBranch_exchanges h) fun orElse => .of_pure _
  split
  · exact .fail_bind _ _
  · exact hmore ()

theorem caseClause_exchanges : Exchanges x true (caseClause rec) (caseClause rec') := by
  unfold caseClause
  refine .peek_inner fun k => ?_
  extract_lets more more'
  have hmore : ∀ es, Exchanges x true (more es) (more' es) := fun es =>
    .expect rfl (.bind (h .stmts) fun ss => .of_pure _)
  split
  · exact .skip (.bind (exprs_exchanges h) fun ys => .bind (.of_pure _) hmore)
  · exact .skip (.bind (.of_pure _) hmore)
  · exact .fail_bind _ _

theorem caseClauses_exchanges : Exchanges x true (caseClauses rec) (caseClauses rec') := by
  unfold caseClauses
  refine .atListEnd fun b => ?_
  split
  · exact .of_pure _
  · exact .bind (caseClause_exchanges h) fun c => .bind (h .caseClauses) fun cs => .of_pure _

theorem switch_exchanges : Exchanges x true (switch rec) (switch rec') := by
  unfold switch
  refine .expectKeyword (.bind (.header (.atSymbol rfl fun b => ?_)) fun head => ?_)
  · split
    · exact .of_pure _
    · exact initAndLast_exchanges h
  · exact .expect rfl (.bind_expect (h .caseClauses) rfl fun cs => .of_pure _)

theorem commClause_exchanges : Exchanges x true (commClause rec) (commClause rec') := by
  unfold commClause
  refine .peek_inner fun k => ?_
  extract_lets more more'
  have hmore : ∀ comm, Exchanges x true (more comm) (more' comm) := fun comm =>
    .expect rfl (.bind (h .stmts) fun ss => .of_pure _)
  split
  · exact .skip (.bind (simple_exchanges h) fun s => .bind (.of_pure _) hmore)
  · exact .skip (.bind (.of_pure _) hmore)
  · exact .fail_bind _ _

theorem commClauses_exchanges : Exchanges x true (commClauses rec) (commClauses rec') := by
  unfold commClauses
  refine .atListEnd fun b => ?_
  split
  · exact .of_pure _
  · exact .bind (commClause_exchanges h) fun c => .bind (h .commClauses) fun cs => .of_pure _

theorem select_exchanges : Exchanges x true (select rec) (select rec') := by
  unfold select
  exact .expectKeyword (.expect rfl (.bind_expect (h .commClauses) rfl fun cs => .of_pure _))

theorem rangeOver_exchanges (left : List Expr) (define : Bool) :
    Exchanges x true (rangeOver rec left define) (rangeOver rec' left define) := by
  unfold rangeOver
  refine .skip (.bind (expr_exchanges h) fun y => ?_)
  extract_lets done
  split
  · exact .fail_bind _ _
  · exact .of_pure _

theorem loopClauses_exchanges (init : Option Simple) :
    Exchanges x true (loopClauses rec init) (loopClauses rec' init) := by
  unfold loopClauses
  refine .skip (.atSemicolon fun b => ?_)
  extract_lets more more'
  have hmore : ∀ cond, Exchanges x true (more cond) (more' cond) := fun cond => by
    refine .atSemicolon fun b => ?_
    extract_lets last last'
    have hlast : ∀ u, Exchanges x true (last u) (last' u) := fun u => by
      refine .skip (.atSymbol rfl fun b => ?_)
      split
      · exact .of_pure _
      · exact .bind (simple_exchanges h) fun post => .of_pure _
    split
    · exact .fail_bind _ _
    · exact hlast ()
  split
  · exact .bind (.of_pure _) hmore
  · exact .bind (simple_exchanges h) fun s => .bind (.of_pure _) hmore

theorem loopFrom_exchanges (left : List Expr) :
    Exchanges x true (loopFrom rec left) (loopFrom rec' left) := by
  unfold loopFrom
  refine .peek_inner fun k => .peekSecond (.intro ?_ ?_) (.intro ?_ ?_) fun second => ?found
  case found =>
    split
    · exact .skip (rangeOver_exchanges h left true)
    · exact .skip (rangeOver_exchanges h left false)
    · refine .bind (simpleTail_exchanges h left) fun s => .atSemicolon fun b => ?_
      split
      · exact loopClauses_exchanges h (some s)
      · exact .of_pure _
  all_goals
    cases k with
    | symbol sym => cases sym <;> rfl
    | _ => rfl

theorem loopHeader_exchanges : Exchanges x true (loopHeader rec) (loopHeader rec') := by
  unfold loopHeader
  refine .atSymbol rfl fun b => ?_
  split
  · exact .of_pure _
  refine .atSemicolon fun b => ?_
  split
  · exact loopClauses_exchanges h none
  refine .peek_inner fun k => ?_
  split
  · exact rangeOver_exchanges h _ _
  · exact .bind (exprs_exchanges h) fun left => loopFrom_exchanges h left

theorem loop_exchanges : Exchanges x true (loop rec) (loop rec') := by
  unfold loop
  refine .expectKeyword (.bind (.header (loopHeader_exchanges h)) fun head => ?_)
  refine .bind (block_exchanges h) fun body => ?_
  split
  all_goals first | exact .of_pure _ | exact .fail _

/-! ## Declarations -/

theorem valueSpec_exchanges (kw : ValueKeyword) (first : Bool) :
    Exchanges x true (valueSpec rec kw first) (valueSpec rec' kw first) := by
  unfold valueSpec
  refine .bind (names_exchanges h) fun ns => .peek_inner fun k => ?_
  extract_lets typed typed'
  have htyped : ∀ t, Exchanges x true (typed t) (typed' t) := fun t => by
    have hchecked : ∀ (b : Bool) (f : SyntaxFault) (spec : ValueSpec), Exchanges x true
        (if b = true then (Read.fail f : Read Unit) >>= fun _ => pure spec else pure spec)
        (if b = true then (Read.fail f : Read Unit) >>= fun _ => pure spec else pure spec) := by
      intro b f spec
      split
      · exact .fail_bind _ _
      · exact .of_pure _
    refine .atSymbol rfl fun b => ?_
    cases b with
    | true =>
      refine .skip (.bind (exprs_exchanges h) fun vs => ?_)
      cases kw <;> exact hchecked _ _ _
    | false => cases kw <;> exact hchecked _ _ _
  split
  · exact .bind (.of_pure _) htyped
  · exact .bind (h .type).weaken fun t => .bind (.of_pure _) htyped

theorem valueSpecs_exchanges (kw : ValueKeyword) (first : Bool) :
    Exchanges x true (valueSpecs rec kw first) (valueSpecs rec' kw first) := by
  unfold valueSpecs
  refine .atListEnd fun b => ?_
  split
  · exact .of_pure _
  · refine .bind (valueSpec_exchanges h kw first) fun s => .bind .statementEnd fun _ => ?_
    exact .bind (h (.valueSpecs kw false)) fun ss => .of_pure _

theorem typeSpec_exchanges : Exchanges x true (typeSpec rec) (typeSpec rec') := by
  unfold typeSpec
  refine .expectName fun n => .atSymbol rfl fun isAlias => ?_
  extract_lets more more'
  have hmore : ∀ u, Exchanges x true (more u) (more' u) := fun u =>
    .bind (h .type).weaken fun t => .of_pure _
  split
  · exact .skip (hmore ())
  · exact hmore ()

theorem typeSpecs_exchanges : Exchanges x true (typeSpecs rec) (typeSpecs rec') := by
  unfold typeSpecs
  refine .atListEnd fun b => ?_
  split
  · exact .of_pure _
  · refine .bind (typeSpec_exchanges h) fun s => .bind .statementEnd fun _ => ?_
    exact .bind (h .typeSpecs) fun ss => .of_pure _

omit h in
theorem group_exchanges {α : Type} {lines lines' : Read (List α)} {line line' : Read α}
    (hlines : Exchanges x true lines lines') (hline : Exchanges x true line line') :
    Exchanges x true (group lines line) (group lines' line') := by
  unfold group
  refine .atSymbol rfl fun b => ?_
  split
  · exact .skip (.bind_expect hlines rfl fun ls => .of_pure _)
  · exact .bind hline fun l => .of_pure _

theorem valueDecl_exchanges (kw : ValueKeyword) :
    Exchanges x true (valueDecl rec kw) (valueDecl rec' kw) := by
  unfold valueDecl
  refine .skip (.bind (group_exchanges ?_ ?_) fun ss => .of_pure _)
  · exact h (.valueSpecs kw true)
  · exact valueSpec_exchanges h kw true

theorem typeDecl_exchanges : Exchanges x true (typeDecl rec) (typeDecl rec') := by
  unfold typeDecl
  exact .skip (.bind (group_exchanges (h .typeSpecs) (typeSpec_exchanges h)) fun ss => .of_pure _)

/-! ## Statements -/

theorem launched_exchanges (w : Keyword) :
    Exchanges x true (launched rec w) (launched rec' w) := by
  unfold launched
  refine .skip (.bind (expr_exchanges h) fun y => ?_)
  split
  · exact .of_pure _
  · exact .fail _

theorem results_exchanges : Exchanges x true (results rec) (results rec') := by
  unfold results
  refine .skip (.peek_inner fun k => ?_)
  split
  all_goals first | exact .of_pure _ | exact exprs_exchanges h

omit h in
theorem branch_exchanges (kw : BranchKeyword) : Exchanges x true (branch kw) (branch kw) := by
  unfold branch
  refine .skip (.peek_inner fun k => ?_)
  split
  · exact .of_pure _
  · exact .skip (.of_pure _)
  · exact .of_pure _

theorem labeled_exchanges (l : String) : Exchanges x true (labeled rec l) (labeled rec' l) := by
  unfold labeled
  refine .skip (.peek_inner fun k => ?_)
  split
  · exact .of_pure _
  · exact .of_pure _
  · exact .bind (h .stmt) fun s => .of_pure _

theorem simpleOrLabeled_exchanges :
    Exchanges x true (simpleOrLabeled rec) (simpleOrLabeled rec') := by
  unfold simpleOrLabeled
  refine .bind (exprs_exchanges h) fun left => .peek_inner fun k => ?_
  split
  · exact labeled_exchanges h _
  · exact .bind (simpleTail_exchanges h left) fun s => .bind .statementEnd fun _ => .of_pure _

omit h in
theorem ended_exchanges {α : Type} {p q : Read α} (hp : Exchanges x true p q) :
    Exchanges x true (ended p) (ended q) := by
  unfold ended
  exact .bind hp fun a => .bind .statementEnd fun _ => .of_pure _

theorem stmt_exchanges : Exchanges x true (stmt rec) (stmt rec') := by
  unfold stmt
  refine .peek_inner fun k => ?_
  split
  · exact simpleOrLabeled_exchanges h
  split
  · exact ended_exchanges (valueDecl_exchanges h _)
  · exact ended_exchanges (valueDecl_exchanges h _)
  · exact ended_exchanges (typeDecl_exchanges h)
  · exact ended_exchanges (.bind (launched_exchanges h _) fun y => .of_pure _)
  · exact ended_exchanges (.bind (launched_exchanges h _) fun y => .of_pure _)
  · exact ended_exchanges (.bind (results_exchanges h) fun ys => .of_pure _)
  · exact ended_exchanges (branch_exchanges _)
  · exact ended_exchanges (branch_exchanges _)
  · exact ended_exchanges (branch_exchanges _)
  · exact ended_exchanges (branch_exchanges _)
  · exact ended_exchanges (.bind (block_exchanges h) fun b => .of_pure _)
  · exact ended_exchanges (conditional_exchanges h)
  · exact ended_exchanges (switch_exchanges h)
  · exact ended_exchanges (select_exchanges h)
  · exact ended_exchanges (loop_exchanges h)
  · exact .skip (.of_pure _)
  · exact .skip (.of_pure _)
  · exact .of_pure _
  · exact .of_pure _
  · exact .unexpected _

theorem stmts_exchanges : Exchanges x true (stmts rec) (stmts rec') := by
  unfold stmts
  refine .peek_inner fun k => ?_
  split
  · exact .of_pure _
  · exact .bind (stmt_exchanges h) fun s => .bind (h .stmts) fun ss => .of_pure _

/-! ## All phrases -/

theorem step_exchanges (hn : Phrases.Nest rec) (he : Phrases.Ends rec) :
    Phrases.Exchange x (Phrase.step rec) (Phrase.step rec') := by
  intro α ph
  cases ph with
  | binary prec => exact binary_exchanges h prec
  | binaryTail prec y => exact binaryTail_exchanges h prec y
  | unary => exact unary_exchanges h
  | primaryTail y => exact primaryTail_exchanges h y
  | exprsTail => exact exprsTail_exchanges h
  | args => exact args_exchanges h
  | elems => exact elems_exchanges h
  | type => exact type_exchanges h
  | typesTail => exact typesTail_exchanges h
  | typeArgsTail => exact typeArgsTail_exchanges h
  | namesTail => exact namesTail_exchanges h
  | fields => exact fields_exchanges h hn he
  | interfaceItems => exact interfaceItems_exchanges h
  | unionTail => exact unionTail_exchanges h
  | params => exact params_exchanges h
  | stmt => exact stmt_exchanges h
  | stmts => exact stmts_exchanges h
  | conditional => exact conditional_exchanges h
  | caseClauses => exact caseClauses_exchanges h
  | commClauses => exact commClauses_exchanges h
  | valueSpecs kw first => exact valueSpecs_exchanges h kw first
  | typeSpecs => exact typeSpecs_exchanges h

omit h in
/-- However deep the phrases nest, they read the same in front of other tokens, also when they may
nest deeper there. -/
theorem read_exchanges (x : Exchange) {depth depth' : Nat} (hd : depth ≤ depth') :
    Phrases.Exchange x (Phrase.read depth) (Phrase.read depth') := by
  induction depth generalizing depth' with
  | zero => exact fun _ => .fail _
  | succ depth ih =>
    obtain ⟨deeper, rfl⟩ := Nat.exists_eq_add_of_lt hd
    exact fun ph => step_exchanges (ih (by omega)) (read_nest depth) (read_ends depth) ph

end GoRepl.Syntax
