import GoRepl.Proofs.Syntax.Expression
import GoRepl.Proofs.Syntax.Progress

/-! # Expressions and statements make progress

One lemma for each reader of the grammar, given that the readers of the phrases nested in it make
progress on fewer tokens.

* `primary_guarded`, `stmt_guarded` and the lemmas around them: the grammar of expressions and
  statements.
* `step_guard`: the readers of all phrases over such readers, on one token more.
* `read_guard`: so by induction the readers of any depth, on as many tokens.
* `ImportSpec.readAll_guarded`: the imports of a group.
-/

namespace GoRepl.Syntax

open Read Grammar

variable {α : Type} {z : Trailer} {n : Nat} {fresh strict : Bool} {ts : List Token}

section Grammar

variable {rec rec' : Phrases} (h : Phrases.Guard z n rec rec')

include h

/-! ## Expressions -/

theorem funcOperand_guarded :
    Guarded z n fresh true ts (funcOperand rec) (funcOperand rec') := by
  unfold funcOperand
  refine .bind (signature_guarded h) fun s _ => .atSymbol (fun hk => ?_) (.of_pure _)
  refine .bind (.nested (.bind (.skip hk rfl) fun _ _ => ?_)) fun b _ => .of_pure _
  exact .behind (h .stmts _) fun b _ => .bind (.expect _) fun _ _ => .of_pure _

theorem operand_guarded : Guarded z n fresh true ts (operand rec) (operand rec') := by
  unfold operand
  refine .peek fun k hk => ?_
  split
  · exact .bind (.skip hk rfl) fun _ _ => .of_pure _
  · exact .bind (.skip hk rfl) fun _ _ => .of_pure _
  · refine .bind (.skip hk rfl) fun _ _ => .bind (.nested (h (.binary 1) _)) fun x _ => ?_
    exact .bind (.expect _) fun _ _ => .of_pure _
  · exact .bind (.skip hk rfl) fun _ _ => (funcOperand_guarded h).lower
  all_goals first | exact type_guarded h | exact .unexpected _

theorem primary_guarded : Guarded z n fresh true ts (primary rec) (primary rec') := by
  unfold primary
  exact .bind (operand_guarded h) fun x _ => h (.primaryTail x) _

omit h in
theorem unaryOp?_ne_eof {k : Kind} {op : UnaryOp} (hop : unaryOp? k = some op) :
    (k == .eof) = false := by
  unfold unaryOp? at hop
  split at hop
  all_goals first | rfl | cases hop

omit h in
theorem receive_guarded (x : Expr) : Guarded z n fresh false ts (receive x) (receive x) := by
  unfold receive
  split
  · exact .of_pure _
  · exact .fail _ SyntaxFault.noConfusion
  · exact .of_pure _

theorem unary_guarded : Guarded z n fresh true ts (unary rec) (unary rec') := by
  unfold unary
  refine .peek fun k hk => ?_
  split
  · rename_i op hop
    refine .bind (.skip hk (unaryOp?_ne_eof hop)) fun _ _ => ?_
    exact .bind (h .unary _) fun x _ => .of_pure _
  · split
    · rename_i ha
      refine .bind (.skip (hk.trans (eq_of_beq ha)) rfl) fun _ _ => ?_
      exact .bind (h .unary _) fun x _ => receive_guarded x
    · split
      · rename_i hm
        refine .bind (.skip (hk.trans (eq_of_beq hm)) rfl) fun _ _ => ?_
        exact .bind (h .unary _) fun x _ => .of_pure _
      · exact primary_guarded h

theorem binaryTail_guarded (prec : Nat) (left : Expr) :
    Guarded z n fresh false ts (binaryTail rec prec left) (binaryTail rec' prec left) := by
  unfold binaryTail
  refine .peek fun k hk => ?_
  split
  · split
    · exact .of_pure _
    · refine .bind (.skip hk rfl) fun _ _ => .bind (h (.binary _) _) fun right _ => ?_
      exact h (.binaryTail _ _) _
  · exact .of_pure _

theorem binary_guarded (prec : Nat) :
    Guarded z n fresh true ts (binary rec prec) (binary rec' prec) := by
  unfold binary
  exact .bind (unary_guarded h) fun x _ => h (.binaryTail prec x) _

theorem expr_guarded : Guarded z n fresh true ts (expr rec) (expr rec') := binary_guarded h 1

theorem exprs_guarded : Guarded z n fresh true ts (exprs rec) (exprs rec') := by
  unfold exprs
  exact .bind (expr_guarded h) fun x _ => .behind (h .exprsTail _) fun xs _ => .of_pure _

theorem exprsTail_guarded : Guarded z n fresh false ts (exprsTail rec) (exprsTail rec') := by
  unfold exprsTail
  refine .atSymbol (fun hk => ?_) (.of_pure _)
  exact .bind (.skip hk rfl) fun _ _ => (exprs_guarded h).lower

theorem args_guarded : Guarded z n fresh false ts (args rec) (args rec') := by
  unfold args
  refine .atListEnd (.of_pure _) fun _ => .bind (expr_guarded h) fun x _ => .atSymbol ?_ ?_
  · exact fun hk => .bind (.skip hk rfl) fun _ _ => .moreBehindComma (h .args) _ _
  · exact .moreBehindComma (h .args) _ _

theorem bound_guarded :
    Guarded z n false false ts (indexOrSlice.bound rec) (indexOrSlice.bound rec') := by
  unfold indexOrSlice.bound
  refine .atSymbol (fun _ => ?_) (.atSymbol (fun _ => .of_pure _) ?_)
  · exact .atSymbol (fun _ => .of_pure _) (.of_pure _)
  · exact .bind (h (.binary 1) _) fun i _ => .of_pure _

theorem sliceOrIndex_guarded (x : Expr) (low : Option Expr) :
    Guarded z n false false ts (sliceOrIndex rec x low) (sliceOrIndex rec' x low) := by
  unfold sliceOrIndex
  refine .atSymbol (fun hk => ?_) (.behind (h .typeArgsTail _) fun us _ => .of_pure _)
  refine .bind (.skip hk rfl) fun _ _ => .behind (bound_guarded h) fun high _ => ?_
  refine .atSymbol (fun hk => .bind (.skip hk rfl) fun _ _ => ?_) (.of_pure _)
  exact .behind (bound_guarded h) fun max _ => .of_pure _

theorem indexOrSlice_guarded (x : Expr) :
    Guarded z n fresh true ts (indexOrSlice rec x) (indexOrSlice rec' x) := by
  rw [indexOrSlice_eq, indexOrSlice_eq]
  refine .bind (.expect _) fun _ _ => .behind (.nested ?_) fun made _ => ?_
  · refine .atSymbol (fun _ => sliceOrIndex_guarded h x none) ?_
    exact .bind (expr_guarded h) fun i _ => sliceOrIndex_guarded h x (some i)
  · refine .bind (.expect _) fun _ _ => ?_
    split
    · exact .fail _ SyntaxFault.noConfusion
    · exact .of_pure _

theorem call_guarded (fn : Expr) : Guarded z n fresh true ts (call rec fn) (call rec' fn) := by
  unfold call
  refine .bind (.expect _) fun _ _ => .behind (.nested (h .args _)) fun arguments _ => ?_
  exact .bind (.expect _) fun _ _ => .of_pure _

theorem composite_guarded (t : Option Expr) :
    Guarded z n fresh true ts (composite rec t) (composite rec' t) := by
  unfold composite
  refine .bind (.expect _) fun _ _ => .behind (.nested (h .elems _)) fun es _ => ?_
  exact .bind (.expect _) fun _ _ => .of_pure _

theorem elem_guarded : Guarded z n fresh true ts (elem rec) (elem rec') := by
  unfold elem
  exact .atSymbol (fun _ => composite_guarded h none) (expr_guarded h)

theorem elems_guarded : Guarded z n fresh false ts (elems rec) (elems rec') := by
  unfold elems
  refine .atListEnd (.of_pure _) fun _ => .bind (elem_guarded h) fun k _ => .atSymbol ?_ ?_
  · refine fun hk => .bind (.skip hk rfl) fun _ _ => .bind (elem_guarded h) fun v _ => ?_
    exact .moreBehindComma (h .elems) _ _
  · exact .moreBehindComma (h .elems) _ _

theorem selectorOrAssertion_guarded (x : Expr) : Guarded z n fresh true ts
    (selectorOrAssertion rec x) (selectorOrAssertion rec' x) := by
  unfold selectorOrAssertion
  have hclose : ∀ t zs, Guarded z n false false zs
      (expect .rparen >>= fun _ => pure (Expr.assertion x t))
      (expect .rparen >>= fun _ => pure (Expr.assertion x t)) := fun t zs =>
    .bind (.expect _) fun _ _ => .of_pure _
  refine .peek fun k hk => ?_
  split
  · exact .bind (.skip hk rfl) fun _ _ => .of_pure _
  · refine .bind (.skip hk rfl) fun _ _ => .peek fun k hk => ?_
    split
    · rename_i ht
      exact .bind (.skip (hk.trans (eq_of_beq ht)) rfl) fun _ _ => hclose none _
    · exact .bind (h .type _) fun t _ => hclose (some t) _
  · exact .unexpected _

theorem primaryTail_guarded (x : Expr) :
    Guarded z n fresh false ts (primaryTail rec x) (primaryTail rec' x) := by
  unfold primaryTail
  refine .peek fun k hk => ?_
  split
  · refine .bind (.skip hk rfl) fun _ _ => ?_
    exact .bind (selectorOrAssertion_guarded h x) fun y _ => h (.primaryTail y) _
  · exact .bind (indexOrSlice_guarded h x) fun y _ => h (.primaryTail y) _
  · exact .bind (call_guarded h x) fun y _ => h (.primaryTail y) _
  · refine .level fun l => ?_
    split
    · exact .bind (composite_guarded h _) fun y _ => h (.primaryTail y) _
    · exact .of_pure _
  · exact .of_pure _

/-! ## Statements -/

omit h in
theorem assignOp?_ne_eof {k : Kind} {op : AssignOp} (hop : assignOp? k = some op) :
    (k == .eof) = false := by
  unfold assignOp? at hop
  split at hop
  all_goals first | rfl | cases hop

theorem assignment_guarded (left : List Expr) (op : AssignOp)
    (hk : (headKind ts == .eof) = false) :
    Guarded z n fresh true ts (assignment rec left op) (assignment rec' left op) := by
  unfold assignment
  refine .bind (.skip rfl hk) fun _ _ => .bind (exprs_guarded h) fun right _ => ?_
  extract_lets done
  split
  · split
    · exact .fail_bind _ SyntaxFault.noConfusion _ _
    · exact .of_pure _
  · exact .of_pure _

theorem simpleTail_guarded (left : List Expr) :
    Guarded z n fresh false ts (simpleTail rec left) (simpleTail rec' left) := by
  unfold simpleTail
  refine .peek fun k hk => ?_
  split
  · rename_i op hop
    exact (assignment_guarded h left op (hk ▸ assignOp?_ne_eof hop)).lower
  · split
    · split
      · exact .bind (.skip hk rfl) fun _ _ => .bind (expr_guarded h) fun v _ => .of_pure _
      · exact .bind (.skip hk rfl) fun _ _ => .of_pure _
      · exact .bind (.skip hk rfl) fun _ _ => .of_pure _
      · exact .of_pure _
    · exact .unexpected _

theorem simple_guarded : Guarded z n fresh true ts (simple rec) (simple rec') := by
  unfold simple
  exact .bind (exprs_guarded h) fun left _ => simpleTail_guarded h left

theorem block_guarded : Guarded z n fresh true ts (block rec) (block rec') := by
  unfold block
  refine .bind (.expect _) fun _ _ => .behind (h .stmts _) fun ss _ => ?_
  exact .bind (.expect _) fun _ _ => .of_pure _

theorem initAndLast_guarded :
    Guarded z n fresh false ts (initAndLast rec) (initAndLast rec') := by
  unfold initAndLast
  have hlast : ∀ fresh fst zs, Guarded z n fresh false zs
      (atSemicolon >>= fun b => if b = true then do
        skip
        if ← atSymbol .lbrace then return (fst, none)
        let s ← simple rec
        return (fst, some s)
      else return (none, fst))
      (atSemicolon >>= fun b => if b = true then do
        skip
        if ← atSymbol .lbrace then return (fst, none)
        let s ← simple rec'
        return (fst, some s)
      else return (none, fst)) := fun fresh fst zs => by
    refine .atSemicolon (fun hk => ?_) (.of_pure _)
    refine .bind (.skip rfl (isSemicolon_ne_eof hk)) fun _ _ => .atSymbol (fun _ => .of_pure _) ?_
    exact .bind (simple_guarded h) fun s _ => .of_pure _
  refine .atSemicolon (fun _ => hlast _ none _) ?_
  exact .bind (simple_guarded h) fun s _ => hlast _ (some s) _

omit h in
theorem condition_guarded (s : Option Simple) :
    Guarded z n fresh false ts (condition s) (condition s) := by
  unfold condition
  split
  · exact .of_pure _
  · exact .fail _ SyntaxFault.noConfusion
  · exact .fail _ SyntaxFault.noConfusion

theorem elseBranch_guarded :
    Guarded z n fresh false ts (elseBranch rec) (elseBranch rec') := by
  unfold elseBranch
  refine .peek fun k hk => ?_
  split
  · rename_i he
    refine .bind (.skip (hk.trans (eq_of_beq he)) rfl) fun _ _ => .peek fun k _ => ?_
    split
    · exact .bind (h .conditional _) fun s _ => .of_pure _
    · exact .bind (block_guarded h) fun b _ => .of_pure _
    · exact .unexpected _
  · exact .of_pure _

theorem conditional_guarded :
    Guarded z n fresh true ts (conditional rec) (conditional rec') := by
  unfold conditional
  refine .bind (.expectKeyword _) fun _ _ => ?_
  extract_lets rest rest'
  have hrest : ∀ zs, Guarded z n false false zs (rest ()) (rest' ()) := fun zs => by
    refine .behind (.header (initAndLast_guarded h)) fun last _ => ?_
    refine .behind (condition_guarded _) fun cond _ => .bind (block_guarded h) fun body _ => ?_
    exact .behind (elseBranch_guarded h) fun orElse _ => .of_pure _
  exact .atSymbol (fun _ => .fail_bind _ SyntaxFault.noConfusion _ _) (hrest _)

theorem caseClause_guarded :
    Guarded z n fresh true ts (caseClause rec) (caseClause rec') := by
  unfold caseClause
  refine .peek fun k hk => ?_
  extract_lets rest rest'
  have hrest : ∀ es zs, Guarded z n false false zs (rest es) (rest' es) := fun es zs =>
    .bind (.expect _) fun _ _ => .behind (h .stmts _) fun ss _ => .of_pure _
  split
  · exact .bind (.skip hk rfl) fun _ _ => .bind (exprs_guarded h) fun xs _ => hrest (some xs) _
  · exact .bind (.skip hk rfl) fun _ _ => hrest none _
  · exact .unexpected_bind _ _ _

theorem caseClauses_guarded :
    Guarded z n fresh false ts (caseClauses rec) (caseClauses rec') := by
  unfold caseClauses
  refine .atListEnd (.of_pure _) fun _ => .bind (caseClause_guarded h) fun c _ => ?_
  exact .behind (h .caseClauses _) fun cs _ => .of_pure _

theorem switch_guarded : Guarded z n fresh true ts (switch rec) (switch rec') := by
  unfold switch
  refine .bind (.expectKeyword _) fun _ _ => .behind (.header ?_) fun head _ => ?_
  · exact .atSymbol (fun _ => .of_pure _) (initAndLast_guarded h)
  · refine .bind (.expect _) fun _ _ => .behind (h .caseClauses _) fun cs _ => ?_
    exact .bind (.expect _) fun _ _ => .of_pure _

theorem commClause_guarded :
    Guarded z n fresh true ts (commClause rec) (commClause rec') := by
  unfold commClause
  refine .peek fun k hk => ?_
  extract_lets rest rest'
  have hrest : ∀ comm zs, Guarded z n false false zs (rest comm) (rest' comm) := fun comm zs =>
    .bind (.expect _) fun _ _ => .behind (h .stmts _) fun ss _ => .of_pure _
  split
  · exact .bind (.skip hk rfl) fun _ _ => .bind (simple_guarded h) fun s _ => hrest (some s) _
  · exact .bind (.skip hk rfl) fun _ _ => hrest none _
  · exact .unexpected_bind _ _ _

theorem commClauses_guarded :
    Guarded z n fresh false ts (commClauses rec) (commClauses rec') := by
  unfold commClauses
  refine .atListEnd (.of_pure _) fun _ => .bind (commClause_guarded h) fun c _ => ?_
  exact .behind (h .commClauses _) fun cs _ => .of_pure _

theorem select_guarded : Guarded z n fresh true ts (select rec) (select rec') := by
  unfold select
  refine .bind (.expectKeyword _) fun _ _ => .bind (.expect _) fun _ _ => ?_
  exact .behind (h .commClauses _) fun cs _ => .bind (.expect _) fun _ _ => .of_pure _

theorem rangeOver_guarded (left : List Expr) (define : Bool)
    (hk : (headKind ts == .eof) = false) :
    Guarded z n fresh true ts (rangeOver rec left define) (rangeOver rec' left define) := by
  unfold rangeOver
  refine .bind (.skip rfl hk) fun _ _ => .bind (expr_guarded h) fun x _ => ?_
  extract_lets done
  split
  · exact .fail_bind _ SyntaxFault.noConfusion _ _
  · exact .of_pure _

theorem loopClauses_guarded (init : Option Simple) (hk : (headKind ts).isSemicolon = true) :
    Guarded z n fresh true ts (loopClauses rec init) (loopClauses rec' init) := by
  unfold loopClauses
  refine .bind (.skip rfl (isSemicolon_ne_eof hk)) fun _ _ => ?_
  extract_lets rest rest'
  have hrest : ∀ cond zs, Guarded z n false false zs (rest cond) (rest' cond) := fun cond zs => by
    refine .atSemicolon (fun hs => ?_) (.unexpected_bind _ _ _)
    refine .bind (.skip rfl (isSemicolon_ne_eof hs)) fun _ _ => .atSymbol (fun _ => .of_pure _) ?_
    exact .bind (simple_guarded h) fun post _ => .of_pure _
  refine .atSemicolon (fun _ => hrest none _) ?_
  exact .bind (simple_guarded h) fun s _ => hrest (some s) _

theorem loopFrom_guarded (left : List Expr) :
    Guarded z n fresh false ts (loopFrom rec left) (loopFrom rec' left) := by
  unfold loopFrom
  have hsimple : ∀ zs, Guarded z n fresh false zs
      (simpleTail rec left >>= fun s => atSemicolon >>= fun b =>
        if b = true then loopClauses rec (some s) else pure (.clauses none (some s) none))
      (simpleTail rec' left >>= fun s => atSemicolon >>= fun b =>
        if b = true then loopClauses rec' (some s)
        else pure (LoopHeader.clauses none (some s) none)) := fun zs => by
    refine .behind (simpleTail_guarded h left) fun s _ => .atSemicolon (fun hs => ?_) (.of_pure _)
    exact (loopClauses_guarded h (some s) hs).lower
  refine .peek fun k hk => .peekSecond (fun second hs => ?_) fun hts second => ?_
  · have hrange : ∀ define, k ≠ .eof → second = .keyword .rangeKw → Guarded z n fresh false ts
        (skip >>= fun _ => rangeOver rec left define)
        (skip >>= fun _ => rangeOver rec' left define) := by
      intro define hne hsecond
      refine .skip_tail (hk ▸ hne) (rangeOver_guarded h left define ?_).lower
      rw [hs, hsecond]
      rfl
    split
    · exact hrange true Kind.noConfusion rfl
    · exact hrange false Kind.noConfusion rfl
    · exact hsimple _
  · rw [hts] at hk
    cases hk
    exact hsimple _

theorem loopHeader_guarded : Guarded z n fresh false ts (loopHeader rec) (loopHeader rec') := by
  unfold loopHeader
  refine .atSymbol (fun _ => .of_pure _)
    (.atSemicolon (fun hk => (loopClauses_guarded h none hk).lower) ?_)
  refine .peek fun k hk => ?_
  split
  · rename_i hr
    have hne : (headKind ts == .eof) = false := by
      rw [hk, eq_of_beq hr]
      rfl
    exact (rangeOver_guarded h _ _ hne).lower
  · exact .bind (exprs_guarded h) fun left _ => loopFrom_guarded h left

theorem loop_guarded : Guarded z n fresh true ts (loop rec) (loop rec') := by
  unfold loop
  refine .bind (.expectKeyword _) fun _ _ => ?_
  refine .behind (.header (loopHeader_guarded h)) fun head _ => .bind (block_guarded h) ?_
  intro body _
  split
  all_goals first | exact .of_pure _ | exact .fail _ SyntaxFault.noConfusion

/-! ## Declarations -/

theorem valueSpec_guarded (kw : ValueKeyword) (first : Bool) :
    Guarded z n fresh true ts (valueSpec rec kw first) (valueSpec rec' kw first) := by
  unfold valueSpec
  refine .bind (names_guarded h) fun ns _ => .peek fun k _ => ?_
  extract_lets typed typed'
  have htyped : ∀ t zs, Guarded z n false false zs (typed t) (typed' t) := fun t zs => by
    have hchecked : ∀ (b : Bool) (f : SyntaxFault) (spec : ValueSpec) zs, f ≠ .tooDeep →
        Guarded z n false false zs
          (if b = true then (Read.fail f : Read Unit) >>= fun _ => pure spec else pure spec)
          (if b = true then (Read.fail f : Read Unit) >>= fun _ => pure spec else pure spec) := by
      intro b f spec zs hf
      split
      · exact .fail_bind _ hf _ _
      · exact .of_pure _
    refine .atSymbol (fun hk => .bind (.skip hk rfl) fun _ _ => .bind (exprs_guarded h)
      fun vs _ => ?_) ?_
    all_goals cases kw <;> exact hchecked _ _ _ _ SyntaxFault.noConfusion
  split
  · exact htyped none _
  · exact .bind (h .type _) fun t _ => htyped (some t) _

theorem valueSpecs_guarded (kw : ValueKeyword) (first : Bool) :
    Guarded z n fresh false ts (valueSpecs rec kw first) (valueSpecs rec' kw first) := by
  unfold valueSpecs
  refine .atListEnd (.of_pure _) fun _ => .bind (valueSpec_guarded h kw first) fun s _ => ?_
  exact .behind .statementEnd fun _ _ => .behind (h (.valueSpecs kw false) _) fun ss _ => .of_pure _

theorem typeSpec_guarded : Guarded z n fresh true ts (typeSpec rec) (typeSpec rec') := by
  unfold typeSpec
  refine .bind .expectName fun m _ => ?_
  have htype : ∀ isAlias zs, Guarded z n false false zs
      (rec .type >>= fun t => pure (TypeSpec.mk m isAlias t))
      (rec' .type >>= fun t => pure (TypeSpec.mk m isAlias t)) :=
    fun isAlias zs => .bind (h .type _) fun t _ => .of_pure _
  exact .atSymbol (fun hk => .bind (.skip hk rfl) fun _ _ => htype _ _) (htype _ _)

theorem typeSpecs_guarded : Guarded z n fresh false ts (typeSpecs rec) (typeSpecs rec') := by
  unfold typeSpecs
  refine .atListEnd (.of_pure _) fun _ => .bind (typeSpec_guarded h) fun s _ => ?_
  exact .behind .statementEnd fun _ _ => .behind (h .typeSpecs _) fun ss _ => .of_pure _

omit h in
theorem group_guarded {lines lines' : Read (List α)} {line line' : Read α}
    (hlines : ∀ zs, Guarded z n false false zs lines lines')
    (hline : ∀ zs, Guarded z n fresh true zs line line') :
    Guarded z n fresh true ts (group lines line) (group lines' line') := by
  unfold group
  refine .atSymbol (fun hk => ?_) (.bind (hline _) fun l _ => .of_pure _)
  refine .bind (.skip hk rfl) fun _ _ => .behind (hlines _) fun ls _ => ?_
  exact .bind (.expect _) fun _ _ => .of_pure _

theorem valueDecl_guarded (kw : ValueKeyword) (hk : (headKind ts == .eof) = false) :
    Guarded z n fresh true ts (valueDecl rec kw) (valueDecl rec' kw) := by
  unfold valueDecl
  refine .bind (.skip rfl hk) fun _ _ => .bind (group_guarded (h (.valueSpecs kw true)) ?_)
    fun ss _ => .of_pure _
  exact fun _ => valueSpec_guarded h kw true

theorem typeDecl_guarded (hk : (headKind ts == .eof) = false) :
    Guarded z n fresh true ts (typeDecl rec) (typeDecl rec') := by
  unfold typeDecl
  refine .bind (.skip rfl hk) fun _ _ => .bind (group_guarded (h .typeSpecs) ?_)
    fun ss _ => .of_pure _
  exact fun _ => typeSpec_guarded h

/-! ## Statements -/

theorem launched_guarded (w : Keyword) (hk : (headKind ts == .eof) = false) :
    Guarded z n fresh true ts (launched rec w) (launched rec' w) := by
  unfold launched
  refine .bind (.skip rfl hk) fun _ _ => .bind (expr_guarded h) fun x _ => ?_
  split
  · exact .of_pure _
  · exact .fail _ SyntaxFault.noConfusion

theorem results_guarded (hk : (headKind ts == .eof) = false) :
    Guarded z n fresh true ts (results rec) (results rec') := by
  unfold results
  refine .bind (.skip rfl hk) fun _ _ => .peek fun k _ => ?_
  split
  all_goals first | exact .of_pure _ | exact (exprs_guarded h).lower

omit h in
theorem branch_guarded (kw : BranchKeyword) (hk : (headKind ts == .eof) = false) :
    Guarded z n fresh true ts (branch kw) (branch kw) := by
  unfold branch
  refine .bind (.skip rfl hk) fun _ _ => .peek fun k hk => ?_
  split
  · exact .of_pure _
  · exact .bind (.skip hk rfl) fun _ _ => .of_pure _
  · exact .of_pure _

theorem labeled_guarded (l : String) (hk : (headKind ts == .eof) = false) :
    Guarded z n fresh true ts (labeled rec l) (labeled rec' l) := by
  unfold labeled
  refine .bind (.skip rfl hk) fun _ _ => .peek fun k _ => ?_
  split
  · exact .of_pure _
  · exact .of_pure _
  · exact .behind (h .stmt _) fun s _ => .of_pure _

theorem simpleOrLabeled_guarded :
    Guarded z n fresh true ts (simpleOrLabeled rec) (simpleOrLabeled rec') := by
  unfold simpleOrLabeled
  refine .bind (exprs_guarded h) fun left _ => .peek fun k hk => ?_
  split
  · exact (labeled_guarded h _ (hk ▸ rfl)).lower
  · refine .behind (simpleTail_guarded h left) fun s _ => ?_
    exact .behind .statementEnd fun _ _ => .of_pure _

omit h in
theorem ended_guarded {p q : Read α} (hp : Guarded z n fresh true ts p q) :
    Guarded z n fresh true ts (ended p) (ended q) := by
  unfold ended
  exact .bind hp fun a _ => .behind .statementEnd fun _ _ => .of_pure _

/-- A statement takes a token unless it stands in front of a closing brace or at the end. -/
theorem stmt_guarded (hstop : strict = true →
      headKind ts ≠ .symbol .rbrace ∧ headKind ts ≠ .eof) :
    Guarded z n fresh strict ts (stmt rec) (stmt rec') := by
  unfold stmt
  refine .peek fun k hk => ?_
  have hempty : ∀ x, (k = .symbol .rbrace ∨ k = .eof) →
      Guarded z n fresh strict ts (pure x : Read Stmt) (pure x) := by
    intro x hx
    cases strict with
    | false => exact .of_pure x
    | true =>
      obtain ⟨hbrace, heof⟩ := hstop rfl
      rw [hk] at hbrace heof
      exact absurd hx (not_or.mpr ⟨hbrace, heof⟩)
  split
  · exact (simpleOrLabeled_guarded h).lower
  split
  · exact (ended_guarded (valueDecl_guarded h _ (hk ▸ rfl))).lower
  · exact (ended_guarded (valueDecl_guarded h _ (hk ▸ rfl))).lower
  · exact (ended_guarded (typeDecl_guarded h (hk ▸ rfl))).lower
  · exact (ended_guarded (.bind (launched_guarded h _ (hk ▸ rfl)) fun x _ => .of_pure _)).lower
  · exact (ended_guarded (.bind (launched_guarded h _ (hk ▸ rfl)) fun x _ => .of_pure _)).lower
  · exact (ended_guarded (.bind (results_guarded h (hk ▸ rfl)) fun xs _ => .of_pure _)).lower
  · exact (ended_guarded (branch_guarded _ (hk ▸ rfl))).lower
  · exact (ended_guarded (branch_guarded _ (hk ▸ rfl))).lower
  · exact (ended_guarded (branch_guarded _ (hk ▸ rfl))).lower
  · exact (ended_guarded (branch_guarded _ (hk ▸ rfl))).lower
  · exact (ended_guarded (.bind (block_guarded h) fun b _ => .of_pure _)).lower
  · exact (ended_guarded (conditional_guarded h)).lower
  · exact (ended_guarded (switch_guarded h)).lower
  · exact (ended_guarded (select_guarded h)).lower
  · exact (ended_guarded (loop_guarded h)).lower
  · exact .bind (.skip hk rfl) fun _ _ => .of_pure _
  · exact .bind (.skip hk rfl) fun _ _ => .of_pure _
  · exact hempty _ (.inl rfl)
  · exact hempty _ (.inr rfl)
  · exact .unexpected _

theorem stmts_guarded : Guarded z n fresh false ts (stmts rec) (stmts rec') := by
  unfold stmts
  refine .peek fun k hk => ?_
  split
  · exact .of_pure _
  · rename_i hends
    refine .bind (stmt_guarded h fun _ => ⟨fun hb => ?_, fun he => ?_⟩) fun s _ => ?_
    · rw [hk] at hb
      exact hends (hb ▸ rfl)
    · rw [hk] at he
      exact hends (he ▸ rfl)
    · exact .behind (h .stmts _) fun ss _ => .of_pure _

/-! ## All phrases -/

theorem step_guarded (ph : Phrase α) :
    Guarded z n fresh ph.takes ts (ph.step rec) (ph.step rec') := by
  cases ph with
  | binary prec => exact binary_guarded h prec
  | binaryTail prec x => exact binaryTail_guarded h prec x
  | unary => exact unary_guarded h
  | primaryTail x => exact primaryTail_guarded h x
  | exprsTail => exact exprsTail_guarded h
  | args => exact args_guarded h
  | elems => exact elems_guarded h
  | type => exact type_guarded h
  | typesTail => exact typesTail_guarded h
  | typeArgsTail => exact typeArgsTail_guarded h
  | namesTail => exact namesTail_guarded h
  | fields => exact fields_guarded h
  | interfaceItems => exact interfaceItems_guarded h
  | unionTail => exact unionTail_guarded h
  | params => exact params_guarded h
  | stmt => exact stmt_guarded h Bool.noConfusion
  | stmts => exact stmts_guarded h
  | conditional => exact conditional_guarded h
  | caseClauses => exact caseClauses_guarded h
  | commClauses => exact commClauses_guarded h
  | valueSpecs kw first => exact valueSpecs_guarded h kw first
  | typeSpecs => exact typeSpecs_guarded h

/-- Over readers that make progress on fewer than `n` tokens the phrases do so on `n` of them. -/
theorem step_guard : Phrases.Guard z (n + 1) (Phrase.step rec) (Phrase.step rec') := by
  intro α ph ts
  have hfresh : Guarded z n true ph.takes ts (ph.step rec) (ph.step rec') := step_guarded h ph
  exact hfresh

end Grammar

/-- The readers of phrases that may nest as often as there are tokens do not use up their bound. -/
theorem read_guard {depth depth' : Nat} (hd : n ≤ depth) (hd' : n ≤ depth') :
    Phrases.Guard z n (Phrase.read depth) (Phrase.read depth') := by
  induction n generalizing depth depth' with
  | zero => exact fun _ _ hlen => absurd hlen (Nat.not_lt_zero _)
  | succ n ih =>
    obtain ⟨depth, rfl⟩ := Nat.exists_eq_add_one_of_ne_zero (Nat.ne_zero_of_lt hd)
    obtain ⟨depth', rfl⟩ := Nat.exists_eq_add_one_of_ne_zero (Nat.ne_zero_of_lt hd')
    exact step_guard (ih (Nat.le_of_succ_le_succ hd) (Nat.le_of_succ_le_succ hd'))

/-! ## Imports -/

namespace ImportSpec

theorem read_guarded : Guarded z n fresh true ts read read := by
  unfold read
  refine .peek fun k hk => ?_
  extract_lets path
  have hpath : ∀ fresh name zs, Guarded z n fresh true zs (path name) (path name) := by
    intro fresh name zs
    refine .peek fun k hk => ?_
    split
    · dsimp only
      split
      · exact .fail_bind _ SyntaxFault.noConfusion _ _
      · exact .bind (.skip hk rfl) fun _ _ => .of_pure _
    · exact .unexpected _
  split
  · exact .bind (.skip hk rfl) fun _ _ => (hpath _ _ _).lower
  · exact .bind (.skip hk rfl) fun _ _ => (hpath _ _ _).lower
  · exact hpath _ _ _

/-- One line of a group, and the lines behind it. -/
def lines (more : Read (List ImportSpec)) : Read (List ImportSpec) := do
  if ← atListEnd .rparen then return []
  let i ← read
  statementEnd
  let is ← more
  return i :: is

theorem readAll_succ (bound : Nat) : readAll (bound + 1) = lines (readAll bound) := rfl

theorem lines_guarded {more more' : Read (List ImportSpec)}
    (h : ∀ zs, Guarded z n false false zs more more') :
    Guarded z n fresh false ts (lines more) (lines more') := by
  unfold lines
  refine .atListEnd (.of_pure _) fun _ => .bind read_guarded fun i _ => ?_
  exact .behind .statementEnd fun _ _ => .behind (h _) fun is _ => .of_pure _

theorem readAll_guarded {bound bound' : Nat} (hb : n ≤ bound) (hb' : n ≤ bound') :
    Guarded z n false false ts (readAll bound) (readAll bound') := by
  induction n generalizing ts bound bound' with
  | zero => exact fun hlen => absurd hlen (Nat.not_lt_zero _)
  | succ n ih =>
    obtain ⟨bound, rfl⟩ := Nat.exists_eq_add_one_of_ne_zero (Nat.ne_zero_of_lt hb)
    obtain ⟨bound', rfl⟩ := Nat.exists_eq_add_one_of_ne_zero (Nat.ne_zero_of_lt hb')
    rw [readAll_succ, readAll_succ]
    have hfresh : Guarded z n true false ts (lines (readAll bound)) (lines (readAll bound')) :=
      lines_guarded fun _ => ih (Nat.le_of_succ_le_succ hb) (Nat.le_of_succ_le_succ hb')
    exact hfresh

end ImportSpec

end GoRepl.Syntax
